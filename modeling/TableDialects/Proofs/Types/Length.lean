import TableDialects.Proofs.Types.Keyword

/- Lengths that SQL Server limits, for `limitLength`. A written type keeps its
   length, gets MAX in its place, or is refused because the length has too many
   digits to be read as a number (`outcome_limitLength`). Which of these is decided by
   the number that the digits stand for (`Numeral.toInt?_digits`), so that leading
   zeros do not matter but for the limit on digits. -/
namespace TableDialects

/-! ## Digits as numbers -/

namespace Numeral

/-- A digit of any script has an ASCII digit as its plain form. -/
theorem isAsciiDigit_plainChar {c : Char} (h : Text.isDigit c = true) :
    isAsciiDigit (plainChar c) = true := by
  have hdigit : ∀ d < 10, isAsciiDigit (Char.ofNat (48 + d)) = true := by decide
  unfold plainChar
  split
  · rename_i hascii
    exact Text.of_ascii (p := fun c => Text.isDigit c = true → isAsciiDigit c = true) (by decide) hascii h
  · rename_i hascii
    have hblank : Text.isBlank c = false := by
      cases hb : Text.isBlank c with
      | false => rfl
      | true => rw [Text.isDigit_of_isBlank hb] at h; cases h
    rw [if_neg (by rw [hblank]; exact Bool.false_ne_true)]
    obtain ⟨d, hd⟩ := Option.isSome_iff_exists.1 h
    rw [hd]
    refine hdigit d ?_
    unfold Text.digitValue? at hd
    rw [if_neg hascii, Option.map_eq_some_iff] at hd
    obtain ⟨r, -, rfl⟩ := hd
    exact Nat.mod_lt _ (by decide)

theorem of_isAsciiDigit {p : Char → Prop}
    (h : ∀ n < 128, isAsciiDigit (Char.ofNat n) = true → p (Char.ofNat n)) {c : Char}
    (hc : isAsciiDigit c = true) : p c := by
  have hascii : c.toNat < 128 := by
    unfold isAsciiDigit asciiDigit? at hc
    dsimp only at hc
    split at hc
    · rename_i hle
      rw [Bool.and_eq_true, decide_eq_true_eq, decide_eq_true_eq] at hle
      omega
    · cases hc
  exact Text.of_ascii (p := fun c => isAsciiDigit c = true → p c) h hascii hc

theorem breaksOk_digits {s : Text} (h : ∀ c ∈ s, isAsciiDigit c = true) (before : Bool) :
    breaksOk before s = true := by
  induction s generalizing before with
  | nil => rfl
  | cons c s ih =>
    have hc : c ≠ '_' :=
      of_isAsciiDigit (p := fun c => c ≠ '_') (by decide) (h c List.mem_cons_self)
    rw [breaksOk.eq_3 _ _ _ hc]
    exact ih (fun d hd => h d (List.mem_cons_of_mem c hd)) _

theorem splitSign_digits {s : Text} (h : ∀ c ∈ s, isAsciiDigit c = true) : splitSign s = (false, s) := by
  unfold splitSign
  split
  · exact absurd (h '-' List.mem_cons_self) (by decide)
  · exact absurd (h '+' List.mem_cons_self) (by decide)
  · rfl

theorem trim_digits {s : Text} (h : ∀ c ∈ s, isAsciiDigit c = true) : Text.trim isSpace s = s := by
  have hdrop : ∀ s : Text, (∀ c ∈ s, isAsciiDigit c = true) → s.dropWhile isSpace = s := by
    intro s hs
    cases s with
    | nil => rfl
    | cons c s =>
      have hc : isSpace c = false :=
        of_isAsciiDigit (p := fun c => isSpace c = false) (by decide) (hs c List.mem_cons_self)
      exact List.dropWhile_cons_of_neg (by rw [hc]; exact Bool.false_ne_true)
  unfold Text.trim Text.trimEnd Text.trimStart
  rw [hdrop s h, hdrop s.reverse fun c hc => h c (List.mem_reverse.1 hc), List.reverse_reverse]

theorem toInt?_digits {ds : Text} (h : Params.isDigits ds = true) :
    (toInt? ds).isSome = !decide (digitLimit < ds.length) := by
  obtain ⟨hne, hdigits⟩ := Params.isDigits_cases h
  have hplain : ∀ c ∈ ds.map plainChar, isAsciiDigit c = true := by
    intro c hc
    obtain ⟨d, hd, rfl⟩ := List.mem_map.1 hc
    exact isAsciiDigit_plainChar (hdigits d hd)
  have hbreaks : dropBreaks? (ds.map plainChar) = some (ds.map plainChar) := by
    unfold dropBreaks?
    rw [if_pos (breaksOk_digits hplain false), List.filter_eq_self.2]
    intro c hc
    rw [bne_iff_ne]
    exact of_isAsciiDigit (p := fun c => c ≠ '_') (by decide) (hplain c hc)
  have hempty : (ds.map plainChar).isEmpty = false := by
    cases ds with
    | nil => exact absurd rfl hne
    | cons c ds => rfl
  have hall : (ds.map plainChar).all isAsciiDigit = true := List.all_eq_true.2 hplain
  unfold toInt? plainText
  rw [trim_digits hplain, splitSign_digits hplain]
  dsimp only
  rw [hbreaks]
  dsimp only
  rw [hempty, hall, List.length_map]
  by_cases hlong : digitLimit < ds.length
  · simp [hlong]
  · simp [hlong]

end Numeral

/-! ## Lengths of types -/

/-- The digits of parameters that are one length. -/
def Params.digits? : Params → Option Text
  | .length ds => some ds
  | _ => none

theorem Params.eq_length {p : Params} {ds : Text} (h : p.digits? = some ds) : p = .length ds := by
  cases p with
  | length es => exact congrArg Params.length (Option.some.inj h)
  | _ => cases h

/-- The type without a limit to its length. -/
def TypeForm.unlimited (f : TypeForm) : TypeForm := ⟨f.base, .word "MAX", false⟩

namespace TypeForm

variable (f : TypeForm)

theorem text_unlimited {keyword : String} (h : Text.upper f.base.toList = keyword.toList) :
    keyword.toList ++ "(MAX)".toList = f.unlimited.text := by
  rw [TypeForm.text, ← h]
  rfl

theorem kind_unlimited : f.unlimited.kind = .free :=
  LengthKind.ofType_of_length (p := (Params.word "MAX").text) (by decide) _

variable {f}

theorem IsPlain.unlimited (h : f.IsPlain) {ds : Text} (hdigits : f.params.digits? = some ds) :
    f.unlimited.IsPlain := by
  refine ⟨⟨h.sound.base, rfl, fun hb => ?_⟩, rfl, h.still⟩
  rw [h.sound.boolean hb] at hdigits
  cases hdigits

end TypeForm

/-- Parameters are overlong if they are one length that is no number. -/
theorem Params.isOverlong_iff {p : Params} (hp : p.isSound = true) :
    LengthKind.isOverlong p.text = true ↔ ∃ ds, p.digits? = some ds ∧ Numeral.toInt? ds = none := by
  cases p with
  | absent =>
    constructor
    · intro h
      cases h
    · rintro ⟨ds, h, -⟩
      cases h
  | word w =>
    rw [isSound, Bool.or_eq_true, beq_iff_eq, beq_iff_eq] at hp
    constructor
    · intro h
      rcases hp with rfl | rfl <;> exact absurd h (by decide)
    · rintro ⟨ds, h, -⟩
      cases h
  | precision ds es =>
    constructor
    · intro h
      have hcomma : (precision ds es).text.contains ',' = true := by
        rw [List.contains_iff_mem]
        simp [text, Column.paramsText, inner, Token.mark]
      rw [LengthKind.isOverlong, hcomma] at h
      cases h
    · rintro ⟨ds, h, -⟩
      cases h
  | length ds =>
    have htext : (length ds).text = '(' :: (ds ++ [')']) := by
      simp [text, Column.paramsText, inner]
    have hcomma : (length ds).text.contains ',' = false := by
      rw [htext, List.contains_eq_mem, decide_eq_false_iff_not]
      intro hc
      rw [List.mem_cons, List.mem_append, List.mem_singleton] at hc
      rcases hc with hc | hc | hc
      · cases hc
      · exact absurd ((isDigits_cases hp).2 ',' hc) (by decide)
      · cases hc
    have hnone : Numeral.toInt? ds = none ↔ Numeral.digitLimit < ds.length := by
      rw [← Option.not_isSome_iff_eq_none, Numeral.toInt?_digits hp, Bool.not_eq_true', Bool.not_eq_false, decide_eq_true_eq]
    rw [LengthKind.isOverlong, hcomma, htext, Bool.not_false, Bool.true_and, decide_eq_true_eq,
      List.length_cons, List.length_append, List.length_singleton]
    constructor
    · intro h
      exact ⟨ds, rfl, hnone.2 (by omega)⟩
    · rintro ⟨es, h, hlong⟩
      cases h
      have := hnone.1 hlong
      omega

namespace Direction

theorem after?_limited {b : String} (hb : b ∈ coreTypes) {limit : String × Int}
    (h : limit ∈ lengthLimits) {p : Params} :
    Text.after? limit.1.toList (Text.upper b.toList ++ p.text) =
      if Text.upper b.toList = limit.1.toList then some p.text else none := by
  have hopen : ∀ limit ∈ lengthLimits, '(' ∉ limit.1.toList := by decide
  have hstart : ∀ b ∈ coreTypes, ∀ limit ∈ lengthLimits,
      limit.1.toList.isPrefixOf (Text.upper b.toList) = true →
        Text.upper b.toList = limit.1.toList := by
    rw [coreTypes_eq, Text.toList_eq_ofBytes]
    decide +kernel
  split
  · rename_i heq
    rw [heq]
    exact Text.after?_append _ _
  · rename_i hne
    cases hafter : Text.after? limit.1.toList (Text.upper b.toList ++ p.text) with
    | none => rfl
    | some rest =>
      exfalso
      rcases List.append_eq_append_iff.1 (Text.after?_eq_some hafter) with ⟨a, hlimit, hpa⟩ | ⟨a, hbase, -⟩
      · cases a with
        | nil =>
          rw [List.append_nil] at hlimit
          exact hne hlimit.symm
        | cons c a =>
          rcases p.cases_tokens with rfl | ⟨-, htext⟩
          · cases hpa
          · rw [htext, Column.paramsText] at hpa
            refine hopen limit h ?_
            rw [hlimit, ← (List.cons.inj hpa).1]
            exact List.mem_append_right _ List.mem_cons_self
      · refine hne (hstart b hb limit h ?_)
        rw [List.isPrefixOf_iff_prefix, hbase]
        exact List.prefix_append _ _

theorem digits_params {p : Params} (hp : p.isSound = true) :
    (match (some p.text : Option Text) with
      | some ('(' :: rest) =>
        let digits := rest.takeWhile Text.isDigit
        if !digits.isEmpty && rest.dropWhile Text.isDigit == [')'] then some digits else none
      | _ => none) = p.digits? := by
  have hspan : ∀ {ds : Text} (c : Char) (rest : Text), Params.isDigits ds = true → Text.isDigit c = false →
      (ds ++ c :: rest).takeWhile Text.isDigit = ds ∧ (ds ++ c :: rest).dropWhile Text.isDigit = c :: rest := by
    intro ds c rest hds hc
    have hd := (Params.isDigits_cases hds).2
    have hneg : ¬Text.isDigit c = true := by rw [hc]; exact Bool.false_ne_true
    rw [List.takeWhile_append_of_pos hd, List.dropWhile_append_of_pos hd, List.takeWhile_cons_of_neg hneg,
      List.dropWhile_cons_of_neg hneg, List.append_nil]
    exact ⟨rfl, rfl⟩
  cases p with
  | absent => rfl
  | length ds =>
    obtain ⟨htake, hdrop⟩ := hspan ')' [] hp (by decide)
    rw [show (Params.length ds).text = '(' :: (ds ++ [')']) by
      simp [Params.text, Column.paramsText, Params.inner]]
    show (if !((ds ++ [')']).takeWhile Text.isDigit).isEmpty && (ds ++ [')']).dropWhile Text.isDigit == [')']
      then some ((ds ++ [')']).takeWhile Text.isDigit) else none) = some ds
    rw [htake, hdrop]
    cases ds with
    | nil => exact absurd rfl (Params.isDigits_cases hp).1
    | cons c ds => rfl
  | precision ds es =>
    rw [Params.isSound, Bool.and_eq_true] at hp
    obtain ⟨htake, hdrop⟩ := hspan ',' (es ++ [')']) hp.1 (by decide)
    rw [show (Params.precision ds es).text = '(' :: (ds ++ ',' :: (es ++ [')'])) by
      simp [Params.text, Column.paramsText, Params.inner, Token.mark]]
    show (if !((ds ++ ',' :: (es ++ [')'])).takeWhile Text.isDigit).isEmpty &&
        (ds ++ ',' :: (es ++ [')'])).dropWhile Text.isDigit == [')']
      then some ((ds ++ ',' :: (es ++ [')'])).takeWhile Text.isDigit) else none) = none
    rw [htake, hdrop, show (',' :: (es ++ [')']) == [')']) = false from rfl, Bool.and_false]
    rfl
  | word w =>
    rw [Params.isSound, Bool.or_eq_true, beq_iff_eq, beq_iff_eq] at hp
    rcases hp with rfl | rfl <;> rfl

theorem lengthDigits?_text {f : TypeForm} (hf : f.IsPlain) {limit : String × Int} (h : limit ∈ lengthLimits) :
    lengthDigits? limit.1 f.text =
      if Text.upper f.base.toList = limit.1.toList then f.params.digits? else none := by
  have htext : f.text = Text.upper f.base.toList ++ f.params.text := by
    rw [TypeForm.text, hf.signed]
    simp
  unfold lengthDigits?
  rw [htext, after?_limited hf.sound.base h]
  by_cases heq : Text.upper f.base.toList = limit.1.toList
  · rw [if_pos heq, if_pos heq]
    exact digits_params hf.sound.params
  · rw [if_neg heq, if_neg heq]

/-- The limit that applies to a written type, with the digits of its length. -/
theorem findSome?_limits {f : TypeForm} (hf : f.IsPlain) :
    (lengthLimits.findSome? fun (keyword, limit) =>
      (lengthDigits? keyword f.text).map fun digits => (keyword, limit, digits)) =
    (lengthLimits.find? fun l => decide (Text.upper f.base.toList = l.1.toList)).bind fun l =>
      f.params.digits?.map fun ds => (l.1, l.2, ds) := by
  have hlimits : ∀ limits ⊆ lengthLimits, (limits.findSome? fun (keyword, limit) =>
      (lengthDigits? keyword f.text).map fun digits => (keyword, limit, digits)) =
      (limits.find? fun l => decide (Text.upper f.base.toList = l.1.toList)).bind fun l =>
        f.params.digits?.map fun ds => (l.1, l.2, ds) := by
    intro limits hsub
    induction limits with
    | nil => rfl
    | cons l limits ih =>
      obtain ⟨keyword, limit⟩ := l
      have hrest := ih fun l hl => hsub (List.mem_cons_of_mem (keyword, limit) hl)
      have hdigits := lengthDigits?_text hf (hsub List.mem_cons_self)
      rw [List.findSome?_cons, List.find?_cons, hrest]
      dsimp only at hdigits ⊢
      rw [hdigits]
      by_cases heq : Text.upper f.base.toList = keyword.toList
      · rw [if_pos heq, decide_eq_true heq]
        cases f.params.digits? with
        | some ds => rfl
        | none =>
          cases limits.find? fun l => decide (Text.upper f.base.toList = l.1.toList) <;> rfl
      · rw [if_neg heq, decide_eq_false heq]
        rfl
  exact hlimits lengthLimits fun l hl => hl

theorem limited_base {b : String} (hb : b ∈ coreTypes) :
    (lengthLimits.find? fun l => decide (Text.upper b.toList = l.1.toList)).isSome = true ↔
      b ∈ ["varchar", "nvarchar", "varbinary"] := by
  have hall : ∀ b ∈ coreTypes,
      (lengthLimits.find? fun l => decide (Text.upper b.toList = l.1.toList)).isSome =
        ["varchar", "nvarchar", "varbinary"].contains b := by
    rw [coreTypes_eq, Text.toList_eq_ofBytes]
    decide +kernel
  rw [hall b hb, List.contains_iff_mem]

theorem varying_iff {f : TypeForm} (hb : f.base ∈ coreTypes)
    (hstray : LengthKind.isOverlong f.params.text = true → f.base ∉ TypeForm.strays) :
    f.kind = .varying ↔ LengthKind.isOverlong f.params.text = true ∧
      f.base ∈ ["varchar", "nvarchar", "varbinary"] := by
  have hall : ∀ b ∈ coreTypes, b ∉ TypeForm.strays →
      (LengthKind.ofName ["char", "nchar", "character"] ["varchar", "nvarchar", "character varying"] b =
        .varying ↔ b ∈ ["varchar", "nvarchar", "varbinary"]) := by
    rw [coreTypes_eq]
    decide +kernel
  rw [TypeForm.kind, LengthKind.ofType]
  split
  · rename_i hover
    rw [LengthKind.ofBase_toList, hall f.base hb (hstray hover)]
    exact ⟨fun h => ⟨hover, h⟩, fun h => h.2⟩
  · rename_i hover
    exact ⟨(fun h => by cases h), fun h => absurd h.1 hover⟩

/-- A written type in SQL Server is refused exactly if it is varying with an
overlong length. -/
theorem outcome_limitLength {f : TypeForm} (hf : f.IsPlain)
    (hstray : LengthKind.isOverlong f.params.text = true → f.base ∉ TypeForm.strays) :
    (f.kind = .varying → (limitLength f.text).outcome = .error (.fault .badNumber)) ∧
    (f.kind ≠ .varying → ∃ g : TypeForm, (limitLength f.text).outcome = .ok g.text ∧ g.IsPlain ∧
      g.kind = f.kind) := by
  have hover := Params.isOverlong_iff hf.sound.params
  have hvarying := varying_iff hf.sound.base hstray
  have hlimit := limited_base hf.sound.base
  have hsame : (limitLength f.text).outcome = .ok f.text → ∃ g : TypeForm,
      (limitLength f.text).outcome = .ok g.text ∧ g.IsPlain ∧ g.kind = f.kind := fun h => ⟨f, h, hf, rfl⟩
  unfold limitLength at hsame ⊢
  rw [findSome?_limits hf] at hsame ⊢
  cases hl : lengthLimits.find? fun l => decide (Text.upper f.base.toList = l.1.toList) with
  | none =>
    rw [hl] at hsame hlimit
    exact ⟨fun hkind => absurd (hlimit.2 (hvarying.1 hkind).2) Bool.false_ne_true, fun _ => hsame rfl⟩
  | some l =>
    rw [hl] at hsame hlimit
    have hfound := List.find?_some hl
    have hbase : Text.upper f.base.toList = l.1.toList := of_decide_eq_true hfound
    cases hdigits : f.params.digits? with
    | none =>
      rw [hdigits] at hsame
      refine ⟨fun hkind => ?_, fun _ => hsame rfl⟩
      obtain ⟨ds, hds, -⟩ := hover.1 (hvarying.1 hkind).1
      rw [hdigits] at hds
      cases hds
    | some ds =>
      rw [hdigits] at hsame
      dsimp only [Option.bind_some, Option.map_some] at hsame ⊢
      cases hn : Numeral.toInt? ds with
      | none => exact ⟨fun _ => rfl, fun hkind => absurd (hvarying.2 ⟨hover.2 ⟨ds, hdigits, hn⟩, hlimit.1 rfl⟩) hkind⟩
      | some n =>
        have hshort : LengthKind.isOverlong f.params.text = false := by
          rw [Bool.eq_false_iff, ne_eq, hover]
          rintro ⟨es, hes, hnone⟩
          cases hdigits.symm.trans hes
          rw [hn] at hnone
          cases hnone
        have hfree : f.kind = .free := by rw [TypeForm.kind, LengthKind.ofType, hshort]; rfl
        rw [hn] at hsame
        dsimp only at hsame ⊢
        refine ⟨fun hkind => absurd (hfree.symm.trans hkind) (by decide), fun _ => ?_⟩
        by_cases hlt : l.2 < n
        · rw [if_pos hlt]
          exact ⟨f.unlimited, congrArg Except.ok (f.text_unlimited hbase), hf.unlimited hdigits,
            f.kind_unlimited.trans hfree.symm⟩
        · rw [if_neg hlt] at hsame ⊢
          exact hsame rfl

end Direction

end TableDialects
