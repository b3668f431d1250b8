import Mathlib.Data.List.TakeWhile
import TableDialects.Proofs.Text.Classes
import TableDialects.Proofs.Token.Slice
import TableDialects.Proofs.Written.Type

/- Types with parameters as they are looked up, for `normalType` and
   `TypeParts.split`. The name of a common type with its parameters directly behind
   it is in the form of the look-up already, but for the letter case of MAX
   (`normalType_core`), and is split where it was joined (`split_core`). Of a
   name only its form is used, not that a table knows it (`TypeParts.IsBaseName`). -/
namespace TableDialects

namespace TypeParts

/-- Whether the text is a base name in the form in which it is looked up: it
starts as one, its words have single spaces between them, and none is last. -/
def isBaseName (b : Text) : Bool :=
  b.head?.any startsBase && b.all continuesBase && b.getLast? != some ' ' && Text.collapse b == b

theorem isBaseName_core : ∀ b ∈ coreTypes, isBaseName b.toList = true := by
  rw [coreTypes_eq, Text.toList_eq_ofBytes]
  decide +kernel

/-- A statement about the characters of base names is settled by trying all
ASCII ones. -/
theorem of_continuesBase {p : Char → Prop}
    (h : ∀ n < 128, continuesBase (Char.ofNat n) = true → p (Char.ofNat n)) {c : Char}
    (hc : continuesBase c = true) : p c := by
  have hascii : c.toNat < 128 := by
    unfold continuesBase startsBase at hc
    simp only [Bool.or_eq_true, Bool.and_eq_true, beq_iff_eq, decide_eq_true_eq] at hc
    rcases hc with ((rfl | hc) | rfl) | hc
    · decide
    · omega
    · decide
    · omega
  exact Text.of_ascii (p := fun c => continuesBase c = true → p c) h hascii hc

theorem isBlank_of_continuesBase {c : Char} (hc : continuesBase c = true) (hne : c ≠ ' ') :
    Text.isBlank c = false :=
  of_continuesBase (p := fun c => c ≠ ' ' → Text.isBlank c = false) (by decide +kernel) hc hne

theorem lowerChar_of_continuesBase {c : Char} (hc : continuesBase c = true) :
    Text.lowerChar c = [c] ∧ c ≠ 'Σ' :=
  of_continuesBase (p := fun c => Text.lowerChar c = [c] ∧ c ≠ 'Σ') (by decide +kernel) hc

/-- A base name: its parts and the facts about them. -/
structure IsBaseName (b : Text) : Prop where
  ne_nil : b ≠ []
  starts : ∀ c ∈ b.head?, startsBase c = true
  continues : ∀ c ∈ b, continuesBase c = true
  full : ∀ c ∈ b.getLast?, Text.isBlank c = false
  collapsed : Text.collapse b = b

theorem isBaseName_of_check {b : Text} (h : isBaseName b = true) : IsBaseName b := by
  unfold isBaseName at h
  simp only [Bool.and_eq_true, bne_iff_ne, ne_eq, beq_iff_eq, List.all_eq_true] at h
  obtain ⟨⟨⟨hstart, hcontinues⟩, hlast⟩, hcollapsed⟩ := h
  refine ⟨?_, ?_, hcontinues, ?_, hcollapsed⟩
  · rintro rfl
    cases hstart
  · intro c hc
    rw [hc] at hstart
    exact hstart
  · intro c hc
    refine isBlank_of_continuesBase (hcontinues c (List.mem_of_getLast? hc)) ?_
    rintro rfl
    exact hlast hc

/-- White space before the rest of a base name ends at one of its characters. -/
theorem dropWhile_base {b q : Text} (hne : b ≠ []) (hb : ∀ c ∈ b, continuesBase c = true)
    (hfull : ∀ c ∈ b.getLast?, Text.isBlank c = false) :
    ∃ c s, (b ++ q).dropWhile Text.isBlank = c :: s ∧ continuesBase c = true := by
  induction b with
  | nil => exact absurd rfl hne
  | cons c b ih =>
    cases hc : Text.isBlank c with
    | false =>
      refine ⟨c, b ++ q, ?_, hb c List.mem_cons_self⟩
      rw [List.cons_append, List.dropWhile_cons_of_neg (by simp [hc])]
    | true =>
      cases b with
      | nil =>
        rw [hfull c rfl] at hc
        cases hc
      | cons d b =>
        rw [List.cons_append, List.dropWhile_cons_of_pos hc]
        rw [List.getLast?_cons_cons] at hfull
        exact ih (List.cons_ne_nil d b) (fun e he => hb e (List.mem_cons_of_mem c he)) hfull

theorem isBaseName_of_core {b : String} (h : b ∈ coreTypes) : IsBaseName b.toList :=
  isBaseName_of_check (isBaseName_core b h)

end TypeParts

/-! ## Letter case and white space -/

theorem lower_eq_flatMap {s : Text} (h : ∀ c ∈ s, c ≠ 'Σ') : Text.lower s = s.flatMap Text.lowerChar := by
  have hafter : ∀ before, Text.lowerAfter before s = s.flatMap Text.lowerChar := by
    induction s with
    | nil => exact fun _ => rfl
    | cons c s ih =>
      intro before
      have hc : (c == 'Σ') = false := beq_eq_false_iff_ne.2 (h c List.mem_cons_self)
      rw [Text.lowerAfter, hc, ih (fun d hd => h d (List.mem_cons_of_mem c hd))]
      rfl
  exact hafter []

theorem flatMap_lowerChar_eq_self {s : Text} (h : ∀ c ∈ s, Text.lowerChar c = [c]) :
    s.flatMap Text.lowerChar = s := by
  induction s with
  | nil => rfl
  | cons c s ih =>
    rw [List.flatMap_cons, h c List.mem_cons_self, ih fun d hd => h d (List.mem_cons_of_mem c hd)]
    rfl

theorem collapseFrom_append {s t : Text} (hne : s ≠ []) (h : ∀ c ∈ s.getLast?, Text.isBlank c = false)
    (inRun : Bool) : Text.collapseFrom inRun (s ++ t) = Text.collapseFrom inRun s ++ Text.collapse t := by
  induction s generalizing inRun with
  | nil => exact absurd rfl hne
  | cons c s ih =>
    cases s with
    | nil =>
      have hc := h c rfl
      simp [Text.collapseFrom, Text.collapse, hc]
    | cons d s =>
      have hrest := fun inRun => ih (List.cons_ne_nil d s) (by rw [List.getLast?_cons_cons] at h; exact h) inRun
      rw [List.cons_append, Text.collapseFrom, Text.collapseFrom, hrest, hrest]
      split
      · split <;> rfl
      · rfl

theorem collapse_eq_self {s : Text} (h : ∀ c ∈ s, Text.isBlank c = false) : Text.collapse s = s := by
  have hfrom : ∀ inRun, Text.collapseFrom inRun s = s := by
    induction s with
    | nil => exact fun _ => rfl
    | cons c s ih =>
      intro inRun
      rw [Text.collapseFrom, h c List.mem_cons_self, if_neg Bool.false_ne_true,
        ih fun d hd => h d (List.mem_cons_of_mem c hd)]
  exact hfrom false

/-! ## Parameters -/

namespace Params

/-- The parameters in lower case. -/
def lowered : Params → Params
  | word _ => word "max"
  | p => p

theorem isSound_lowered {p : Params} (h : p.isSound = true) : p.lowered.isSound = true := by
  cases p with
  | word w => rfl
  | _ => exact h

theorem lowered_lowered (p : Params) : p.lowered.lowered = p.lowered := by cases p <;> rfl

theorem mem_text {p : Params} (h : p.isSound = true) {c : Char} (hc : c ∈ p.text) :
    Text.isDigit c = true ∨ c ∈ "(,)".toList ∨ (∃ w, p = word w) ∧ c ∈ "MAXmax".toList := by
  have hdigits : ∀ {ds : Text}, isDigits ds = true → c ∈ ds → Text.isDigit c = true :=
    fun hds hin => (isDigits_cases hds).2 c hin
  have hmark : c = '(' ∨ c = ',' ∨ c = ')' → c ∈ "(,)".toList := by
    rintro (rfl | rfl | rfl) <;> decide
  cases p with
  | absent => cases hc
  | length ds =>
    simp only [text, Column.paramsText, inner, List.flatMap_cons, List.flatMap_nil, List.append_nil,
      List.mem_cons, List.mem_append, List.not_mem_nil, or_false] at hc
    rcases hc with hc | hc | hc
    · exact .inr (.inl (hmark (.inl hc)))
    · exact .inl (hdigits h hc)
    · exact .inr (.inl (hmark (.inr (.inr hc))))
  | precision ds es =>
    rw [isSound, Bool.and_eq_true] at h
    simp only [text, Column.paramsText, inner, Token.mark, List.flatMap_cons, List.flatMap_nil,
      List.append_nil, List.mem_cons, List.mem_append, List.not_mem_nil, or_false] at hc
    rcases hc with hc | (hc | hc | hc) | hc
    · exact .inr (.inl (hmark (.inl hc)))
    · exact .inl (hdigits h.1 hc)
    · exact .inr (.inl (hmark (.inr (.inl hc))))
    · exact .inl (hdigits h.2 hc)
    · exact .inr (.inl (hmark (.inr (.inr hc))))
  | word w =>
    rw [isSound, Bool.or_eq_true, beq_iff_eq, beq_iff_eq] at h
    have hw : ∀ c ∈ w, c ∈ "MAXmax".toList := by rcases h with rfl | rfl <;> decide
    simp only [text, Column.paramsText, inner, List.flatMap_cons, List.flatMap_nil, List.append_nil,
      List.mem_cons, List.mem_append, List.not_mem_nil, or_false] at hc
    rcases hc with hc | hc | hc
    · exact .inr (.inl (hmark (.inl hc)))
    · exact .inr (.inr ⟨⟨w, rfl⟩, hw c hc⟩)
    · exact .inr (.inl (hmark (.inr (.inr hc))))

/-- What holds of digits and of the other characters of parameters. -/
theorem of_mem_text {P : Char → Prop} (hdigit : ∀ c, Text.isDigit c = true → P c)
    (hother : ∀ c ∈ "(,)MAXmax".toList, P c) {p : Params} (h : p.isSound = true) :
    ∀ c ∈ p.text, P c := by
  intro c hc
  rcases mem_text h hc with hd | hd | ⟨-, hd⟩
  · exact hdigit c hd
  · exact hother c (List.mem_append_left "MAXmax".toList hd)
  · exact hother c (List.mem_append_right "(,)".toList hd)

theorem not_isBlank_text {p : Params} (h : p.isSound = true) :
    ∀ c ∈ p.text, Text.isBlank c = false := by
  refine of_mem_text (fun c hd => ?_) (by decide) h
  cases hb : Text.isBlank c with
  | false => rfl
  | true =>
    rw [Text.isDigit_of_isBlank hb] at hd
    cases hd

theorem ne_sigma_text {p : Params} (h : p.isSound = true) : ∀ c ∈ p.text, c ≠ 'Σ' :=
  of_mem_text (fun _ => Text.ne_sigma_of_isDigit) (by decide) h

theorem flatMap_lowerChar_text {p : Params} (h : p.isSound = true) :
    p.text.flatMap Text.lowerChar = p.lowered.text := by
  have hself : (∀ w, p ≠ word w) → p.text.flatMap Text.lowerChar = p.text := by
    intro hw
    refine flatMap_lowerChar_eq_self fun c hc => ?_
    rcases mem_text h hc with hd | hd | ⟨⟨w, hp⟩, -⟩
    · exact Text.lowerChar_of_isDigit hd
    · clear hc
      revert c
      decide
    · exact absurd hp (hw w)
  cases p with
  | word w =>
    rw [isSound, Bool.or_eq_true, beq_iff_eq, beq_iff_eq] at h
    rcases h with rfl | rfl <;> decide
  | _ => exact hself fun w hp => by cases hp

theorem lower_text {p : Params} (h : p.isSound = true) : Text.lower p.text = p.lowered.text := by
  rw [lower_eq_flatMap (ne_sigma_text h), flatMap_lowerChar_text h]

theorem filter_text {p : Params} (h : p.isSound = true) : p.text.filter (· != ' ') = p.text := by
  rw [List.filter_eq_self]
  intro c hc
  rw [bne_iff_ne]
  rintro rfl
  exact absurd (not_isBlank_text h ' ' hc) (by decide)

end Params

theorem eq_concat_of_ne_nil {s : Text} (h : s ≠ []) : ∃ x c, s = x ++ [c] ∧ s.getLast? = some c := by
  refine ⟨s.dropLast, s.getLast h, (List.dropLast_concat_getLast h).symm, List.getLast?_eq_some_getLast h⟩

/-- No white space stands around a base name and full text behind it. -/
theorem TypeParts.IsBaseName.strip_append {b q : Text} (hb : IsBaseName b)
    (hq : ∀ c ∈ q, Text.isBlank c = false) : Text.strip (b ++ q) = b ++ q := by
  refine strip_of_full ?_ ?_
  · intro c hc
    have hc' : c ∈ b.head? := by
      cases b with
      | nil => exact absurd rfl hb.ne_nil
      | cons d b => exact hc
    refine isBlank_of_continuesBase (hb.continues c (List.mem_of_mem_head? hc')) ?_
    rintro rfl
    exact absurd (hb.starts ' ' hc') (by decide)
  · by_cases hne : q = []
    · subst hne
      obtain ⟨x, c, hx, hlast⟩ := eq_concat_of_ne_nil hb.ne_nil
      exact ⟨x, c, by rw [List.append_nil, hx], hb.full c hlast⟩
    · obtain ⟨x, c, hx, -⟩ := eq_concat_of_ne_nil hne
      refine ⟨b ++ x, c, by rw [hx, List.append_assoc], hq c ?_⟩
      rw [hx]
      exact List.mem_append_right x List.mem_cons_self

theorem TypeParts.IsBaseName.strip_self {b : Text} (hb : IsBaseName b) : Text.strip b = b := by
  have h := hb.strip_append (q := []) fun c hc => nomatch hc
  rwa [List.append_nil] at h

theorem TypeParts.IsBaseName.lower_append {b : Text} (hb : IsBaseName b) {p : Params}
    (hp : p.isSound = true) : Text.lower (b ++ p.text) = b ++ p.lowered.text := by
  have hbase : ∀ c ∈ b, Text.lowerChar c = [c] ∧ c ≠ 'Σ' := fun c hc =>
    lowerChar_of_continuesBase (hb.continues c hc)
  rw [lower_eq_flatMap, List.flatMap_append, flatMap_lowerChar_eq_self fun c hc => (hbase c hc).1,
    Params.flatMap_lowerChar_text hp]
  intro c hc
  rcases List.mem_append.1 hc with hc | hc
  · exact (hbase c hc).2
  · exact Params.ne_sigma_text hp c hc

/-- The name of a common type with its parameters, as it is looked up. -/
theorem normalType_core {b : Text} (hb : TypeParts.IsBaseName b) {p : Params} (hp : p.isSound = true) :
    normalType (b ++ p.text) = b ++ p.lowered.text := by
  have hsound := Params.isSound_lowered hp
  have hfull := Params.not_isBlank_text hsound
  have hcollapse : Text.collapse (b ++ p.lowered.text) = b ++ p.lowered.text := by
    rw [Text.collapse, collapseFrom_append hb.ne_nil hb.full, collapse_eq_self hfull]
    exact congrArg (· ++ p.lowered.text) hb.collapsed
  rw [normalType, hb.lower_append hp, hcollapse]
  exact hb.strip_append hfull

/-! ## Splitting -/

namespace TypeParts

theorem params?_closed {m : Text} (h : ∀ c ∈ m, c ≠ '\n') :
    params? ('(' :: (m ++ [')'])) = some ('(' :: (m ++ [')'])) := by
  have hline : ∀ c ∈ m ++ [')'], (c != '\n') = true :=
    List.forall_mem_append.2 ⟨fun c hc => bne_iff_ne.2 (h c hc), by decide⟩
  have hdrop : ('(' :: (m ++ [')'])).dropWhile Text.isBlank = '(' :: (m ++ [')']) :=
    List.dropWhile_cons_of_neg (by decide)
  unfold params?
  rw [hdrop]
  show (if ((m ++ [')']).takeWhile (· != '\n')).getLast? == some ')' &&
      Text.atLastLineEnd ((m ++ [')']).dropWhile (· != '\n')) then some ('(' :: (m ++ [')']).takeWhile (· != '\n'))
    else none) = _
  rw [List.takeWhile_eq_self_iff.2 hline, List.dropWhile_eq_nil_iff.2 hline, List.getLast?_concat]
  rfl

theorem params?_text {p : Params} (hp : p.isSound = true) : params? p.text = some p.text := by
  rcases p.cases_tokens with rfl | ⟨-, htext⟩
  · rfl
  · have hnewline : ∀ c ∈ p.text, c ≠ '\n' :=
      Params.of_mem_text (fun c hd => Text.ne_of_isDigit hd (by decide)) (by decide) hp
    rw [htext, Column.paramsText] at hnewline ⊢
    exact params?_closed fun c hc => hnewline c (List.mem_cons_of_mem _ (List.mem_append_left _ hc))

theorem params?_base {b q : Text} (hne : b ≠ []) (hb : ∀ c ∈ b, continuesBase c = true)
    (hfull : ∀ c ∈ b.getLast?, Text.isBlank c = false) : params? (b ++ q) = none := by
  obtain ⟨c, s, hdrop, hc⟩ := dropWhile_base hne hb hfull (q := q)
  unfold params?
  rw [hdrop]
  split
  · rename_i heq
    cases heq
  · rename_i rest heq
    cases heq
    exact absurd hc (by decide)
  · rfl

theorem closeParams?_concat {s : Text} (h : ∀ c ∈ s, c ≠ ')') :
    closeParams? (s ++ [')']) = some (s ++ [')'], []) := by
  induction s with
  | nil => rfl
  | cons c s ih =>
    have hc : (c == ')') = false := beq_eq_false_iff_ne.2 (h c List.mem_cons_self)
    rw [List.cons_append, closeParams?, hc, ih fun d hd => h d (List.mem_cons_of_mem c hd)]
    rfl

theorem no_close_inner {p : Params} (hp : p.isSound = true) :
    ∀ c ∈ p.inner.flatMap Token.value, c ≠ ')' := by
  have hdigits : ∀ {ds : Text}, Params.isDigits ds = true → ∀ c ∈ ds, c ≠ ')' := fun hds c hc =>
    Text.ne_of_isDigit ((Params.isDigits_cases hds).2 c hc) (by decide)
  cases p with
  | absent => exact fun c hc => nomatch hc
  | length ds =>
    have hinner : ∀ c ∈ ds, c ≠ ')' := hdigits hp
    simpa [Params.inner] using hinner
  | precision ds es =>
    rw [Params.isSound, Bool.and_eq_true] at hp
    intro c hc
    simp only [Params.inner, Token.mark, List.flatMap_cons, List.flatMap_nil, List.append_nil, List.mem_append,
      List.mem_cons, List.not_mem_nil, or_false] at hc
    rcases hc with hc | rfl | hc
    · exact hdigits hp.1 c hc
    · decide
    · exact hdigits hp.2 c hc
  | word w =>
    rw [Params.isSound, Bool.or_eq_true, beq_iff_eq, beq_iff_eq] at hp
    rcases hp with rfl | rfl <;> decide

/-- Parameters at the end of a type are not those of a zoned time. -/
theorem zonedAfter?_core {word b : Text} (hword : '(' ∉ word) (hb : IsBaseName b) {p : Params}
    (hp : p.isSound = true) : zonedAfter? word (b ++ p.text) = none := by
  unfold zonedAfter?
  cases hafter : Text.after? word (b ++ p.text) with
  | none => rfl
  | some rest =>
    -- The word is the start of the base name.
    obtain ⟨a, hba, rfl⟩ : ∃ a, b = word ++ a ∧ rest = a ++ p.text := by
      rcases List.append_eq_append_iff.1 (Text.after?_eq_some hafter) with ⟨a, hwb, hpa⟩ | ⟨a, hbw, hra⟩
      · cases a with
        | nil => exact ⟨[], by rw [hwb]; simp, by simpa using hpa.symm⟩
        | cons c a =>
          rcases p.cases_tokens with rfl | ⟨-, htext⟩
          · cases hpa
          · rw [htext, Column.paramsText] at hpa
            refine absurd ?_ hword
            rw [hwb, ← (List.cons.inj hpa).1]
            exact List.mem_append_right b List.mem_cons_self
      · exact ⟨a, hbw, hra⟩
    dsimp only
    by_cases hne : a = []
    · subst hne
      rw [List.nil_append]
      rcases p.cases_tokens with rfl | ⟨-, htext⟩
      · rfl
      · have hdrop : p.text.dropWhile Text.isBlank = '(' :: (p.inner.flatMap Token.value ++ [')']) := by
          rw [htext]
          exact List.dropWhile_cons_of_neg (by decide)
        rw [hdrop]
        split
        · rename_i heq
          cases heq
          rw [closeParams?_concat (no_close_inner hp)]
          rfl
        · rfl
    · have hcontinues : ∀ c ∈ a, continuesBase c = true := fun c hc =>
        hb.continues c (hba ▸ List.mem_append_right word hc)
      have hfull : ∀ c ∈ a.getLast?, Text.isBlank c = false := by
        intro c hc
        refine hb.full c ?_
        rw [hba, List.getLast?_append, hc]
        rfl
      obtain ⟨c, s, hdrop, hc⟩ := dropWhile_base hne hcontinues hfull (q := p.text)
      rw [hdrop]
      split
      · rename_i heq
        cases heq
        exact absurd hc (by decide)
      · rfl

theorem baseAfter?_name {b r q : Text} (hb : ∀ c ∈ b, continuesBase c = true)
    (hfull : ∀ c ∈ b.getLast?, Text.isBlank c = false) (hq : params? r = some q)
    (before : Text) : baseAfter? before (b ++ r) = some ⟨before.reverse ++ b, q⟩ := by
  induction b generalizing before with
  | nil =>
    rw [List.nil_append, baseAfter?.eq_def, hq]
    simp
  | cons c b ih =>
    have hnone := params?_base (q := r) (List.cons_ne_nil c b) hb hfull
    have hrest : ∀ e ∈ b.getLast?, Text.isBlank e = false := by
      intro e he
      refine hfull e ?_
      cases b with
      | nil => cases he
      | cons d b => rw [List.getLast?_cons_cons]; exact he
    rw [baseAfter?.eq_def, hnone]
    show (if continuesBase c then baseAfter? (c :: before) (b ++ r) else none) = _
    rw [if_pos (hb c List.mem_cons_self), ih (fun e he => hb e (List.mem_cons_of_mem c he)) hrest]
    simp

/-- A base name that is no zoned time is split from the parameters behind it. -/
theorem split_name {b r q : Text} (hb : IsBaseName b) (hzoned : zoned? (b ++ r) = none)
    (hq : params? r = some q) : split (b ++ r) = ⟨b, q.filter (· != ' ')⟩ := by
  have hplain : plain? (b ++ r) = some ⟨b, q⟩ := by
    cases b with
    | nil => exact absurd rfl hb.ne_nil
    | cons c b =>
      have hfull : ∀ e ∈ b.getLast?, Text.isBlank e = false := by
        intro e he
        refine hb.full e ?_
        cases b with
        | nil => cases he
        | cons d b => rw [List.getLast?_cons_cons]; exact he
      show (if startsBase c then baseAfter? [c] (b ++ r) else none) = _
      rw [if_pos (hb.starts c rfl),
        baseAfter?_name (fun e he => hb.continues e (List.mem_cons_of_mem c he)) hfull hq]
      rfl
  unfold split
  rw [hzoned]
  dsimp only
  rw [hplain]
  dsimp only
  rw [hb.strip_self]

theorem split_core {b : Text} (hb : IsBaseName b) {p : Params} (hp : p.isSound = true) :
    split (b ++ p.text) = ⟨b, p.text⟩ := by
  have hzoned : zoned? (b ++ p.text) = none := by
    unfold zoned?
    rw [zonedAfter?_core (by decide) hb hp, zonedAfter?_core (by decide) hb hp]
  rw [split_name hb hzoned (params?_text hp), Params.filter_text hp]

end TypeParts

end TableDialects
