import TableDialects.Proofs.Types.Spelling
import TableDialects.Proofs.Types.Table

/- Types that carry their parameters. Parameters in parentheses behind a name that is
   no small integer are in no table, so that the table of the target dialect gives the
   keyword of the name, and the keyword takes over the parameters if it can
   (`translateType_closed`). The name may be spelled in any letter case, and white space
   before the parameters and in them is dropped. -/
namespace TableDialects

/-! ## Parameters -/

/-- Parameters in parentheses as they are looked up: in lower case, without white
space. -/
structure IsClosed (p : Text) : Prop where
  closed : ∃ m, p = '(' :: (m ++ [')'])
  settled : ∀ c ∈ p, Text.Settled c
  full : ∀ c ∈ p, Text.isBlank c = false

namespace IsClosed
variable {p : Text}

theorem ne_nil (h : IsClosed p) : p ≠ [] := by
  obtain ⟨m, rfl⟩ := h.closed
  exact List.cons_ne_nil _ _

theorem filter_eq_self (h : IsClosed p) : p.filter (· != ' ') = p := by
  rw [List.filter_eq_self]
  intro c hc
  rw [bne_iff_ne]
  rintro rfl
  exact absurd (h.full ' ' hc) (by decide)

theorem params? (h : IsClosed p) : TypeParts.params? p = some p := by
  have hfull := h.full
  obtain ⟨m, rfl⟩ := h.closed
  refine TypeParts.params?_closed fun c hc => ?_
  rintro rfl
  exact absurd (hfull '\n' (by simp [hc])) (by decide)

end IsClosed

/-- Parameters in the form of the look-up are closed without their spaces. -/
theorem IsNormalParams.isClosed {q : Text} (hq : IsNormalParams q) (hne : q ≠ []) :
    IsClosed (q.filter (· != ' ')) where
  closed := by
    obtain ⟨m, rfl⟩ := hq.closed.resolve_left hne
    exact ⟨m.filter (· != ' '), by simp⟩
  settled c hc := hq.settled c (List.mem_filter.1 hc).1
  full c hc := by
    obtain ⟨hin, hspace⟩ := List.mem_filter.1 hc
    cases hblank : Text.isBlank c with
    | false => rfl
    | true =>
      rw [hq.spaces c hin hblank] at hspace
      cases hspace

/-! ## Looking up a name with parameters -/

theorem zoned?_of_head {c : Char} (hc : c ≠ 't') (s : Text) : TypeParts.zoned? (c :: s) = none := by
  have hafter : ∀ word : Text, Text.after? ('t' :: word) (c :: s) = none := fun word =>
    if_neg fun h => hc h.symm
  unfold TypeParts.zoned? TypeParts.zonedAfter?
  rw [show ("timestamp" : Text) = 't' :: "imestamp".toList from rfl, hafter,
    show ("time" : Text) = 't' :: "ime".toList from rfl, hafter]

theorem paren_not_mem_base {b : Text} (hb : ∀ c ∈ b, TypeParts.continuesBase c = true) : '(' ∉ b :=
  fun hin => absurd (hb _ hin) (by decide)

/-- The small integer of one digit is the only name with parameters that a table
lists. -/
theorem entry_paren : ∀ target ∈ Dialect.all, ∀ e ∈ target.profile.types,
    '(' ∈ e.1.toList → e.1 = "tinyint(1)" := by
  rw [Text.toList_eq_ofBytes]
  decide +kernel

/-- The name and the parameters are not those of the small integer of one digit. -/
def IsUnlisted (b p : Text) : Prop := b = "tinyint".toList → p ≠ "(1)".toList

section Lookup
variable {target : Dialect} {b p : Text} {keyword : String}

theorem tableValue?_closed (hb : TypeParts.IsBaseName b) (hp : IsClosed p) (hother : IsUnlisted b p) :
    tableValue? target.profile.types (b ++ p) = none := by
  refine Option.eq_none_iff_forall_ne_some.2 fun v hv => ?_
  obtain ⟨e, he, hname, -⟩ := tableValue?_eq_some hv
  obtain ⟨m, rfl⟩ := hp.closed
  -- An entry for the name with parameters has a parenthesis in it.
  have hlisted := entry_paren target (by cases target <;> decide) e he (by rw [hname]; simp)
  rw [hlisted, show "tinyint(1)".toList = "tinyint".toList ++ '(' :: "1)".toList from rfl] at hname
  obtain ⟨rfl, hone⟩ := TypeParts.append_cons_inj (by decide) (paren_not_mem_base hb.continues) hname
  exact hother rfl (congrArg ('(' :: ·) hone.symm)

theorem lower_base (hb : TypeParts.IsBaseName b) : Text.lower b = b := Text.lower_of_settled hb.isNormalName.settled

theorem lookupType_closed (hb : TypeParts.IsBaseName b) (hp : IsClosed p) (hother : IsUnlisted b p) :
    lookupType target.profile.types b p = tableValue? target.profile.types b := by
  unfold lookupType
  rw [lower_base hb, hb.strip_self, hp.filter_eq_self, Text.lower_of_settled hp.settled]
  dsimp only
  rw [tableValue?_closed hb hp hother, ite_self]

theorem lookupType_joined_closed (hb : TypeParts.IsBaseName b) (hp : IsClosed p) (hother : IsUnlisted b p) :
    lookupType target.profile.types (b ++ p) [] = none := by
  have hsettled := List.forall_mem_append.2 ⟨hb.isNormalName.settled, hp.settled⟩
  unfold lookupType
  rw [Text.lower_of_settled hsettled, hb.strip_append hp.full]
  exact tableValue?_closed hb hp hother

/-- The table of the target gives the keyword of the name with the parameters that it
takes over. -/
theorem tableType?_closed (hb : TypeParts.IsBaseName b) (hp : IsClosed p) (hother : IsUnlisted b p)
    (hkeyword : tableValue? target.profile.types b = some keyword) :
    tableType? target ⟨b, p⟩ = some (withParams keyword.toList p) := by
  unfold tableType?
  dsimp only
  rw [lookupType_closed hb hp hother, hkeyword, lookupType_joined_closed hb hp hother]
  rfl

variable {source : Option Dialect} {t : Text}

/-- A type that no rule of the source is about is that of the table. -/
theorem translateType_of_table {parts : TypeParts} {keyword : Text}
    (hsplit : TypeParts.split (normalType t) = parts)
    (hrule : ∀ s ∈ source, sourceRule? s target parts (normalType t) = none)
    (htable : tableType? target parts = some keyword) : translateType source target t = keyword := by
  have hnone : (source.bind fun s => sourceRule? s target parts (normalType t)) = none := by
    cases source with
    | none => rfl
    | some s => exact hrule s rfl
  unfold translateType
  dsimp only
  rw [hsplit, hnone]
  dsimp only
  rw [htable]

/-- A type with parameters that no rule of the source is about becomes the keyword of
its name with the parameters that the keyword takes over. -/
theorem translateType_closed (hb : TypeParts.IsBaseName b) (hp : IsClosed p) (hother : IsUnlisted b p)
    (hsplit : TypeParts.split (normalType t) = ⟨b, p⟩)
    (hrule : ∀ s ∈ source, sourceRule? s target ⟨b, p⟩ (normalType t) = none)
    (hkeyword : tableValue? target.profile.types b = some keyword) :
    translateType source target t = withParams keyword.toList p :=
  translateType_of_table hsplit hrule (tableType?_closed hb hp hother hkeyword)

end Lookup

/-! ## Keywords that take over parameters -/

theorem withParams_all {keyword p : Text} (hp : p ≠ []) (h : takesAll keyword = true) :
    withParams keyword p = keyword ++ p := by
  unfold takesAll at h
  rw [Bool.and_eq_true, Bool.not_eq_true'] at h
  unfold withParams
  rw [if_neg (by simpa using hp), if_neg (by rw [h.1]; exact Bool.false_ne_true), if_pos h.2]

theorem withParams_numbers {keyword p : Text} (hopen : keyword.contains '(' = false)
    (h : takesNumbers keyword = true) (hp : isPrecision p = true) : withParams keyword p = keyword ++ p := by
  have hne : p.isEmpty = false := by
    cases p with
    | nil => cases hp
    | cons c p => rfl
  rw [takesNumbers, hopen, if_neg Bool.false_ne_true] at h
  unfold withParams
  rw [hne, hopen, if_neg Bool.false_ne_true, if_neg Bool.false_ne_true, h, hp]
  exact ite_self _

theorem takesAll_character : ∀ target ∈ Dialect.all, ∀ e ∈ target.profile.types,
    e.1 ∈ characterTypes → takesAll e.2.toList = true := by decide +kernel

theorem isBaseName_character : ∀ b ∈ characterTypes, TypeParts.isBaseName b.toList = true := by decide +kernel

theorem mem_core_character : ∀ b ∈ characterTypes, b ∈ coreTypes := by
  rw [coreTypes_eq]
  decide

/-- A character type becomes the keyword of its name with its parameters. -/
theorem translateType_character {source : Option Dialect} (target : Dialect) {t p : Text} {b : String}
    (hb : b ∈ characterTypes) (hp : IsClosed p) (hsplit : TypeParts.split (normalType t) = ⟨b.toList, p⟩)
    (hmax : source = some .sqlserver → p ≠ "(max)".toList) :
    ∃ keyword, tableValue? target.profile.types b.toList = some keyword ∧
      translateType source target t = keyword.toList ++ p := by
  obtain ⟨keyword, hkeyword⟩ := tableValue?_of_mem (coreTypes_known (mem_core_character b hb) target)
  obtain ⟨e, he, hname, hvalue⟩ := tableValue?_eq_some hkeyword
  have htakes : takesAll keyword.toList = true :=
    hvalue ▸ takesAll_character target (by cases target <;> decide) e he (String.toList_inj.1 hname ▸ hb)
  have hother : IsUnlisted b.toList p := by
    intro heq
    have hnot : ∀ b ∈ characterTypes, b.toList ≠ "tinyint".toList := by decide
    exact absurd heq (hnot b hb)
  have hrule : ∀ s ∈ source, sourceRule? s target ⟨b.toList, p⟩ (normalType t) = none := by
    rintro s hs
    refine sourceRule?_character target hb ?_ _
    rintro rfl
    exact hmax hs
  refine ⟨keyword, hkeyword, ?_⟩
  rw [translateType_closed (TypeParts.isBaseName_of_check (isBaseName_character b hb)) hp hother hsplit hrule hkeyword,
    withParams_all hp.ne_nil htakes]

end TableDialects
