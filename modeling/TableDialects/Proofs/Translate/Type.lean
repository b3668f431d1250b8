import TableDialects.Proofs.Types.Length
import TableDialects.Proofs.Types.Table

/- The types of columns in another dialect, for `columnType?` and `countingType`. A
   column of a common type (`Column.HasType`) gets a written type, under the
   standard settings; only SQL Server refuses one, for an overlong varying length
   (`Direction.columnType?_common`). The column that counts up gets a written type
   that no length makes too long (`Direction.countingType_common`). -/
namespace TableDialects

namespace Column

def lengthKind (c : Column) : LengthKind := LengthKind.ofType c.baseType c.typeParams

structure HasType (c : Column) (b : String) (p : Params) : Prop where
  core : b ∈ coreTypes
  params : p.isSound = true
  base_eq : c.baseType = b.toList
  params_eq : c.typeParams = p.text

variable {c : Column} {b : String} {p : Params}

theorem HasType.hasBase (h : c.HasType b p) (names : List String) : c.hasBase names = names.contains b := by
  have hbeq : ∀ n : String, (n.toList == b.toList) = (b == n) := fun n => by
    rw [Bool.eq_iff_iff, beq_iff_eq, beq_iff_eq, String.toList_inj, eq_comm]
  unfold Column.hasBase
  rw [h.base_eq]
  induction names with
  | nil => rfl
  | cons n names ih =>
    rw [List.any_cons, List.contains_cons, hbeq, ih]

theorem HasType.kind_eq (h : c.HasType b p) : c.lengthKind = LengthKind.ofType b.toList p.text := by
  rw [lengthKind, h.base_eq, h.params_eq]

theorem HasType.kind_free (h : c.HasType b p) (hb : LengthKind.ofBase b.toList = .free) :
    c.lengthKind = .free := by
  rw [h.kind_eq, LengthKind.ofType, hb, ite_self]

end Column

namespace Direction

variable {d : Direction} {c : Column} {b : String} {p : Params}

/-- The type that is looked up for a column that does not count up is a common
type again, of the same kind. -/
theorem lookedUp_common (d : Direction) (h : c.HasType b p) :
    ∃ b' ∈ coreTypes, ∃ p' : Params, p'.isSound = true ∧
      (d.widening? c).getD (plainTypeName c) = b'.toList ++ p'.text ∧ b' ∉ Column.serialTypes ∧
      LengthKind.ofType b'.toList p'.text = c.lengthKind := by
  have hcore : ∀ n ∈ ["smallint", "integer", "bigint", "numeric"], n ∈ coreTypes := by
    rw [coreTypes_eq]
    decide
  have hfree : ∀ n ∈ ["smallint", "integer", "bigint", "numeric"], LengthKind.ofBase n.toList = .free := by
    decide
  have hgive : ∀ n ∈ ["smallint", "integer", "bigint", "numeric"], ∀ p' : Params, p'.isSound = true →
      LengthKind.ofBase b.toList = .free → (d.widening? c).getD (plainTypeName c) = n.toList ++ p'.text →
      ∃ b' ∈ coreTypes, ∃ p' : Params, p'.isSound = true ∧
        (d.widening? c).getD (plainTypeName c) = b'.toList ++ p'.text ∧ b' ∉ Column.serialTypes ∧
        LengthKind.ofType b'.toList p'.text = c.lengthKind := by
    intro n hn p' hp' hb hname
    refine ⟨n, hcore n hn, p', hp', hname, ?_, ?_⟩
    · exact (by decide : ∀ n ∈ ["smallint", "integer", "bigint", "numeric"], n ∉ Column.serialTypes) n hn
    · rw [h.kind_free hb, LengthKind.ofType, hfree n hn, ite_self]
  cases hw : d.widening? c with
  | some w =>
    rw [hw] at hgive
    unfold widening? at hw
    split at hw
    · rw [Option.map_eq_some_iff] at hw
      obtain ⟨s, hs, rfl⟩ := hw
      obtain ⟨e, he, hname, rfl⟩ := tableValue?_eq_some hs
      rw [h.base_eq, String.toList_inj] at hname
      subst hname
      simp only [widenings, List.mem_cons, List.not_mem_nil, or_false] at he
      rcases he with rfl | rfl | rfl | rfl | rfl | rfl
      · exact hgive "smallint" (by decide) .absent rfl (by decide) rfl
      · exact hgive "integer" (by decide) .absent rfl (by decide) rfl
      · exact hgive "integer" (by decide) .absent rfl (by decide) rfl
      · exact hgive "bigint" (by decide) .absent rfl (by decide) rfl
      · exact hgive "bigint" (by decide) .absent rfl (by decide) rfl
      · exact hgive "numeric" (by decide) (.length "20") (by decide) (by decide) rfl
    · cases hw
  | none =>
    rw [hw] at hgive
    by_cases hserial : b ∈ Column.serialTypes
    · simp only [Column.serialTypes, List.mem_cons, List.not_mem_nil, or_false] at hserial
      rcases hserial with rfl | rfl | rfl
      · refine hgive "integer" (by decide) .absent rfl (by decide) ?_
        simp only [Option.getD_none, plainTypeName, h.hasBase]
        rfl
      · refine hgive "bigint" (by decide) .absent rfl (by decide) ?_
        simp only [Option.getD_none, plainTypeName, h.hasBase]
        rfl
      · refine hgive "smallint" (by decide) .absent rfl (by decide) ?_
        simp only [Option.getD_none, plainTypeName, h.hasBase]
        rfl
    · refine ⟨b, h.core, p, h.params, ?_, hserial, h.kind_eq.symm⟩
      have hother : ∀ n ∈ Column.serialTypes, c.hasBase [n] = false := by
        intro n hn
        rw [h.hasBase, List.contains_eq_mem, decide_eq_false_iff_not, List.mem_singleton]
        rintro rfl
        exact hserial hn
      rw [Option.getD_none, plainTypeName, hother "bigserial" (by decide), hother "smallserial" (by decide),
        hother "serial" (by decide), Column.typeName, h.base_eq, h.params_eq]
      rfl

/-- A character type without a length in a dialect that wants one. -/
def lengthened (d : Direction) (type : Text) : Text :=
  if (d.target == .mysql || d.target == .sqlserver)
      && (Text.upper type == "VARCHAR".toList || Text.upper type == "NVARCHAR".toList) then
    type ++ "(255)".toList
  else type

/-- The type that is looked up, with the length that the target wants. -/
theorem outcome_scalarType_of_type (d : Direction) (c : Column) {type : Text}
    (htype : d.type ((d.widening? c).getD (plainTypeName c)) = type) :
    (d.scalarType c).outcome =
      (if d.target = .sqlserver then (limitLength type).outcome
        else .ok (if c.unsigned && d.target == .mysql then type ++ " UNSIGNED".toList else type)).map
          d.lengthened := by
  have htail : ∀ t : Text,
      (if (d.target == .mysql || d.target == .sqlserver)
          && (Text.upper t == "VARCHAR".toList || Text.upper t == "NVARCHAR".toList) then do
        Traced.record .lengthAdded
        return t ++ "(255)".toList
      else return t : Traced Text).outcome = .ok (d.lengthened t) := by
    intro t
    unfold lengthened
    split <;> rfl
  have hmap : ∀ x : Traced Text, (x >>= fun t =>
      if (d.target == .mysql || d.target == .sqlserver)
          && (Text.upper t == "VARCHAR".toList || Text.upper t == "NVARCHAR".toList) then do
        Traced.record .lengthAdded
        return t ++ "(255)".toList
      else return t).outcome = x.outcome.map d.lengthened := by
    intro x
    rw [Traced.outcome_bind]
    simp only [htail]
    cases x.outcome <;> rfl
  unfold scalarType
  dsimp only
  rw [Traced.outcome_bind, Traced.outcome_recordIf, htype]
  show (if (d.target == .sqlserver) = true then _ else _ : Traced Text).outcome = _
  by_cases htarget : d.target = .sqlserver
  · have hmysql : ¬(c.unsigned && d.target == .mysql) = true := by
      rw [htarget, show (Dialect.sqlserver == .mysql) = false from rfl, Bool.and_false]
      exact Bool.false_ne_true
    rw [if_pos htarget, if_pos (by rw [htarget]; rfl), if_neg hmysql, hmap]
  · rw [if_neg htarget, if_neg (by rw [beq_iff_eq]; exact htarget), hmap]
    rfl

theorem outcome_scalarType (d : Direction) (c : Column) {f : TypeForm}
    (hf : d.type ((d.widening? c).getD (plainTypeName c)) = f.text) (hsigned : f.unsigned = false) :
    (d.scalarType c).outcome =
      (if d.target = .sqlserver then (limitLength f.text).outcome
        else .ok (TypeForm.text { f with unsigned := c.unsigned && d.target == .mysql })).map d.lengthened := by
  rw [outcome_scalarType_of_type d c hf]
  congr 2
  simp only [TypeForm.text, hsigned]
  split <;> simp

theorem lengthened_text (d : Direction) {f : TypeForm} (hf : f.IsSound) :
    ∃ g : TypeForm, d.lengthened f.text = g.text ∧ g.IsSound ∧ g.base = f.base ∧ g.kind = f.kind := by
  unfold lengthened
  split
  · rename_i hbare
    have hupper : Text.upper f.text ∈ ["VARCHAR".toList, "NVARCHAR".toList] := by
      rw [Bool.and_eq_true, Bool.or_eq_true, beq_iff_eq, beq_iff_eq] at hbare
      simpa using hbare.2
    have hkept : ∀ c ∈ "( ".toList, c ∉ f.text := by
      intro c hc hin
      have hself : ∀ c ∈ "( ".toList, c ∈ Text.upperChar c ∧ c ∉ "VARCHAR".toList ∧ c ∉ "NVARCHAR".toList := by
        decide
      obtain ⟨hchar, hvar, hnvar⟩ := hself c hc
      have hin : c ∈ Text.upper f.text := List.mem_flatMap.2 ⟨c, hin, hchar⟩
      simp only [List.mem_cons, List.not_mem_nil, or_false] at hupper
      rcases hupper with h | h
      · exact hvar (h ▸ hin)
      · exact hnvar (h ▸ hin)
    have hparams : f.params = .absent := by
      rcases f.params.cases_tokens with h | ⟨-, h⟩
      · exact h
      · refine absurd ?_ (hkept '(' (by decide))
        rw [TypeForm.text, h]
        exact List.mem_append_right _ (List.mem_append_left _ List.mem_cons_self)
    have hunsigned : f.unsigned = false := by
      cases hu : f.unsigned with
      | false => rfl
      | true =>
        refine absurd ?_ (hkept ' ' (by decide))
        rw [TypeForm.text, hu]
        exact List.mem_append_right _ (List.mem_append_right _ List.mem_cons_self)
    have htext : f.text = Text.upper f.base.toList := by
      rw [TypeForm.text, hparams, hunsigned]
      exact List.append_nil _
    refine ⟨⟨f.base, .length "255", false⟩, ?_, ⟨hf.base, (by decide : (Params.length "255").isSound = true),
      fun hb => ?_⟩, rfl, ?_⟩
    · rw [htext]
      rfl
    · rw [htext, hb] at hupper
      exact absurd hupper (by decide)
    · rw [TypeForm.kind, TypeForm.kind, hparams,
        LengthKind.ofType_of_length (p := (Params.length "255").text) (by decide),
        LengthKind.ofType_of_length (p := Params.absent.text) (by decide)]
  · exact ⟨f, rfl, hf, rfl, rfl⟩

/-- A common type that does not count up becomes a written type of the kind that
the target gives it; SQL Server refuses a varying one with an overlong length. -/
theorem scalarType_common (d : Direction) (h : c.HasType b p) :
    (d.target = .sqlserver → c.lengthKind = .varying →
      (d.scalarType c).outcome = .error (.fault .badNumber)) ∧
    (¬(d.target = .sqlserver ∧ c.lengthKind = .varying) → ∃ f : TypeForm,
      (d.scalarType c).outcome = .ok f.text ∧ f.IsSound ∧ f.base ∉ Column.serialTypes ∧
      f.kind = c.lengthKind.carried d.target) := by
  obtain ⟨b', hb', p', hp', hname, hserial, hkind⟩ := lookedUp_common d h
  obtain ⟨f, htext, hf⟩ := translateType_core d.source d.target hb' (.inr hserial) hp'
  rw [hkind] at hf
  rw [outcome_scalarType d c (hname ▸ htext) hf.signed]
  by_cases htarget : d.target = .sqlserver
  · have hcarried : c.lengthKind.carried d.target = c.lengthKind := by
      rw [htarget]
      rfl
    obtain ⟨hrefused, htaken⟩ := outcome_limitLength hf.toIsPlain fun hover hstray =>
      hf.stray hover hstray htarget
    rw [if_pos htarget]
    refine ⟨fun _ hvarying => ?_, fun hother => ?_⟩
    · rw [hrefused (by rw [hf.kind, hcarried, hvarying])]
      rfl
    · obtain ⟨g, hg, hplain, hgkind⟩ := htaken fun hvarying => hother ⟨htarget, by
        rw [← hvarying, hf.kind, hcarried]⟩
      obtain ⟨g', hlength, hsound, hbase, hkind'⟩ := lengthened_text d hplain.sound
      refine ⟨g', ?_, hsound, hbase ▸ hplain.still, by rw [hkind', hgkind, hf.kind]⟩
      rw [hg, ← hlength]
      rfl
  · rw [if_neg htarget]
    refine ⟨fun heq => absurd heq htarget, fun _ => ?_⟩
    obtain ⟨g, hlength, hsound, hbase, hgkind⟩ := lengthened_text d
      (f := { f with unsigned := c.unsigned && d.target == .mysql })
      ⟨hf.sound.base, hf.sound.params, hf.sound.boolean⟩
    refine ⟨g, ?_, hsound, hbase ▸ hf.still, hgkind.trans hf.kind⟩
    rw [← hlength]
    rfl

theorem columnType?_common (hset : d.settings = .standard) (h : c.HasType b p) (harray : c.isArray = false) :
    (d.target = .sqlserver → c.lengthKind = .varying →
      (d.columnType? c).outcome = .error (.fault .badNumber)) ∧
    (¬(d.target = .sqlserver ∧ c.lengthKind = .varying) → ∃ f : TypeForm,
      (d.columnType? c).outcome = .ok (some f.text) ∧ f.IsSound ∧ f.base ∉ Column.serialTypes ∧
      f.kind = c.lengthKind.carried d.target) := by
  have hne : c.baseType.isEmpty = false := by
    rw [h.base_eq, List.isEmpty_eq_false_iff]
    exact (TypeParts.isBaseName_of_core h.core).ne_nil
  unfold columnType?
  rw [hne, harray]
  show (_ → _ → (if c.hasBase ["enum", "set"] = true then _ else _ : Traced _).outcome = _) ∧
    (_ → ∃ f : TypeForm, (if c.hasBase ["enum", "set"] = true then _ else _ : Traced _).outcome = _ ∧ _)
  by_cases henum : c.hasBase ["enum", "set"] = true
  · have hfree : c.lengthKind = .free := by
      refine h.kind_free ?_
      rw [h.hasBase, List.contains_iff_mem] at henum
      exact (by decide : ∀ n ∈ ["enum", "set"], LengthKind.ofBase n.toList = .free) b henum
    have htext : ∀ k ∈ ["TEXT", "NVARCHAR(255)"], k ∈ typeKeywords := by decide
    have hform : ∀ k ∈ ["TEXT", "NVARCHAR(255)"], ∃ f : TypeForm, k.toList = f.text ∧ f.IsSound ∧
        f.base ∉ Column.serialTypes ∧ f.kind = c.lengthKind.carried d.target := by
      intro k hk
      obtain ⟨htext, hplain, hlength⟩ := ofKeyword_sound (htext k hk)
      refine ⟨_, htext.symm, hplain.sound, hplain.still, ?_⟩
      rw [TypeForm.kind, LengthKind.ofType_of_length hlength, hfree]
      cases d.target <;> rfl
    rw [if_pos henum, hfree]
    refine ⟨(fun _ hvarying => by cases hvarying), fun _ => ?_⟩
    have henumType : Settings.standard.sqlserverEnumType = .text "NVARCHAR(255)" := rfl
    rw [hset, henumType, hfree] at *
    cases htarget : d.target with
    | sqlserver =>
      obtain ⟨f, hf, hall⟩ := hform "NVARCHAR(255)" (by decide)
      exact ⟨f, congrArg (fun t => Except.ok (some t)) hf, htarget ▸ hall⟩
    | _ =>
      obtain ⟨f, hf, hall⟩ := hform "TEXT" (by decide)
      exact ⟨f, congrArg (fun t => Except.ok (some t)) hf, htarget ▸ hall⟩
  · rw [if_neg henum]
    obtain ⟨hrefused, htaken⟩ := scalarType_common d h
    refine ⟨fun htarget hvarying => ?_, fun hother => ?_⟩
    · rw [Traced.outcome_bind, hrefused htarget hvarying]
      rfl
    · obtain ⟨f, hf, hsound, hstill, hkind⟩ := htaken hother
      refine ⟨f, ?_, hsound, hstill, hkind⟩
      rw [Traced.outcome_bind, hf]
      rfl

/-- A written type whose keyword is an integer type has no length of characters. -/
theorem kind_of_integer {f : TypeForm} (hf : f.IsSound)
    (h : (mysqlIntegers.any fun t => t.toList == (Text.upper f.text).takeWhile (· != '(')) = true) :
    f.kind = .free := by
  refine Decidable.byContradiction fun hne => ?_
  rw [TypeForm.kind, LengthKind.ofType] at hne
  split at hne
  · rename_i hover
    have hcharacter : ∀ b ∈ characterTypes,
        (∀ c ∈ Text.upper (Text.upper b.toList), (c != '(') = true) ∧
        (mysqlIntegers.any fun t => t.toList == Text.upper (Text.upper b.toList)) = false := by
      decide +kernel
    obtain ⟨hopen, hnone⟩ := hcharacter f.base (mem_characterTypes hne)
    obtain ⟨ds, hdigits, -⟩ := (Params.isOverlong_iff hf.params).1 hover
    have hds := Params.eq_length hdigits
    have hkeyword : (Text.upper f.text).takeWhile (· != '(') = Text.upper (Text.upper f.base.toList) := by
      rw [TypeForm.text, hds]
      unfold Text.upper at hopen ⊢
      rw [List.flatMap_append, List.takeWhile_append_of_pos hopen]
      show _ ++ List.takeWhile (· != '(') ('(' :: _) = _
      rw [List.takeWhile_cons_of_neg (by decide), List.append_nil]
    rw [hkeyword, hnone] at h
    cases h
  · exact hne rfl

def countingTypes : List String := ["smallserial", "bigserial", "serial", "integer", "bigint", "int"]

theorem isSound_countingType {n : String} (h : n ∈ countingTypes) : (⟨n, .absent, false⟩ : TypeForm).IsSound := by
  have hcore : ∀ n ∈ countingTypes, n ∈ coreTypes := by
    rw [coreTypes_eq]
    decide
  exact ⟨hcore n h, rfl, fun _ => rfl⟩

theorem kind_countingType (n : String) : (⟨n, .absent, false⟩ : TypeForm).kind = .free :=
  LengthKind.ofType_of_length (p := Params.absent.text) (by decide) _

/-- The integer types of MySQL keep their parameters; any other becomes one of two. -/
theorem mysqlInteger_common (htarget : d.target = .mysql) (h : c.HasType b p) :
    ∃ f : TypeForm, (if mysqlIntegers.any fun t => t.toList ==
        (Text.upper (d.type c.typeName)).takeWhile (· != '(') then d.type c.typeName
      else if c.isLarge then "BIGINT".toList else "INT".toList) = f.text ∧ f.IsSound ∧
        f.unsigned = false ∧ f.kind = .free := by
  have hname : c.typeName = b.toList ++ p.text := by rw [Column.typeName, h.base_eq, h.params_eq]
  obtain ⟨f, htext, hf⟩ := translateType_core d.source .mysql h.core (.inl rfl) h.params
  rw [hname, type, htarget, htext]
  split
  · rename_i hinteger
    exact ⟨f, rfl, hf.sound, hf.signed, kind_of_integer hf.sound hinteger⟩
  · split
    · exact ⟨⟨"bigint", .absent, false⟩, rfl, isSound_countingType (by decide), rfl, kind_countingType _⟩
    · exact ⟨⟨"int", .absent, false⟩, rfl, isSound_countingType (by decide), rfl, kind_countingType _⟩

theorem countingType_common (d : Direction) (h : c.HasType b p) :
    ∃ f : TypeForm, (d.countingType c).outcome = .ok f.text ∧ f.IsSound ∧ f.kind = .free ∧
      (d.target = .postgresql → f.base ∈ Column.serialTypes) := by
  have hgive : ∀ n ∈ countingTypes, (d.countingType c).outcome = .ok (TypeForm.text ⟨n, .absent, false⟩) →
      (d.target = .postgresql → n ∈ Column.serialTypes) →
      ∃ f : TypeForm, (d.countingType c).outcome = .ok f.text ∧ f.IsSound ∧ f.kind = .free ∧
        (d.target = .postgresql → f.base ∈ Column.serialTypes) :=
    fun n hn htext hserial => ⟨_, htext, isSound_countingType hn, kind_countingType n, hserial⟩
  unfold countingType at hgive ⊢
  cases htarget : d.target with
  | postgresql =>
    rw [htarget] at hgive
    by_cases hsmall : c.hasBase ["smallserial"] = true
    · rw [hsmall] at hgive ⊢
      exact hgive "smallserial" (by decide) rfl fun _ => by decide
    rw [Bool.eq_false_iff.2 hsmall] at hgive ⊢
    cases hlarge : c.isLarge with
    | true =>
      rw [hlarge] at hgive
      exact hgive "bigserial" (by decide) rfl fun _ => by decide
    | false =>
      rw [hlarge] at hgive
      exact hgive "serial" (by decide) rfl fun _ => by decide
  | sqlite =>
    rw [htarget] at hgive
    exact hgive "integer" (by decide) rfl fun h => nomatch h
  | sqlserver =>
    rw [htarget] at hgive
    cases hlarge : c.isLarge with
    | true =>
      rw [hlarge] at hgive
      exact hgive "bigint" (by decide) rfl fun h => nomatch h
    | false =>
      rw [hlarge] at hgive
      exact hgive "int" (by decide) rfl fun h => nomatch h
  | mysql =>
    obtain ⟨g, hg, hgsound, hsigned, hfree⟩ := mysqlInteger_common htarget h
    refine ⟨{ g with unsigned := c.unsigned }, ?_, ⟨hgsound.base, hgsound.params, hgsound.boolean⟩, hfree,
      fun h => nomatch h⟩
    show Except.ok (if c.unsigned then _ ++ " UNSIGNED".toList else _) = _
    rw [hg]
    simp only [TypeForm.text, hsigned]
    split <;> simp

end Direction

end TableDialects
