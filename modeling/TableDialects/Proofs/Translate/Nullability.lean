import TableDialects.Proofs.Text.LetterCase
import TableDialects.Proofs.Translate.Key

/- Where a column is declared NULL. Of a column that does not count up the statement
   decides: it says NULL, and the key is not inline there, or it says nothing and its
   default is NULL (`Direction.NullDefault`). The column that counts up never does,
   and an inline key that the statement declares NULL says NOT NULL instead. Neither
   holds for the columns of a key in a clause of its own, nor for a default of NULL,
   nor for the text that is passed on, so that columns of the key may be declared NULL:
   the theorem says which (`clauses_null_iff`). -/
namespace TableDialects

/-! ## A default of NULL -/

theorem Text.afterWord?_length {w s r : Text} (h : Text.afterWord? w s = some r) :
    s.length = w.length + r.length := by
  fun_induction Text.afterWord? w s <;> simp_all
  omega

/-- Every call that gives the current time has five characters or more. -/
theorem Expression.isTimeCall_of_length {s : Text} (h : s.length < 5) : isTimeCall s = false := by
  have hlong : ∀ w ∈ timeCalls, 5 ≤ w.toList.length := by decide +kernel
  have hnone : ∀ w ∈ timeCalls, Text.afterWord? w.toList s = none := by
    intro w hw
    refine Option.eq_none_iff_forall_ne_some.2 fun r hr => ?_
    have hlength := Text.afterWord?_length hr
    have hword := hlong w hw
    omega
  have hcurrent : Text.afterWord? "CURRENT_TIMESTAMP".toList s = none := hnone _ (by decide)
  unfold isTimeCall
  rw [hcurrent, Option.any_none, Bool.or_false, List.any_eq_false]
  intro w hw
  rw [hnone w hw]
  exact Bool.false_ne_true

theorem Expression.unwrap_nil : unwrap [] = [] := by
  rw [unwrap_eq]
  rfl

namespace Direction
variable {d : Direction}

/-- The default of the column is NULL in any letter case: it draws from no sequence and
names no truth value, and is spelled so without redundant parentheses and the casts that
the target does not have. -/
def NullDefault (d : Direction) (c : Column) : Prop :=
  c.drawsNext = false ∧ ∃ ts, c.default = some ts ∧ booleanDefault? c (Expression.unwrap ts) = none ∧
    Text.upper (d.spell (Expression.unwrap ts)) = "NULL".toList

/-- How the tokens of a default are written: as a truth value, as the common name of the
current time, or as the target spells them. -/
inductive WritesDefault (d : Direction) (c : Column) (ts : List Token) : Text → Prop
  | truth {b : Bool} (h : booleanDefault? c (Expression.unwrap ts) = some b) :
    WritesDefault d c ts (d.target.boolean b)
  | time (h : booleanDefault? c (Expression.unwrap ts) = none)
    (htime : Expression.isTimeCall (Text.squeeze (d.spell (Expression.unwrap ts))) = true) :
    WritesDefault d c ts "CURRENT_TIMESTAMP".toList
  | spelled (h : booleanDefault? c (Expression.unwrap ts) = none) :
    WritesDefault d c ts (d.spell (Expression.unwrap ts))

theorem default?_cases {c : Column} {default : Option Text} (h : (d.default? c).outcome = .ok default) :
    default = none ∧ (∀ ts, c.default = some ts → ts = []) ∨
      ∃ ts text, c.default = some ts ∧ default = some text ∧ d.WritesDefault c ts text := by
  unfold default? at h
  split at h
  · rename_i hdefault
    cases h
    exact .inl ⟨rfl, fun ts hts => by cases hdefault.symm.trans hts⟩
  · rename_i hdefault
    cases h
    exact .inl ⟨rfl, fun ts hts => Option.some.inj (hts.symm.trans hdefault)⟩
  · rename_i ts _ hdefault
    obtain ⟨-, -, h⟩ := Traced.outcome_bind_ok h
    refine .inr ⟨ts, ?_⟩
    split at h
    · rename_i b hb
      obtain ⟨-, -, h⟩ := Traced.outcome_bind_ok h
      cases h
      exact ⟨_, hdefault, rfl, .truth hb⟩
    · rename_i hb
      obtain ⟨text, htext, h⟩ := Traced.outcome_bind_ok h
      cases (outcome_render _).symm.trans htext
      split at h
      · rename_i htime
        obtain ⟨-, -, h⟩ := Traced.outcome_bind_ok h
        cases h
        exact ⟨_, hdefault, rfl, .time hb (Bool.and_eq_true_iff.1 htime).1⟩
      · cases h
        exact ⟨_, hdefault, rfl, .spelled hb⟩

/-- What is written for a default is NULL only where it is spelled so. -/
theorem WritesDefault.null_iff {c : Column} {ts : List Token} {text : Text} (h : d.WritesDefault c ts text) :
    Text.upper text = "NULL".toList ↔ booleanDefault? c (Expression.unwrap ts) = none ∧
      Text.upper (d.spell (Expression.unwrap ts)) = "NULL".toList := by
  cases h with
  | @truth b hb =>
    have hliteral : Text.upper (d.target.boolean b) ≠ "NULL".toList := by
      cases d.target <;> cases b <;> decide +kernel
    exact iff_of_false hliteral fun hnull => by cases hb.symm.trans hnull.1
  | time hb htime =>
    refine iff_of_false (by decide +kernel) fun hnull => ?_
    -- Nothing that is NULL in upper case is long enough to call for the time.
    have hlength := Text.length_le_upper (d.spell (Expression.unwrap ts))
    have hsqueeze : (Text.squeeze (d.spell (Expression.unwrap ts))).length ≤ _ := List.length_filter_le _ _
    rw [hnull.2] at hlength
    rw [Expression.isTimeCall_of_length (by simp at hlength; omega)] at htime
    cases htime
  | spelled hb => rw [hb, eq_self, true_and]

/-- The default of NULL that is written is that of the statement. -/
theorem nullDefault_iff {c : Column} {default : Option Text} (h : (d.writtenDefault? false c).outcome = .ok default) :
    (∃ text, default = some text ∧ Text.upper text = "NULL".toList) ↔ d.NullDefault c := by
  unfold writtenDefault? at h
  cases hdraws : c.drawsNext with
  | true =>
    rw [hdraws, Bool.or_true, if_pos rfl] at h
    cases h
    simp [NullDefault, hdraws]
  | false =>
    rw [hdraws, Bool.or_false, if_neg Bool.false_ne_true] at h
    rcases default?_cases h with ⟨rfl, hempty⟩ | ⟨ts, text, hts, rfl, hwrites⟩
    · refine iff_of_false (by simp) ?_
      rintro ⟨-, ts, hts, -, hspelled⟩
      rw [hempty ts hts, Expression.unwrap_nil, spell_nil] at hspelled
      cases hspelled
    · simp only [NullDefault, hdraws, hts, Option.some.injEq, true_and, exists_eq_left', hwrites.null_iff]

/-! ## Columns declared NULL -/

/-- Between its type and its key a column says NULL if it is declared so and is no
inline key, or says nothing itself and has NULL as its default. -/
theorem declares_nullability {c : Column} {inlineKey : Bool} {default : Option Text} {nulls : List ColumnPart}
    (h : (nullability c inlineKey default).outcome = .ok nulls) :
    PartDeclares .null nulls ↔ c.notNull = some false ∧ inlineKey = false ∨
      c.notNull = none ∧ ∃ text, default = some text ∧ Text.upper text = "NULL".toList := by
  have hdefault : default.any (fun s => Text.upper s == "NULL".toList) = true ↔
      ∃ text, default = some text ∧ Text.upper text = "NULL".toList := by
    cases default <;> simp
  have hfixed := fun p hp => (ColumnPart.declares_fixed p hp).2.1
  have hnull : PartDeclares .null [.null] := partDeclares_singleton.2 (hfixed _ (by simp))
  have hnotNull : ¬ PartDeclares .null [.notNull] := by
    rw [partDeclares_singleton, hfixed _ (by simp)]
    decide
  unfold nullability at h
  rw [← hdefault]
  cases hdeclared : c.notNull with
  | none =>
    rw [hdeclared] at h
    cases hany : default.any fun s => Text.upper s == "NULL".toList with
    | true =>
      rw [hany] at h
      cases inlineKey <;> cases h <;> simp [hnull]
    | false =>
      rw [hany] at h
      cases inlineKey <;> cases h <;> simp [not_partDeclares_nil]
  | some b =>
    rw [hdeclared] at h
    cases b <;> cases inlineKey <;> cases h <;> simp [hnull, hnotNull]

/-- A column that does not count up is declared NULL if the statement says so and the
key is not inline there, or if it says nothing and its default is NULL; and any column
is if the text that is passed on says so. -/
theorem null_column {key : PrimaryKey} {counts : Bool} {c : Column} {parts : List ColumnPart}
    (h : (d.column key counts c).outcome = .ok parts) :
    Declares .null parts ↔ counts = false ∧ (c.notNull = some false ∧ key.isInline c.name = false ∨
      c.notNull = none ∧ d.NullDefault c) ∨ d.Passes .null counts c := by
  obtain ⟨default, front, back, hdefault, hwords, hparts⟩ := partDeclares_column h .null
  have hfixed := fun p hp => (ColumnPart.declares_fixed p hp).2.1
  rw [Declares, hparts, hfixed .unique (by simp), Passes]
  simp only [show (ColumnPart.unique == .null) = false from rfl, Bool.false_eq_true, and_false, false_or,
    reduceCtorEq, false_and, or_false]
  refine or_congr_left ?_
  cases hwords with
  | counting => simp [(declares_countingParts c (key.isInline c.name)).2.1]
  | plain hnulls =>
    rw [partDeclares_append, declares_nullability hnulls, nullDefault_iff hdefault, partDeclares_ite,
      hfixed .primaryKey (by simp)]
    simp

end Direction

/-- A column clause of a rendered statement is declared NULL exactly if it does not count
up and the statement declares the column NULL and the key is not inline there, or the
statement says nothing and the default is NULL; or if the text that is passed on says so.
So the key is free of NULL exactly if no column of a key in a clause of its own is
declared NULL, no column of the key is left with a default of NULL alone, and the text
of none says NULL. -/
theorem clauses_null_iff (d : Direction) (s : Statement) (cs : List RenderedClause)
    (h : (d.clauses s).outcome = .ok cs) :
    ∃ counting key, (PrimaryKey.ofStatement s >>= d.placeCounting s).outcome = .ok (counting, key) ∧
      (∀ (i : Nat) c parts, cs[i]? = some (.column c parts) → s.columns[i]? = some c ∧
        (Declares .null parts ↔ counting ≠ some i ∧ (c.notNull = some false ∧ key.isInline c.name = false ∨
          c.notNull = none ∧ d.NullDefault c) ∨ d.Passes .null (counting == some i) c)) ∧
      ((∀ c parts, .column c parts ∈ cs → key.covers c.name = true → ¬ Declares .null parts) ↔
        ∀ (i : Nat) c, s.columns[i]? = some c → key.covers c.name = true →
          (counting ≠ some i → (c.notNull = some false → key.isInline c.name = true) ∧
            (c.notNull = none → ¬ d.NullDefault c)) ∧ ¬ d.Passes .null (counting == some i) c) := by
  obtain ⟨start, counting, key, columns, constraints, hstart, hplace, hcolumns, hconstraints, rfl⟩ :=
    clauses_cases h
  have hnull : ∀ (i : Nat) c parts, (columns ++ constraints)[i]? = some (.column c parts) →
      s.columns[i]? = some c ∧ (Declares .null parts ↔
        counting ≠ some i ∧ (c.notNull = some false ∧ key.isInline c.name = false ∨
          c.notNull = none ∧ d.NullDefault c) ∨ d.Passes .null (counting == some i) c) := by
    intro i c parts hi
    obtain ⟨hc, hparts⟩ := column_of_clauses hcolumns hconstraints hi
    rw [Direction.null_column hparts, beq_eq_false_iff_ne]
    exact ⟨hc, Iff.rfl⟩
  refine ⟨counting, key, ?_, hnull, ?_, ?_⟩
  · rw [Traced.outcome_bind, hstart]
    exact hplace
  · intro hfree i c hc hcovers
    obtain ⟨parts, hi⟩ := clause_of_column constraints hcolumns hc
    have hparts := hfree c parts (List.mem_of_getElem? hi) hcovers
    rw [(hnull i c parts hi).2] at hparts
    refine ⟨fun hcounting => ⟨fun hdeclared => ?_, fun hsilent hdefault => ?_⟩, fun hpasses => hparts (.inr hpasses)⟩
    · cases hinline : key.isInline c.name with
      | true => rfl
      | false => exact absurd (.inl ⟨hcounting, .inl ⟨hdeclared, hinline⟩⟩) hparts
    · exact hparts (.inl ⟨hcounting, .inr ⟨hsilent, hdefault⟩⟩)
  · intro hkey c parts hmem hcovers hin
    obtain ⟨i, hi⟩ := List.mem_iff_getElem?.1 hmem
    obtain ⟨hc, hiff⟩ := hnull i c parts hi
    obtain ⟨hplain, htext⟩ := hkey i c hc hcovers
    rcases hiff.1 hin with ⟨hcounting, ⟨hdeclared, htable⟩ | ⟨hsilent, hdefault⟩⟩ | hpasses
    · exact absurd ((hplain hcounting).1 hdeclared) (Bool.eq_false_iff.1 htable)
    · exact (hplain hcounting).2 hsilent hdefault
    · exact htext hpasses

/-- A key in a clause of its own, of a column declared NULL, one with a default of NULL,
and one with a quoted keyword. -/
theorem clauses_null_iff_table_key :
    let d : Direction := { source := .mysql, target := .postgresql }
    let a : Column := { name := ['a'], baseType := "int".toList, notNull := some false }
    let b : Column := { name := ['b'], baseType := "int".toList, default := some [⟨.word, "NULL", 0, true⟩] }
    let c : Column := { name := ['c'], baseType := "int".toList, extra := [⟨.ident, "`NULL`", 6, true⟩] }
    let s : Statement := ⟨⟨none, ['t']⟩, false, false, [a, b, c], [.primaryKey none [['a'], ['B'], ['c']]], []⟩
    let cs : List RenderedClause := [
      .column a [.name "\"a\"".toList, .type "INTEGER".toList, .null],
      .column b [.name "\"b\"".toList, .type "INTEGER".toList, .null, .default "NULL".toList],
      .column c [.name "\"c\"".toList, .type "INTEGER".toList, .extra "NULL".toList],
      .primaryKey [['a'], ['B'], ['c']] "PRIMARY KEY (\"a\", \"B\", \"c\")".toList]
    (d.clauses s).outcome = .ok cs ∧
      ∃ counting key, (PrimaryKey.ofStatement s >>= d.placeCounting s).outcome = .ok (counting, key) ∧
        (∀ (i : Nat) c parts, cs[i]? = some (.column c parts) → s.columns[i]? = some c ∧
          (Declares .null parts ↔ counting ≠ some i ∧ (c.notNull = some false ∧ key.isInline c.name = false ∨
            c.notNull = none ∧ d.NullDefault c) ∨ d.Passes .null (counting == some i) c)) ∧
        ((∀ c parts, .column c parts ∈ cs → key.covers c.name = true → ¬ Declares .null parts) ↔
          ∀ (i : Nat) c, s.columns[i]? = some c → key.covers c.name = true →
            (counting ≠ some i → (c.notNull = some false → key.isInline c.name = true) ∧
              (c.notNull = none → ¬ d.NullDefault c)) ∧ ¬ d.Passes .null (counting == some i) c) := by
  intro d a b c s cs
  have hclauses : (d.clauses s).outcome = .ok cs := eq_ok_of_toOption (by decide +kernel)
  exact ⟨hclauses, clauses_null_iff d s cs hclauses⟩

end TableDialects
