import Mathlib.Data.List.Nodup
import TableDialects.Translate.Session
import TableDialects.Proofs.Translate.Boolean

/- Statement after statement. A translator forgets what it noted before each statement,
   so a run over statements is that of a fresh translator for each of them
   (`Translator.steps_fresh`). It notes each change once. That no description is reported
   twice needs more, as two changes could be worded alike: the changes that a translation
   leaves are of a fixed list, or name a call for the current time
   (`Direction.only_statement`), and two of these are worded differently
   (`Change.message_inj`). -/
namespace TableDialects

/-! ## The changes that an operation leaves -/

/-- All changes that the operation leaves have the property. -/
def Traced.Only {α : Type} (P : Change → Prop) (x : Traced α) : Prop := ∀ r ∈ x.changes, P r

namespace Traced.Only
variable {α β : Type} {P : Change → Prop} {x : Traced α} {f : α → Traced β} {r : Change}

theorem pure (a : α) : Only P (Pure.pure a : Traced α) := List.forall_mem_nil _

theorem fail (e : Error) : Only P (Traced.fail e : Traced α) := List.forall_mem_nil _

theorem ofExcept (e : Except Error α) : Only P (Traced.ofExcept e) := List.forall_mem_nil _

theorem notify (n : Notice) : Only P (Traced.notify n) := List.forall_mem_nil _

theorem record (h : P r) : Only P (Traced.record r) := List.forall_mem_singleton.2 h

theorem recordIf (c : Bool) (h : P r) : Only P (Traced.recordIf c r) := fun _ hr =>
  Traced.mem_changes_recordIf hr ▸ h

theorem bind (hx : Only P x) (hf : ∀ a, Only P (f a)) : Only P (x >>= f) := by
  intro r hr
  rcases Traced.mem_changes_bind hr with hr | ⟨a, -, hr⟩
  · exact hx r hr
  · exact hf a r hr

theorem ite {c : Prop} [Decidable c] {y : Traced α} (hx : Only P x) (hy : Only P y) : Only P (if c then x else y) := by
  split
  · exact hx
  · exact hy

end Traced.Only

/-! ## The wording of changes -/

namespace Change

/-- The changes with a wording that no statement has a part in. -/
def fixed : List Change := [
  .optionsRemoved, .temporaryName, .ifNotExistsRemoved, .extraAutoIncrement, .autoIncrementStripped,
  .keyMovedToSerial, .autoIncrementKey, .toSerial, .toRowid, .toIdentity, .toModifier, .enumToText,
  .unsignedWidened, .lengthAdded, .castsRemoved, .defaultUnwrapped, .booleanDefault, .nullKey,
  .onUpdateRemoved, .commentRemoved, .collateRemoved, .restrictToNoAction, .indexDropped]
  ++ Dialect.all.map (fun target => .arrayTo target.profile.arrayType)
  ++ Direction.lengthLimits.map (fun limit => .maxLength limit.1)

/-- A change that a translation may leave: one of fixed wording, or a call for the current
time under its common name. -/
def IsLeft (r : Change) : Prop := r ∈ fixed ∨ ∃ text, r = .timestampDefault text

/-- What the descriptions of calls for the current time end in. -/
def timestampEnd : Text := " → CURRENT_TIMESTAMP".toList

theorem message_fixed : (fixed.map message).Nodup ∧ ∀ r ∈ fixed, timestampEnd.isSuffixOf r.message = false := by
  decide +kernel

theorem message_ne_timestampDefault {r : Change} (hr : r ∈ fixed) (text : Text) :
    r.message ≠ (timestampDefault text).message := by
  intro h
  have hend : timestampEnd.isSuffixOf r.message = true := by
    rw [List.isSuffixOf_iff_suffix, h]
    exact List.suffix_append text timestampEnd
  rw [message_fixed.2 r hr] at hend
  cases hend

theorem message_inj {r r' : Change} (hr : IsLeft r) (hr' : IsLeft r') (h : r.message = r'.message) : r = r' := by
  rcases hr with hr | ⟨text, rfl⟩ <;> rcases hr' with hr' | ⟨text', rfl⟩
  · exact List.inj_on_of_nodup_map message_fixed.1 hr hr' h
  · exact absurd h (message_ne_timestampDefault hr text')
  · exact absurd h.symm (message_ne_timestampDefault hr' text)
  · exact congrArg timestampDefault (List.append_cancel_right h)

end Change

/-! ## The changes of a statement -/

open Traced Change

theorem Expression.only_render (source target : Dialect) (ts : List Token) : Only IsLeft (render source target ts) := by
  unfold render
  exact .ite (.pure _) (.bind (.recordIf _ (.inl (by decide))) fun _ => .pure _)

theorem PrimaryKey.only_ofConstraints (table : Text) (key : PrimaryKey) (cs : List Constraint) :
    Only IsLeft (ofConstraints table key cs) := by
  fun_induction ofConstraints table key cs with
  | case1 => exact .pure _
  | case2 _ _ _ _ _ ih => exact ih
  | case3 _ _ _ _ _ ih => exact .bind (.notify _) fun _ => ih
  | case4 _ _ _ _ ih => exact ih

theorem PrimaryKey.only_ofStatement (s : Statement) : Only IsLeft (ofStatement s) := by
  unfold ofStatement
  refine .bind (only_ofConstraints _ _ _) fun key => ?_
  dsimp only
  split
  · exact .pure _
  · refine .ite (.bind (.notify _) fun _ => ?_) ?_ <;> exact .ite (.pure _) (.ite (.pure _) (.pure _))

namespace Direction
variable (d : Direction)

theorem only_limitLength (type : Text) : Only IsLeft (limitLength type) := by
  unfold limitLength
  split
  · exact .pure _
  · rename_i keyword limit digits hfind
    obtain ⟨entry, hentry, hfound⟩ := List.exists_of_findSome?_eq_some hfind
    obtain ⟨_, -, hsame⟩ := Option.map_eq_some_iff.1 hfound
    cases hsame
    have hkeyword : IsLeft (.maxLength entry.1) := .inl (List.mem_append_right _ (List.mem_map_of_mem hentry))
    split
    · exact .fail _
    · exact .ite (.bind (.record hkeyword) fun _ => .pure _) (.pure _)

theorem only_scalarType (c : Column) : Only IsLeft (d.scalarType c) := by
  unfold scalarType
  refine .bind (.recordIf _ (.inl (by decide))) fun _ => ?_
  dsimp only
  refine .ite (.bind (only_limitLength _) fun _ => ?_) (.bind (.pure _) fun _ => ?_) <;>
    exact .ite (.bind (.record (.inl (by decide))) fun _ => .pure _) (.pure _)

theorem only_columnType? (c : Column) : Only IsLeft (d.columnType? c) := by
  have harray : IsLeft (.arrayTo d.target.profile.arrayType) := .inl (by cases d.target <;> decide)
  unfold columnType?
  refine .ite (.pure _) (.ite (.bind (.record harray) fun _ => .pure _) (.ite ?_ ?_))
  · refine .bind (.record (.inl (by decide))) fun _ => ?_
    split <;> exact .pure _
  · exact .bind (d.only_scalarType c) fun _ => .pure _

theorem only_countingType (c : Column) : Only IsLeft (d.countingType c) := by
  unfold countingType
  split <;> exact .bind (.record (.inl (by decide))) fun _ => .pure _

theorem only_default? (c : Column) : Only IsLeft (d.default? c) := by
  unfold default?
  split
  · exact .pure _
  · exact .pure _
  · refine .bind (.recordIf _ (.inl (by decide))) fun _ => ?_
    split
    · exact .bind (.record (.inl (by decide))) fun _ => .pure _
    · refine .bind (Expression.only_render _ _ _) fun text => ?_
      exact .ite (.bind (.record (.inr ⟨text, rfl⟩)) fun _ => .pure _) (.pure _)

theorem only_nullability (c : Column) (inlineKey : Bool) (default : Option Text) :
    Only IsLeft (nullability c inlineKey default) := by
  unfold nullability
  exact .ite (.pure _) (.ite (.bind (.record (.inl (by decide))) fun _ => .pure _) (.ite (.pure _) (.pure _)))

theorem only_actions (actions : List (ReferenceEvent × ReferenceAction)) : Only IsLeft (d.actions actions) := by
  induction actions with
  | nil => exact .pure _
  | cons action actions ih =>
    unfold Direction.actions
    exact .bind (.recordIf _ (.inl (by decide))) fun _ => .bind ih fun _ => .pure _

theorem only_reference (r : Reference) : Only IsLeft (d.reference r) := by
  unfold reference
  exact .bind (d.only_actions _) fun _ => .pure _

theorem only_plainParts (c : Column) (inlineKey : Bool) : Only IsLeft (d.plainParts c inlineKey) := by
  unfold plainParts
  refine .bind (d.only_columnType? c) fun _ => ?_
  dsimp only
  refine .ite (.bind (.pure _) fun _ => ?_) (.bind (d.only_default? c) fun _ => ?_) <;>
    exact .bind (only_nullability c inlineKey _) fun _ => .pure _

theorem only_checkPart (c : Column) : Only IsLeft (d.checkPart c) := by
  unfold checkPart
  split
  · exact .pure _
  · exact .pure _
  · exact .bind (Expression.only_render _ _ _) fun _ => .pure _

theorem only_referencePart (c : Column) : Only IsLeft (d.referencePart c) := by
  unfold referencePart
  split
  · exact .pure _
  · exact .bind (d.only_reference _) fun _ => .pure _

theorem only_onUpdatePart (c : Column) : Only IsLeft (d.onUpdatePart c) := by
  unfold onUpdatePart
  split
  · exact .pure _
  · exact .pure _
  · exact .ite (.bind (Expression.only_render _ _ _) fun _ => .pure _)
      (.bind (.record (.inl (by decide))) fun _ => .pure _)

theorem only_commentPart (c : Column) : Only IsLeft (d.commentPart c) := by
  unfold commentPart
  split
  · exact .pure _
  · exact .ite (.pure _) (.bind (.record (.inl (by decide))) fun _ => .pure _)

theorem only_extraPart (c : Column) : Only IsLeft (d.extraPart c) := by
  unfold extraPart
  exact .ite (.pure _) (.bind (Expression.only_render _ _ _) fun _ => .pure _)

theorem only_column (key : PrimaryKey) (counts : Bool) (c : Column) : Only IsLeft (d.column key counts c) := by
  unfold column
  dsimp only
  refine .ite (.bind (d.only_countingType c) fun _ => .bind (.pure _) fun _ => ?_)
    (.bind (d.only_plainParts c _) fun _ => ?_)
  all_goals
    refine .bind (d.only_checkPart c) fun _ => .bind (d.only_referencePart c) fun _ => ?_
    refine .bind (d.only_onUpdatePart c) fun _ => .bind (d.only_commentPart c) fun _ => ?_
    refine .bind (.recordIf _ (.inl (by decide))) fun _ => .bind (d.only_extraPart c) fun _ => ?_
    split
    · exact .fail _
    · exact .pure _

theorem only_dropOptions (s : Statement) : Only IsLeft (dropOptions s) := by
  have hremoved : Only IsLeft (record .optionsRemoved) := .record (.inl (by decide))
  unfold dropOptions
  exact .ite (.pure _) (.ite (.bind (.notify _) fun _ => hremoved) hremoved)

theorem only_dropCounting (cs : List Column) : Only IsLeft (dropCounting cs) := by
  induction cs with
  | nil => exact .pure _
  | cons c cs ih =>
    unfold dropCounting
    exact .bind (.notify _) fun _ => .bind (.record (.inl (by decide))) fun _ => ih

theorem only_fitKey (key : PrimaryKey) (name : Text) : Only IsLeft (d.fitKey key name) := by
  have hpromoted : ∀ key, Only IsLeft (fitKey.promoted name key) := by
    intro key
    unfold fitKey.promoted
    split
    · exact .bind (.record (.inl (by decide))) fun _ => .pure _
    · exact .pure _
  unfold fitKey
  split
  · refine .ite (.pure _) ?_
    split
    · exact .pure _
    · split
      · exact .pure _
      · exact .bind (.notify _) fun _ => .bind (.record (.inl (by decide))) fun _ => .pure _
  · split
    · exact .bind (.record (.inl (by decide))) fun _ => .pure _
    · exact hpromoted _
  · exact hpromoted _
  · exact .pure _

theorem only_placeCounting (s : Statement) (key : PrimaryKey) : Only IsLeft (d.placeCounting s key) := by
  unfold placeCounting
  split
  · exact .pure _
  · exact .bind (only_dropCounting _) fun _ => .bind (d.only_fitKey _ _) fun _ => .pure _

theorem only_columnClauses (key : PrimaryKey) (counting : Option Nat) (i : Nat) (cs : List Column) :
    Only IsLeft (d.columnClauses key counting i cs) := by
  induction cs generalizing i with
  | nil => exact .pure _
  | cons c cs ih =>
    unfold columnClauses
    exact .bind (d.only_column _ _ _) fun _ => .bind (ih _) fun _ => .pure _

theorem only_indexClause (table : Text) (name : Option Text) (columns : List Text) (type : Option IndexType) :
    Only IsLeft (d.indexClause table name columns type) := by
  unfold indexClause
  refine .ite (.ite (.pure _) (.pure _)) ?_
  exact .bind (.notify _) fun _ => .bind (.record (.inl (by decide))) fun _ => .pure _

theorem only_constraint (table : Text) (c : Constraint) : Only IsLeft (d.constraint table c) := by
  cases c with
  | primaryKey => exact .pure _
  | unique => exact .pure _
  | foreignKey => exact .bind (d.only_reference _) fun _ => .pure _
  | check => exact .bind (Expression.only_render _ _ _) fun _ => .pure _
  | index => exact d.only_indexClause _ _ _ _

theorem only_constraintClauses (table : Text) (key : Option PrimaryKey) (cs : List Constraint) :
    Only IsLeft (d.constraintClauses table key cs) := by
  fun_induction constraintClauses d table key cs with
  | case1 => exact .pure _
  | case2 _ _ _ _ ih => exact .bind ih fun _ => .pure _
  | case3 key c cs hc ih =>
    refine .bind (d.only_constraint _ _) fun text => .bind ih fun _ => ?_
    split <;> exact .pure _

theorem only_clauses (s : Statement) : Only IsLeft (d.clauses s) := by
  unfold clauses
  refine .bind (PrimaryKey.only_ofStatement s) fun _ => .bind (d.only_placeCounting s _) fun _ => ?_
  exact .bind (d.only_columnClauses _ _ _ _) fun _ => .bind (d.only_constraintClauses _ _ _) fun _ => .pure _

theorem only_head (s : Statement) : Only IsLeft (d.head s) := by
  have hname : Only IsLeft (d.tableName s) := by
    unfold tableName
    exact .ite (.bind (.record (.inl (by decide))) fun _ => .pure _) (.pure _)
  unfold head
  exact .bind (.recordIf _ (.inl (by decide))) fun _ => .bind hname fun _ => .pure _

/-- Translating a statement leaves changes of fixed wording and calls for the current
time. -/
theorem only_statement (s : Statement) : Only IsLeft (d.statement s) := by
  unfold statement assemble
  refine .bind (only_dropOptions s) fun _ => .bind (d.only_clauses s) fun _ => .bind (d.only_head s) fun _ => ?_
  exact .bind (.ofExcept _) fun _ => .bind (.ofExcept _) fun _ => .pure _

theorem only_translate (sql : Text) : Only IsLeft (d.translate sql) := by
  have honly : Only IsLeft (ofExcept ((Statement.read sql).mapError Error.malformed) >>= d.statement) :=
    .bind (.ofExcept _) d.only_statement
  -- Whether or not the translation fails, its changes are reported without repetition.
  have hdistinct : (d.translate sql).changes =
      distinct (ofExcept ((Statement.read sql).mapError Error.malformed) >>= d.statement).changes := by
    unfold translate
    dsimp only
    split <;> rfl
  intro r hr
  rw [hdistinct, mem_distinct] at hr
  exact honly r hr

end Direction

/-! ## Statement after statement -/

namespace Translator

theorem steps_fresh (t : Translator) (sqls : List Text) :
    t.steps sqls = sqls.flatMap fun sql => (Translator.mk t.direction []).steps [sql] := by
  induction sqls generalizing t with
  | nil => rfl
  | cons sql sqls ih =>
    rw [List.flatMap_cons, steps]
    dsimp only
    rw [ih]
    rfl

theorem nodup_message_step (t : Translator) (sql : Text) : ((t.step sql).1.applied.map message).Nodup := by
  change ((distinct (t.direction.translate sql).changes).map message).Nodup
  refine (nodup_distinct _).map_on fun r hr r' hr' => ?_
  exact message_inj (t.direction.only_translate sql r (mem_distinct.1 hr))
    (t.direction.only_translate sql r' (mem_distinct.1 hr'))

/-- Each statement is translated as by a fresh translator, and no description of a change
is reported twice. -/
theorem steps_memoryless (t : Translator) (sqls : List Text) :
    t.steps sqls = sqls.flatMap (fun sql => (Translator.mk t.direction []).steps [sql]) ∧
      ∀ report ∈ t.steps sqls, (report.2.map message).Nodup := by
  refine ⟨t.steps_fresh sqls, fun report hreport => ?_⟩
  rw [t.steps_fresh sqls] at hreport
  obtain ⟨sql, -, hsql⟩ := List.mem_flatMap.1 hreport
  rw [steps] at hsql
  cases List.mem_singleton.1 hsql
  exact nodup_message_step _ sql

end Translator

end TableDialects
