import TableDialects.Proofs.Written.Constraint
import TableDialects.Translate.Constraint

/- Constraints in another dialect. A key, a foreign key or an index is written as
   the constraint that the target has a form for (`Constraint.carried`): its text
   is that of the tokens of the carried constraint (`Direction.primaryKey_eq`,
   `Direction.Writes.eq_render`), and where the target transports the names it
   is read as the carried constraint. -/
namespace TableDialects

/-- The schemas that a dialect assumes where a name says none. -/
def assumedSchemas : List Text := ["public".toList, "dbo".toList, "main".toList]

/-- The action that the target has a form for: SQL Server has no RESTRICT. -/
def ReferenceAction.carried (target : Dialect) (a : ReferenceAction) : ReferenceAction :=
  if target = .sqlserver ∧ a = .restrict then .noAction else a

/-- The reference that the target has a form for: without an assumed schema. -/
def Reference.carried (target : Dialect) (r : Reference) : Reference where
  target := ⟨r.target.schema.filter fun s => !assumedSchemas.contains (Text.lower s), r.target.name⟩
  columns := r.columns
  actions := r.actions.map fun a => (a.1, a.2.carried target)

namespace Constraint

/-- The constraint that the target has a form for: MySQL and SQLite name no primary
key, SQLite names no uniqueness, and SQL Server names every index. -/
def carried (target : Dialect) (table : Text) : Constraint → Constraint
  | .primaryKey name columns =>
    .primaryKey (if target = .mysql ∨ target = .sqlite then none else name) columns
  | .unique name columns => .unique (if target = .sqlite then none else name) columns
  | .foreignKey name columns r => .foreignKey name columns (r.carried target)
  | .index name columns type =>
    let generated := "ix_".toList ++ table ++ '_' :: Text.join ['_'] columns
    .index (if target = .sqlserver then some (name.getD generated) else name) columns type
  | .check name condition => .check name condition

/-- Whether the target can write the constraint inside the statement: only MySQL
and SQL Server have such an index, the latter only a plain one. -/
def IsKept (target : Dialect) : Constraint → Prop
  | .index _ _ type => target = .mysql ∨ target = .sqlserver ∧ type = none
  | _ => True

end Constraint

/-! ## Names -/

theorem given?_of_transported {d : Dialect} {name : Option Text} (h : Transported? d name) :
    Direction.given? name = name := by
  cases name with
  | none => rfl
  | some n =>
    have hne : n ≠ [] := (Dialect.transports_iff.1 (h n rfl)).1
    simp [Direction.given?, hne]

/-- The generated name of an index is transported: it starts with a letter, and
ends as its last column does. -/
theorem transports_indexName {d : Dialect} (table : Text) {columns : List Text}
    (h : Transported d columns) (hne : columns ≠ []) :
    d.transports (Direction.indexName table columns) = true := by
  obtain ⟨n, hn, hjoined⟩ := join_suffix ['_'] hne
  obtain ⟨hfull, hbare, -⟩ := Dialect.transports_iff.1 (h n hn)
  have hsuffix : n <:+ Direction.indexName table columns :=
    hjoined.trans ((List.suffix_cons _ _).trans (List.suffix_append _ _))
  have hlast : (Direction.indexName table columns).getLast?.all Dialect.isEdge = true := by
    obtain ⟨start, hstart⟩ := hsuffix
    have hedge := (Dialect.bareName_eq_self_iff.1 hbare).2
    rw [List.getLast?_eq_some_getLast hfull] at hedge
    rw [← hstart, List.getLast?_append, List.getLast?_eq_some_getLast hfull]
    exact hedge
  have hhead : (Direction.indexName table columns).head? = some 'i' := rfl
  have hdigits : (Direction.indexName table columns).all Text.isDigit = false := by
    show (Text.isDigit 'i' && _) = false
    rw [show Text.isDigit 'i' = false by decide]
    rfl
  unfold Dialect.transports
  rw [hlast, hdigits, hhead]
  cases d <;> rfl

theorem Reference.IsTransported.carried {d : Dialect} {r : Reference} (h : r.IsTransported d) :
    (r.carried d).IsTransported d := by
  refine ⟨fun s hs => ?_, h.name, h.columns⟩
  exact h.schema s (Option.filter_eq_some_iff.1 hs).1

namespace Constraint

theorem IsTransported.carried {d : Dialect} {c : Constraint} (h : c.IsTransported d) (table : Text) :
    (c.carried d table).IsTransported d := by
  have hdropped : ∀ {p : Prop} [Decidable p] {name : Option Text}, Transported? d name →
      Transported? d (if p then none else name) := by
    intro p _ name hname
    split
    · exact fun _ hn => by cases hn
    · exact hname
  cases c with
  | primaryKey name columns => exact ⟨hdropped h.1, h.2⟩
  | unique name columns => exact ⟨hdropped h.1, h.2⟩
  | foreignKey name columns r => exact ⟨h.1, h.2.1, h.2.2.1, h.2.2.2.carried⟩
  | index name columns type =>
    have hname : ∀ n ∈ name, d.transports n = true := h.1
    have hnamed : d.transports (name.getD (Direction.indexName table columns)) = true := by
      cases name with
      | none => exact transports_indexName table h.2.1 h.2.2
      | some n => exact hname n rfl
    refine ⟨?_, h.2⟩
    show Transported? d (if d = .sqlserver then some (name.getD (Direction.indexName table columns)) else name)
    split
    · exact fun n hn => Option.some.inj hn ▸ hnamed
    · exact hname
  | check name condition => exact h

end Constraint

/-! ## Texts -/

/-- The text of a constraint is what follows the blank before its tokens. -/
theorem Constraint.eq_renderTokens {d : Dialect} {c : Constraint} {text : Text}
    (h : renderBehind Token.value (c.tokens d) = ' ' :: text) : text = renderTokens (c.tokens d) := by
  have hapart := (readBack_tokens d c).apart
  cases hts : c.tokens d with
  | nil =>
    rw [hts] at h
    cases h
  | cons t ts =>
    rw [hts] at h hapart
    rw [renderBehind, hapart t rfl] at h
    exact (List.cons.inj h).2.symm

namespace Direction

variable (d : Direction)

theorem renderBehind_startTokens {name : Option Text} (hname : given? name = name) {ts : List Token}
    {text : Text} (h : renderBehind Token.value ts = ' ' :: text) :
    renderBehind Token.value (startTokens d.target name ++ ts) = ' ' :: (d.constraintStart name ++ text) := by
  rw [renderBehind_append, h]
  unfold constraintStart
  rw [hname]
  cases name with
  | none => rfl
  | some n => simp [startTokens, renderBehind, Token.keyword, Token.quoted]

theorem renderBehind_keyed {keyword : String} {ws : List String}
    (hws : renderBehind Token.value (keywords ws) = ' ' :: keyword.toList) {name : Option Text}
    (hname : given? name = name) (columns : List Text) :
    renderBehind Token.value (keywords ws ++ (labelTokens d.target name ++ nameGroup d.target columns)) =
      ' ' :: d.keyed keyword name columns := by
  rw [renderBehind_append, renderBehind_append, hws, renderBehind_nameGroup]
  unfold keyed columnList
  rw [hname]
  cases name with
  | none => simp [labelTokens, renderBehind]
  | some n => simp [labelTokens, renderBehind, Token.quoted]

theorem isAssumed_iff (schema : Text) :
    (defaultSchemas.any fun n => n.toList == schema) = assumedSchemas.contains schema := by
  show _ = (defaultSchemas.map String.toList).contains schema
  rw [List.contains_eq_any_beq, List.any_map]
  exact congrArg defaultSchemas.any (funext fun n => BEq.comm)

theorem renderBehind_qualifiedTokens {q : QualifiedName} (hschema : given? q.schema = q.schema)
    (hname : q.name ≠ []) :
    renderBehind Token.value (qualifiedTokens d.target
      ⟨q.schema.filter fun s => !assumedSchemas.contains (Text.lower s), q.name⟩) =
        ' ' :: d.qualified q.schema q.name := by
  obtain ⟨schema, name⟩ := q
  have hgiven : (some name).filter (fun s => !s.isEmpty) = some name := by simp [hname]
  have hplain : renderBehind Token.value (qualifiedTokens d.target ⟨none, name⟩) =
      ' ' :: d.target.quoteQualified [none, some name] := by
    simp [qualifiedTokens, renderBehind, Dialect.quoteQualified, Token.quoted, hgiven, Text.join]
  unfold qualified
  simp only [isAssumed_iff]
  cases schema with
  | none => exact hplain
  | some s =>
    have hfull : (some s).filter (fun s => !s.isEmpty) = some s := hschema
    cases hassumed : assumedSchemas.contains (Text.lower s) with
    | true =>
      simp only [Option.filter, hassumed]
      exact hplain
    | false =>
      simp only [Option.filter, hassumed]
      simp [qualifiedTokens, renderBehind, Dialect.quoteQualified, Token.quoted, Token.mark, Token.tight,
        hgiven, hfull, Text.join]

/-- The actions of a reference are written as the carried ones. -/
theorem outcome_actions (actions : List (ReferenceEvent × ReferenceAction)) :
    (d.actions actions).outcome = .ok (renderBehind Token.value
      (actionTokens (actions.map fun a => (a.1, a.2.carried d.target)))) := by
  have htext : ∀ (event : ReferenceEvent) (action : ReferenceAction),
      renderBehind Token.value (keywords ("ON" :: event.word :: action.words)) =
        " ON ".toList ++ event.word.toList ++ ' ' :: action.text := by
    intro event action
    cases event <;> cases action <;> decide
  induction actions with
  | nil => rfl
  | cons a actions ih =>
    obtain ⟨event, action⟩ := a
    have haction : (if action == .restrict && d.target == .sqlserver then .noAction else action) =
        action.carried d.target := by
      cases action <;> cases d.target <;> rfl
    rw [Direction.actions, List.map_cons]
    show _ = Except.ok (renderBehind Token.value (keywords ("ON" :: event.word ::
      (action.carried d.target).words) ++ actionTokens _))
    rw [renderBehind_append, htext]
    simp only [Traced.outcome_bind, Traced.outcome_recordIf, ih, haction]
    rfl

theorem outcome_reference {r : Reference} (h : r.IsTransported d.target) :
    (d.reference r).outcome = .ok (renderTokens (referenceTokens d.target (r.carried d.target))) := by
  have hne : r.target.name ≠ [] := (Dialect.transports_iff.1 h.name).1
  have htarget := d.renderBehind_qualifiedTokens (given?_of_transported h.schema) hne
  have hcolumns : renderBehind Token.value (if r.columns.isEmpty then [] else nameGroup d.target r.columns) =
      if r.columns.isEmpty then [] else " (".toList ++ d.columnList r.columns ++ [')'] := by
    split
    · rfl
    · exact renderBehind_nameGroup d.target r.columns
  unfold reference
  simp only [Traced.outcome_bind, d.outcome_actions]
  show Except.ok _ = Except.ok ("REFERENCES".toList ++ renderBehind Token.value (qualifiedTokens _ _ ++ (_ ++ _)))
  rw [renderBehind_append, renderBehind_append]
  show _ = Except.ok (_ ++ (renderBehind Token.value (qualifiedTokens d.target ⟨_, _⟩) ++ _))
  rw [htarget, show (r.carried d.target).columns = r.columns from rfl, hcolumns]
  simp [Reference.carried]

/-! ## Clauses -/

theorem renderBehind_unnamed {keyword : String} {ws : List String}
    (hws : renderBehind Token.value (keywords ws) = ' ' :: keyword.toList) (columns : List Text) :
    renderBehind Token.value (keywords ws ++ nameGroup d.target columns) =
      ' ' :: d.keyed keyword none columns := by
  have hnone : given? none = none := rfl
  exact d.renderBehind_keyed hws hnone columns

theorem given?_if_none {p : Prop} [Decidable p] {name : Option Text} (h : given? name = name) :
    given? (if p then none else name) = if p then none else name := by
  split
  · rfl
  · exact h

theorem primaryKey_eq (table : Text) {key : PrimaryKey} (h : given? key.constraintName = key.constraintName) :
    d.primaryKey key = renderTokens
      (((Constraint.primaryKey key.constraintName key.tableColumns).carried d.target table).tokens d.target) := by
  have hname : (if d.target.profile.namedUnique && d.target != .mysql then key.constraintName else none) =
      if d.target = .mysql ∨ d.target = .sqlite then none else key.constraintName := by
    cases d.target <;> rfl
  have hwords : renderBehind Token.value (keywords ["PRIMARY", "KEY"]) = ' ' :: "PRIMARY KEY".toList := by
    decide
  refine Constraint.eq_renderTokens ?_
  rw [Direction.primaryKey, hname]
  exact d.renderBehind_startTokens (given?_if_none h) (d.renderBehind_unnamed hwords key.tableColumns)

theorem uniqueClause_eq (table : Text) {name : Option Text} (h : given? name = name) (columns : List Text) :
    d.uniqueClause name columns = renderTokens
      (((Constraint.unique name columns).carried d.target table).tokens d.target) := by
  refine Constraint.eq_renderTokens ?_
  unfold uniqueClause
  rw [Constraint.carried, Constraint.tokens]
  by_cases hmysql : d.target = .mysql
  · have hwords : renderBehind Token.value (keywords ["UNIQUE", "KEY"]) = ' ' :: "UNIQUE KEY".toList := by
      decide
    rw [if_pos hmysql, if_pos (beq_iff_eq.2 hmysql), if_neg (by rw [hmysql]; decide)]
    exact d.renderBehind_keyed hwords h columns
  · have hwords : renderBehind Token.value (keywords ["UNIQUE"]) = ' ' :: "UNIQUE".toList := by decide
    have hname : (if d.target.profile.namedUnique then name else none) =
        if d.target = .sqlite then none else name := by
      cases d.target <;> rfl
    rw [if_neg hmysql, if_neg (mt beq_iff_eq.1 hmysql), hname]
    exact d.renderBehind_startTokens (given?_if_none h) (d.renderBehind_unnamed hwords columns)

theorem keepsIndex_iff (type : Option IndexType) :
    d.keepsIndex type = true ↔ d.target = .mysql ∨ d.target = .sqlserver ∧ type = none := by
  unfold keepsIndex
  cases d.target <;> rcases type with - | - | - <;> decide

/-- An index is written as the carried one, where the target has a form for it. -/
theorem outcome_indexClause (table : Text) {name : Option Text} (h : given? name = name)
    (columns : List Text) (type : Option IndexType) :
    (d.indexClause table name columns type).outcome = .ok (if d.keepsIndex type then some (renderTokens
      (((Constraint.index name columns type).carried d.target table).tokens d.target)) else none) := by
  unfold indexClause
  cases hkeep : d.keepsIndex type with
  | false => rfl
  | true =>
    rcases (d.keepsIndex_iff type).1 hkeep with hmysql | ⟨hserver, rfl⟩
    · have hwords : renderBehind Token.value (keywords ["KEY"]) = ' ' :: "KEY".toList := by decide
      have hkeyed := d.renderBehind_keyed hwords h columns
      have hserver : ¬ d.target = .sqlserver := by
        rw [hmysql]
        decide
      rw [if_pos rfl, if_neg (mt beq_iff_eq.1 hserver)]
      refine congrArg (fun text => Except.ok (some text)) (Constraint.eq_renderTokens ?_)
      rw [Constraint.carried, if_neg hserver, Constraint.tokens, renderBehind_append,
        show indexKeyword d.target = "KEY" by rw [hmysql]; rfl, hkeyed]
      cases type with
      | none => rfl
      | some type => simp [keywords, renderBehind, Token.keyword]
    · have hwords : renderBehind Token.value (keywords ["INDEX"]) = ' ' :: "INDEX".toList := by decide
      have hname : given? (some (name.getD (indexName table columns))) =
          some (name.getD (indexName table columns)) := by
        cases name with
        | none => rfl
        | some n => exact h
      have hkeyed := d.renderBehind_keyed hwords hname columns
      rw [if_pos rfl, if_pos (beq_iff_eq.2 hserver), h]
      refine congrArg (fun text => Except.ok (some text)) (Constraint.eq_renderTokens ?_)
      rw [Constraint.carried, if_pos hserver, Constraint.tokens, hserver]
      rw [hserver] at hkeyed
      exact hkeyed

theorem outcome_foreignKey (table : Text) {name : Option Text} {columns : List Text} {r : Reference}
    (h : (Constraint.foreignKey name columns r).IsTransported d.target) :
    (d.constraint table (.foreignKey name columns r)).outcome = .ok (some (renderTokens
      (((Constraint.foreignKey name columns r).carried d.target table).tokens d.target))) := by
  have hwords : renderBehind Token.value (keywords ["FOREIGN", "KEY"]) = ' ' :: "FOREIGN KEY".toList := by
    decide
  have hreference : renderBehind Token.value (referenceTokens d.target (r.carried d.target)) =
      ' ' :: renderTokens (referenceTokens d.target (r.carried d.target)) := rfl
  have hkeyed : renderBehind Token.value (keywords ["FOREIGN", "KEY"] ++ (nameGroup d.target columns ++
      referenceTokens d.target (r.carried d.target))) = ' ' :: (d.keyed "FOREIGN KEY" none columns ++
        ' ' :: renderTokens (referenceTokens d.target (r.carried d.target))) := by
    rw [← List.append_assoc, renderBehind_append, d.renderBehind_unnamed hwords, hreference]
    rfl
  rw [constraint, Traced.outcome_bind, d.outcome_reference h.2.2.2]
  refine congrArg (fun text => Except.ok (some text)) (Constraint.eq_renderTokens ?_)
  rw [List.append_assoc]
  exact d.renderBehind_startTokens (given?_of_transported h.1) hkeyed

/-- The text is the clause that is written for a constraint of the table. A primary
key is written from its place in the statement. -/
inductive Writes (d : Direction) (table : Text) : Constraint → Text → Prop
  | key (key : PrimaryKey) :
    Writes d table (.primaryKey key.constraintName key.tableColumns) (d.primaryKey key)
  | clause {c : Constraint} {text : Text} (h : (d.constraint table c).outcome = .ok (some text)) :
    Writes d table c text

variable {d}

theorem Writes.eq_render {table : Text} {c : Constraint} {text : Text} (hw : d.Writes table c text)
    (h : c.IsTransported d.target) :
    c.IsKept d.target ∧ text = renderTokens ((c.carried d.target table).tokens d.target) := by
  cases hw with
  | key key => exact ⟨trivial, d.primaryKey_eq table (given?_of_transported h.1)⟩
  | clause hclause =>
    cases c with
    | primaryKey name columns => cases hclause
    | unique name columns =>
      cases hclause
      exact ⟨trivial, d.uniqueClause_eq table (given?_of_transported h.1) columns⟩
    | foreignKey name columns r =>
      rw [d.outcome_foreignKey table h] at hclause
      cases hclause
      exact ⟨trivial, rfl⟩
    | index name columns type =>
      rw [constraint, d.outcome_indexClause table (given?_of_transported h.1)] at hclause
      cases hkeep : d.keepsIndex type with
      | false =>
        rw [hkeep] at hclause
        cases hclause
      | true =>
        rw [hkeep] at hclause
        cases hclause
        exact ⟨(d.keepsIndex_iff type).1 hkeep, rfl⟩
    | check name condition => exact h.elim

theorem exists_writes (table : Text) {c : Constraint} (h : c.IsTransported d.target)
    (hkept : c.IsKept d.target) : ∃ text, d.Writes table c text := by
  cases c with
  | primaryKey name columns => exact ⟨_, .key { tableColumns := columns, constraintName := name }⟩
  | unique name columns => exact ⟨_, .clause rfl⟩
  | foreignKey name columns r => exact ⟨_, .clause (d.outcome_foreignKey table h)⟩
  | index name columns type =>
    have houtcome := d.outcome_indexClause table (given?_of_transported h.1) columns type
    rw [(d.keepsIndex_iff type).2 hkept] at houtcome
    exact ⟨_, .clause houtcome⟩
  | check name condition => exact h.elim

/-- A key, a foreign key or an index whose names the target transports is written
exactly if the target has a form for it, and what is written is read as the
carried constraint. -/
theorem written_constraint_comes_back (d : Direction) (table : Text) (c : Constraint)
    (h : c.IsTransported d.target) :
    (∀ text, d.Writes table c text →
      Clause.read text = .ok (.constraint (c.carried d.target table))) ∧
    ((∃ text, d.Writes table c text) ↔ c.IsKept d.target) := by
  refine ⟨fun text hw => ?_, fun ⟨_, hw⟩ => (hw.eq_render h).1, exists_writes table h⟩
  rw [(hw.eq_render h).2]
  exact (h.carried table).read_text

/-- A reference to a default schema, with RESTRICT, and names that hold quotes,
dots, commas and parentheses. -/
theorem written_constraint_comes_back_restrict :
    let c := Constraint.foreignKey (some "f.k".toList) ["a]b".toList]
      ⟨⟨some "DBO".toList, "t (x".toList⟩, ["7,8".toList], [(.delete, .restrict), (.update, .cascade)]⟩
    let d : Direction := { source := .mysql, target := .sqlserver }
    c.IsTransported d.target ∧ c.IsKept d.target ∧
      (∃ text, d.Writes "t".toList c text) ∧
      ∀ text, d.Writes "t".toList c text → Clause.read text = .ok (.constraint (.foreignKey (some "f.k".toList)
        ["a]b".toList] ⟨⟨none, "t (x".toList⟩, ["7,8".toList], [(.delete, .noAction), (.update, .cascade)]⟩)) := by
  intro c d
  have h : c.IsTransported d.target :=
    ⟨by decide, by decide, by decide, by decide, by decide, by decide⟩
  obtain ⟨hread, hwritten⟩ := written_constraint_comes_back d "t".toList c h
  refine ⟨h, trivial, hwritten.2 trivial, fun text hw => (hread text hw).trans ?_⟩
  exact congrArg (fun c => Except.ok (Clause.constraint c)) (by decide)

end Direction

end TableDialects
