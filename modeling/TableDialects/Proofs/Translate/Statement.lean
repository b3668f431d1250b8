import TableDialects.Proofs.Translate.Column
import TableDialects.Proofs.Translate.Constraint
import TableDialects.Proofs.Written.Statement

/- Statements in another dialect. A statement of the core language
   (`Statement.IsCore`) is written as lines of clauses that are read as a statement
   of the core language again (`Direction.outcome_statement_core`), with the same
   columns and the same key. The key may move between the columns and the
   constraints, and a column may stop counting up; where they end is taken from
   `Direction.placeCounting` (`Direction.Places`). -/
namespace TableDialects

/-! ## Constraints -/

def Constraint.keyColumns? : Constraint → Option (List Text)
  | .primaryKey _ columns => some columns
  | _ => none

theorem isPlainName_indexName {table : Text} {columns : List Text} (htable : isPlainName table = true)
    (hcolumns : PlainNames columns) : isPlainName (Direction.indexName table columns) = true := by
  refine isPlainName_cons.2 ⟨fun c hc => ?_, by decide⟩
  have hlead : ∀ c ∈ "ix_".toList ++ ['_'], isNameChar c = true := by decide
  have hc : c ∈ "ix_".toList ++ table ++ '_' :: Text.join ['_'] columns := hc
  rcases List.mem_append.1 hc with hc | hc
  · rcases List.mem_append.1 hc with hc | hc
    · exact hlead c (List.mem_append_left _ hc)
    · exact chars_of_isPlainName htable c hc
  · rcases List.mem_cons.1 hc with rfl | hc
    · rfl
    · rcases mem_join hc with hc | ⟨n, hn, hc⟩
      · exact hlead c (List.mem_append_right _ hc)
      · exact chars_of_isPlainName (hcolumns n hn) c hc

theorem Constraint.IsPlain.carried {c : Constraint} (h : c.IsPlain) (target : Dialect) {table : Text}
    (htable : isPlainName table = true) : (c.carried target table).IsPlain := by
  have hdropped : ∀ {p : Prop} [Decidable p] {name : Option Text}, PlainName? name →
      PlainName? (if p then none else name) := by
    intro p _ name hname
    split
    · exact fun _ hn => by cases hn
    · exact hname
  cases c with
  | primaryKey name columns => exact ⟨hdropped h.1, h.2⟩
  | unique name columns => exact ⟨hdropped h.1, h.2⟩
  | foreignKey name columns r =>
    refine ⟨h.1, h.2.1, h.2.2.1, ?_, h.2.2.2.name, h.2.2.2.columns⟩
    show r.target.schema.filter _ = none
    rw [h.2.2.2.schema]
    rfl
  | index name columns type =>
    refine ⟨?_, h.2⟩
    show PlainName? (if target = .sqlserver then some (name.getD (Direction.indexName table columns)) else name)
    split
    · intro n hn
      cases Option.some.inj hn
      cases name with
      | none => exact isPlainName_indexName htable h.2.1
      | some n => exact h.1 n rfl
    · exact h.1
  | check name condition => exact h.elim

def PrimaryKey.IsPlain (key : PrimaryKey) : Prop := PlainName? key.constraintName ∧ PlainNames key.tableColumns

namespace Direction

variable (d : Direction)

theorem outcome_constraint_ok {c : Constraint} (h : c.IsTransported d.target) (table : Text) :
    ∃ text, (d.constraint table c).outcome = .ok text := by
  cases c with
  | primaryKey name columns => exact ⟨_, rfl⟩
  | unique name columns => exact ⟨_, rfl⟩
  | foreignKey name columns r => exact ⟨_, d.outcome_foreignKey table h⟩
  | index name columns type => exact ⟨_, d.outcome_indexClause table (given?_of_transported h.1) columns type⟩
  | check name condition => exact h.elim

/-- The constraints are how the target writes the clauses, with the key in its place
as the only primary key. -/
structure WritesConstraints (key : Option PrimaryKey) (out : List RenderedClause) (gs : List Constraint) : Prop where
  plain : ∀ g ∈ gs, g.IsPlain
  key : gs.findSome? Constraint.keyColumns? = key.map fun k => k.tableColumns
  render : out.map RenderedClause.render = gs.map fun g => renderTokens (g.tokens d.target)

variable {d}

theorem WritesConstraints.append {key : Option PrimaryKey} {out out' : List RenderedClause} {gs gs' : List Constraint}
    (h : d.WritesConstraints key out gs) (h' : d.WritesConstraints none out' gs') :
    d.WritesConstraints key (out ++ out') (gs ++ gs') := by
  refine ⟨fun g hg => ?_, ?_, ?_⟩
  · rcases List.mem_append.1 hg with hg | hg
    · exact h.plain g hg
    · exact h'.plain g hg
  · rw [List.findSome?_append, h.key, h'.key]
    cases key <;> rfl
  · rw [List.map_append, List.map_append, h.render, h'.render]

theorem WritesConstraints.cons {key : Option PrimaryKey} {out : List RenderedClause} {gs : List Constraint}
    (h : d.WritesConstraints key out gs) {c : RenderedClause} {g : Constraint} (hplain : g.IsPlain)
    (hother : g.keyColumns? = none) (hc : c.render = renderTokens (g.tokens d.target)) :
    d.WritesConstraints key (c :: out) (g :: gs) := by
  refine ⟨List.forall_mem_cons.2 ⟨hplain, h.plain⟩, ?_, ?_⟩
  · rw [List.findSome?_cons, hother]
    exact h.key
  · rw [List.map_cons, List.map_cons, h.render, hc]

variable (d)

theorem writes_keyClause {table : Text} (htable : isPlainName table = true) {key : Option PrimaryKey}
    (hkey : ∀ k ∈ key, k.IsPlain ∧ k.tableColumns ≠ []) :
    ∃ gs, d.WritesConstraints key (d.keyClause key) gs := by
  cases key with
  | none => exact ⟨[], fun _ hg => (nomatch hg), rfl, rfl⟩
  | some k =>
    obtain ⟨⟨hname, hcolumns⟩, hne⟩ := hkey k rfl
    have hplain : (Constraint.primaryKey k.constraintName k.tableColumns).IsPlain := ⟨hname, hcolumns, hne⟩
    refine ⟨[(Constraint.primaryKey k.constraintName k.tableColumns).carried d.target table],
      List.forall_mem_singleton.2 (hplain.carried d.target htable), rfl, ?_⟩
    exact congrArg (fun text => [text]) (d.primaryKey_eq table
      (given?_of_transported (hplain.transported d.target).1))

/-- The constraints are written as their carried forms; the clause of the key takes
the place of the first primary key, or stands at the end. -/
theorem outcome_constraintClauses {table : Text} (htable : isPlainName table = true) {cs : List Constraint}
    (h : ∀ c ∈ cs, c.IsPlain) {key : Option PrimaryKey}
    (hkey : ∀ k ∈ key, k.IsPlain ∧ k.tableColumns ≠ []) :
    ∃ out gs, (d.constraintClauses table key cs).outcome = .ok out ∧ d.WritesConstraints key out gs := by
  induction cs generalizing key with
  | nil =>
    obtain ⟨gs, hgs⟩ := d.writes_keyClause htable hkey
    exact ⟨_, gs, rfl, hgs⟩
  | cons c cs ih =>
    have hrest : ∀ c ∈ cs, c.IsPlain := fun b hb => h b (List.mem_cons_of_mem c hb)
    by_cases hc : ∃ name columns, c = .primaryKey name columns
    · obtain ⟨name, columns, rfl⟩ := hc
      have hnone : ∀ k ∈ (none : Option PrimaryKey), k.IsPlain ∧ k.tableColumns ≠ [] := fun _ hk => nomatch hk
      obtain ⟨gs, hgs⟩ := d.writes_keyClause htable hkey
      obtain ⟨out, gs', hout, hgs'⟩ := ih hrest hnone
      refine ⟨d.keyClause key ++ out, gs ++ gs', ?_, hgs.append hgs'⟩
      rw [d.constraintClauses_key, hout]
      rfl
    · have hplain := h c List.mem_cons_self
      have htransported := hplain.transported d.target
      obtain ⟨text, htext⟩ := d.outcome_constraint_ok htransported table
      obtain ⟨out, gs, hout, hgs⟩ := ih hrest hkey
      have houtcome := d.constraintClauses_cons (c := c) (fun name columns heq => hc ⟨name, columns, heq⟩) table key cs
      rw [htext, hout] at houtcome
      cases text with
      | none => exact ⟨_, gs, houtcome, hgs⟩
      | some text =>
        have hother : (c.carried d.target table).keyColumns? = none := by
          cases c with
          | primaryKey name columns => exact absurd ⟨name, columns, rfl⟩ hc
          | _ => rfl
        exact ⟨_, _, houtcome, hgs.cons (hplain.carried d.target htable) hother
          ((Writes.clause htext).eq_render htransported).2⟩

end Direction

/-! ## The place of the key -/

namespace PrimaryKey

variable {key : PrimaryKey}

theorem IsPlain.moveInline (h : key.IsPlain) (name : Text) : (key.moveInline name).2.IsPlain := by
  unfold PrimaryKey.moveInline
  split
  · exact ⟨fun _ hn => (nomatch hn), fun _ hn => (nomatch hn)⟩
  · exact h

theorem IsPlain.promote (h : key.IsPlain) (name : Text) : (key.promote name).2.IsPlain := by
  unfold PrimaryKey.promote
  split
  · exact h
  · exact h

theorem IsPlain.ofConstraints (h : key.IsPlain) (table : Text) {cs : List Constraint}
    (hcs : ∀ c ∈ cs, c.IsPlain) {found : PrimaryKey}
    (hfound : (PrimaryKey.ofConstraints table key cs).outcome = .ok found) : found.IsPlain := by
  induction cs generalizing key with
  | nil =>
    cases hfound
    exact h
  | cons c cs ih =>
    have hrest : ∀ c ∈ cs, c.IsPlain := fun b hb => hcs b (List.mem_cons_of_mem c hb)
    cases c with
    | primaryKey name columns =>
      have hplain : PlainName? name ∧ PlainNames columns ∧ columns ≠ [] := hcs _ List.mem_cons_self
      rw [PrimaryKey.ofConstraints] at hfound
      split at hfound
      · exact ih ⟨hplain.1, hplain.2.1⟩ hrest hfound
      · rw [Traced.outcome_bind] at hfound
        exact ih h hrest hfound
    | _ => exact ih h hrest hfound

theorem isPlain_ofStatement {s : Statement} (h : ∀ c ∈ s.constraints, c.IsPlain) {found : PrimaryKey}
    (hfound : (PrimaryKey.ofStatement s).outcome = .ok found) : found.IsPlain := by
  have hempty : ∀ inline, (⟨[], none, inline⟩ : PrimaryKey).IsPlain := fun _ =>
    ⟨fun _ hn => (nomatch hn), fun _ hn => (nomatch hn)⟩
  obtain ⟨key, hkey⟩ : ∃ key, (PrimaryKey.ofConstraints s.table.name {} s.constraints).outcome = .ok key := by
    obtain ⟨name, hkey⟩ := outcome_ofConstraints s.table.name {} s.constraints
    exact ⟨_, hkey⟩
  have hplain := (hempty none).ofConstraints s.table.name h hkey
  rw [outcome_ofStatement hkey] at hfound
  cases hfound
  split
  · exact hplain
  · split
    · exact hplain
    · split
      · exact hempty _
      · exact hplain

end PrimaryKey

namespace Direction

variable {d : Direction}

/-- The key stays or moves to the column; outside SQLite the column goes on
counting. -/
theorem fitKey_cases {key fitted : PrimaryKey} {name : Text} {counts : Bool}
    (h : (d.fitKey key name).outcome = .ok (counts, fitted)) :
    (fitted = key ∨ fitted = (key.moveInline name).2 ∨ fitted = (key.promote name).2) ∧
      (d.target ≠ .sqlite → counts = true) := by
  have hpromoted : (fitKey.promoted name key).outcome = .ok (counts, fitted) →
      fitted = (key.promote name).2 ∧ counts = true := by
    rw [outcome_promoted]
    intro h
    cases h
    exact ⟨rfl, rfl⟩
  unfold fitKey at h
  cases htarget : d.target with
  | mysql =>
    rw [htarget] at h
    obtain ⟨hfitted, hcounts⟩ := hpromoted h
    exact ⟨.inr (.inr hfitted), fun _ => hcounts⟩
  | postgresql =>
    rw [htarget] at h
    dsimp only [Dialect.profile] at h
    split at h
    · rename_i moved hmoved
      cases h
      exact ⟨.inr (.inl (by rw [hmoved])), fun _ => rfl⟩
    · obtain ⟨hfitted, hcounts⟩ := hpromoted h
      exact ⟨.inr (.inr hfitted), fun _ => hcounts⟩
  | sqlite =>
    rw [htarget] at h
    refine ⟨?_, fun hne => absurd rfl hne⟩
    dsimp only [Dialect.profile] at h
    split at h
    · cases h
      exact .inl rfl
    · split at h
      · rename_i moved hmoved
        cases h
        exact .inr (.inl (by rw [hmoved]))
      · split at h
        · rename_i promoted hpromote
          cases h
          exact .inr (.inr (by rw [hpromote]))
        · cases h
          exact .inl rfl
  | sqlserver =>
    rw [htarget] at h
    cases h
    exact ⟨.inl rfl, fun _ => rfl⟩

/-- A plain key stays plain, and outside SQLite the first column that counts up
counts. -/
theorem placeCounting_plain {s : Statement} {key fitted : PrimaryKey} {place : Option Nat}
    (h : (d.placeCounting s key).outcome = .ok (place, fitted)) :
    (key.IsPlain → fitted.IsPlain) ∧ (d.target ≠ .sqlite → place = s.columns.findIdx? Column.countsUp) := by
  rcases placeCounting_cases h with ⟨hnone, rfl, rfl⟩ | ⟨c, counts, -, hfit, rfl⟩
  · refine ⟨id, fun _ => (List.findIdx?_eq_none_iff.2 fun c hc => ?_).symm⟩
    exact Bool.eq_false_iff.2 (List.find?_eq_none.1 hnone c hc)
  · obtain ⟨hkey, hcounts⟩ := fitKey_cases hfit
    refine ⟨fun hplain => ?_, fun htarget => if_pos (hcounts htarget)⟩
    rcases hkey with rfl | rfl | rfl
    · exact hplain
    · exact hplain.moveInline c.name
    · exact hplain.promote c.name

end Direction

/-! ## Common statements -/

namespace Statement

theorem primaryKeyColumns_eq (s : Statement) :
    s.primaryKeyColumns = (s.constraints.findSome? Constraint.keyColumns?).getD
      ((s.columns.filter fun c => c.primaryKey).map fun c => c.name) := by
  unfold primaryKeyColumns
  split
  · rename_i columns hfound
    rw [show s.constraints.findSome? Constraint.keyColumns? = some columns from hfound, Option.getD_some]
  · rename_i hfound
    rw [show s.constraints.findSome? Constraint.keyColumns? = none from hfound, Option.getD_none]

/-- The statement is one of the core language: a table without a schema, with
common columns whose names differ by more than letter case, with keys, foreign keys
and indexes of plain names, and with a primary key, of which no second column is
declared inline. -/
structure IsCore (value : Token → Prop) (s : Statement) : Prop where
  schema : s.table.schema = none
  table : isPlainName s.table.name = true
  ne_nil : s.columns ≠ []
  columns : ∀ c ∈ s.columns, c.IsCore value
  apart : s.columns.Pairwise fun a b => Text.sameName a.name b.name = false
  constraints : ∀ c ∈ s.constraints, c.IsPlain
  keyed : s.primaryKeyColumns ≠ []
  single : s.constraints.findSome? Constraint.keyColumns? = none →
    (s.columns.filter fun c => c.primaryKey).length ≤ 1

variable {value : Token → Prop} {s : Statement}

theorem firstKey?_eq {cs : List Constraint} (h : ∀ c ∈ cs, c.IsPlain) :
    firstKey? cs = cs.findSome? Constraint.keyColumns? := by
  induction cs with
  | nil => rfl
  | cons c cs ih =>
    have hrest := ih fun b hb => h b (List.mem_cons_of_mem c hb)
    cases c with
    | primaryKey name columns =>
      have hne : columns ≠ [] := (h _ List.mem_cons_self : _ ∧ _ ∧ _).2.2
      rw [firstKey?, if_neg (by simpa using hne)]
      rfl
    | _ => exact hrest

/-- The key of a common statement is the one that it declares. -/
theorem IsCore.declaredKey? (h : s.IsCore value) : s.declaredKey? = some s.primaryKeyColumns := by
  have hkeyed := h.keyed
  rw [primaryKeyColumns_eq] at hkeyed ⊢
  unfold Statement.declaredKey?
  rw [firstKey?_eq h.constraints]
  cases hfound : s.constraints.findSome? Constraint.keyColumns? with
  | some columns => rfl
  | none =>
    have hsingle := h.single hfound
    have hhead := List.head?_filter (p := fun c : Column => c.primaryKey) (l := s.columns)
    rw [hfound] at hkeyed
    rw [← hhead]
    match hfilter : s.columns.filter fun c => c.primaryKey with
    | [] =>
      rw [hfilter] at hkeyed
      exact absurd rfl hkeyed
    | [c] =>
      rw [hfilter]
      rfl
    | a :: b :: more =>
      rw [hfilter] at hsingle
      exact absurd hsingle (by simp)

theorem IsCore.namesApart (h : s.IsCore value) : s.NamesApart := by
  refine ⟨fun c hc hnil => ?_, h.apart⟩
  have hname := (h.columns c hc).name
  rw [hnil] at hname
  cases hname

end Statement

/-- The key and the column that counts up in the places that they have in the
target. -/
structure Direction.Places (d : Direction) (s : Statement) (place : Option Nat) (counting : Bool)
    (key : PrimaryKey) : Prop where
  placed : Placed s (some s.primaryKeyColumns) key
  plain : key.IsPlain
  counts : Direction.CountsAt place counting 0 s.columns
  rowid : counting = true → d.target = .sqlite →
    ∀ c, s.columns.find? Column.countsUp = some c → key.isInline c.name = true
  stops : counting = false → d.target = .sqlite

theorem Statement.IsCore.places {value : Token → Prop} {s : Statement} (h : s.IsCore value) (d : Direction) :
    ∃ start place counting key, (PrimaryKey.ofStatement s).outcome = .ok start ∧
      (d.placeCounting s start).outcome = .ok (place, key) ∧ d.Places s place counting key := by
  obtain ⟨start, hstart, hdeclared⟩ := placed_ofStatement s
  obtain ⟨place, key, hplace, hplaced, hcounts⟩ := hdeclared.placeCounting d h.namesApart.1
  obtain ⟨hplain, hfirst⟩ := Direction.placeCounting_plain hplace
  have hkey : d.keyColumns? s = some s.primaryKeyColumns := by
    rw [Direction.keyColumns?, h.declaredKey?]
  refine ⟨start, place, decide (place = s.columns.findIdx? Column.countsUp), key, hstart, hplace,
    hkey ▸ hplaced, hplain (PrimaryKey.isPlain_ofStatement h.constraints hstart), ?_, ?_, ?_⟩
  · by_cases hsame : place = s.columns.findIdx? Column.countsUp
    · rw [decide_eq_true hsame]
      show place = (s.columns.findIdx? Column.countsUp).map (· + 0)
      rw [hsame]
      exact Option.map_id'.symm
    · rw [decide_eq_false hsame]
      exact fun j hj => absurd (hj.trans (hcounts j hj).1.symm) hsame
  · intro hsame htarget c hc
    rw [List.find?_eq_bind_findIdx?_getElem?, ← of_decide_eq_true hsame] at hc
    cases hi : place with
    | none =>
      rw [hi] at hc
      cases hc
    | some i =>
      rw [hi] at hc
      exact (hcounts i hi).2 c hc htarget
  · intro hother
    exact Decidable.byContradiction fun htarget => of_decide_eq_false hother (hfirst htarget)

/-! ## The clauses of a statement -/

namespace Direction

variable (d : Direction)

/-- The forms are how the target writes the columns and the constraints of the
statement, with the key in the place given. -/
structure WritesClauses (s : Statement) (key : PrimaryKey) (counting : Bool) (fs : List ColumnForm)
    (gs : List Constraint) : Prop where
  placed : Placed s (some s.primaryKeyColumns) key
  columns : d.WritesColumns key counting s.columns fs
  stops : counting = false → d.target = .sqlite
  constraints : ∀ g ∈ gs, g.IsPlain
  tableKey : gs.findSome? Constraint.keyColumns? = if key.tableColumns.isEmpty then none else some key.tableColumns

variable {d} {s : Statement}

theorem outcome_clauses_of_placed {start key : PrimaryKey} {place : Option Nat}
    (hstart : (PrimaryKey.ofStatement s).outcome = .ok start)
    (hplace : (d.placeCounting s start).outcome = .ok (place, key)) :
    (d.clauses s).outcome = (d.columnClauses key place 0 s.columns).outcome.bind fun columns =>
      (d.constraintClauses s.table.name (if key.tableColumns.isEmpty then none else some key)
        s.constraints).outcome.map (columns ++ ·) := by
  unfold clauses
  rw [Traced.outcome_bind, hstart]
  show (d.placeCounting s start >>= _).outcome = _
  rw [Traced.outcome_bind, hplace]
  show (d.columnClauses key place 0 s.columns >>= _).outcome = _
  rw [Traced.outcome_bind]
  congr 1
  funext columns
  rw [Traced.outcome_bind]
  cases (d.constraintClauses s.table.name (if key.tableColumns.isEmpty then none else some key)
    s.constraints).outcome <;> rfl

/-- The clauses of a common statement, unless SQL Server refuses a column. -/
theorem outcome_clauses (hset : d.settings = .standard) (h : s.IsCore Token.IsValue) :
    if d.target = .sqlserver ∧ .varying ∈ lengthKinds true s.columns then
      (d.clauses s).outcome = .error (.fault .badNumber)
    else ∃ out key counting fs gs, (d.clauses s).outcome = .ok out ∧ d.WritesClauses s key counting fs gs ∧
      out.map RenderedClause.render =
        ((fs.map ClauseForm.column ++ gs.map ClauseForm.constraint).map (ClauseForm.tokens d.target)).map renderTokens := by
  obtain ⟨start, place, counting, key, hstart, hplace, hplaces⟩ := h.places d
  have hcolumns := outcome_columnClauses hset h.columns hplaces.counts hplaces.rowid
  -- In SQL Server the first column that counts up counts.
  have hrefused : (d.target = .sqlserver ∧ .varying ∈ lengthKinds counting s.columns) ↔
      (d.target = .sqlserver ∧ .varying ∈ lengthKinds true s.columns) := by
    refine and_congr_right fun htarget => ?_
    cases counting with
    | true => exact Iff.rfl
    | false =>
      have hsqlite := hplaces.stops rfl
      rw [htarget] at hsqlite
      cases hsqlite
  rw [outcome_clauses_of_placed hstart hplace]
  by_cases hover : d.target = .sqlserver ∧ .varying ∈ lengthKinds true s.columns
  · rw [if_pos (hrefused.2 hover)] at hcolumns
    rw [if_pos hover, hcolumns]
    rfl
  · rw [if_neg (mt hrefused.1 hover)] at hcolumns
    obtain ⟨fs, hfs, hout⟩ := hcolumns
    have hkey : ∀ k ∈ (if key.tableColumns.isEmpty then none else some key), k.IsPlain ∧ k.tableColumns ≠ [] := by
      intro k hk
      split at hk
      · cases hk
      · rename_i hne
        cases hk
        exact ⟨hplaces.plain, by simpa using hne⟩
    obtain ⟨out, gs, hconstraints, hgs⟩ := d.outcome_constraintClauses h.table h.constraints hkey
    rw [if_neg hover, hout, hconstraints]
    refine ⟨_, key, counting, fs, gs, rfl, ⟨hplaces.placed, hfs, hplaces.stops, hgs.plain, ?_⟩, ?_⟩
    · rw [hgs.key]
      split <;> rfl
    · rw [List.map_append, hfs.render, hgs.render]
      simp only [List.map_append, List.map_map]
      rfl

/-! ## The text of a statement -/

variable (d)

/-- The name of the table in the target: SQL Server marks a temporary one. -/
def carriedName (s : Statement) : Text :=
  if s.temporary && d.target == .sqlserver then
    if s.table.name.head? == some '#' then s.table.name else '#' :: s.table.name
  else s.table.name

def form (s : Statement) (fs : List ColumnForm) (gs : List Constraint) : StatementForm where
  table := d.carriedName s
  temporary := s.temporary && d.target != .sqlserver
  ifNotExists := s.ifNotExists && d.target.profile.ifNotExists
  clauses := fs.map .column ++ gs.map .constraint

theorem clauses_form (s : Statement) (fs : List ColumnForm) (gs : List Constraint) :
    (d.form s fs gs).widen.clauses.map ClauseForm.clause =
      (fs.map ColumnForm.widen).map (.column ∘ ColumnForm.column) ++ gs.map .constraint := by
  show ((fs.map ClauseForm.column ++ gs.map ClauseForm.constraint).map ClauseForm.widen).map ClauseForm.clause = _
  rw [List.map_append, List.map_append]
  simp only [List.map_map]
  rfl

theorem columns_form (s : Statement) (fs : List ColumnForm) (gs : List Constraint) :
    (d.form s fs gs).widen.statement.columns = (fs.map ColumnForm.widen).map ColumnForm.column := by
  show Statement.columnsOf ((d.form s fs gs).widen.clauses.map ClauseForm.clause) = _
  rw [clauses_form, Statement.columnsOf, List.filterMap_append, List.filterMap_map, List.filterMap_map]
  simp [Function.comp_def]

theorem constraints_form (s : Statement) (fs : List ColumnForm) (gs : List Constraint) :
    (d.form s fs gs).widen.statement.constraints = gs := by
  show Statement.constraintsOf ((d.form s fs gs).widen.clauses.map ClauseForm.clause) = _
  rw [clauses_form, Statement.constraintsOf, List.filterMap_append, List.filterMap_map, List.filterMap_map]
  simp [Function.comp_def]

theorem isPlainName_carriedName (h : isPlainName s.table.name = true) : isPlainName (d.carriedName s) = true := by
  unfold carriedName
  split
  · split
    · exact h
    · refine isPlainName_cons.2 ⟨fun c hc => ?_, by decide⟩
      rcases List.mem_cons.1 hc with rfl | hc
      · rfl
      · exact chars_of_isPlainName h c hc
  · exact h

theorem qualified_none {n : Text} (h : n ≠ []) : d.qualified none n = d.target.quote n := by
  have hrender := d.renderBehind_qualifiedTokens (q := ⟨none, n⟩) rfl h
  have htext : renderBehind Token.value (qualifiedTokens d.target ⟨none, n⟩) = ' ' :: d.target.quote n :=
    congrArg (' ' :: ·) (List.append_nil _)
  exact (List.cons.inj (hrender.symm.trans htext)).2

/-- The statement up to its column section is written from its form. -/
theorem outcome_head (hschema : s.table.schema = none) (htable : isPlainName s.table.name = true)
    (fs : List ColumnForm) (gs : List Constraint) :
    (d.head s).outcome = .ok (renderTokens ((d.form s fs gs).headTokens d.target)) := by
  have hname : (d.tableName s).outcome = .ok (d.target.quote (d.carriedName s)) := by
    have hne : d.carriedName s ≠ [] := fun hnil => by
      have hplain := d.isPlainName_carriedName htable
      rw [hnil] at hplain
      cases hplain
    have hquoted := d.qualified_none hne
    unfold tableName
    unfold carriedName at hquoted ⊢
    rw [hschema]
    split
    · rename_i hmarked
      rw [if_pos hmarked] at hquoted
      exact congrArg Except.ok hquoted
    · rename_i hmarked
      rw [if_neg hmarked] at hquoted
      exact congrArg Except.ok hquoted
  have htext : ∀ temporary ifNotExists : Bool, ∀ quoted : Text,
      renderTokens (keywords ["CREATE"] ++ (keywords (if temporary then ["TEMPORARY"] else []) ++
        (keywords ["TABLE"] ++ (keywords (if ifNotExists then ["IF", "NOT", "EXISTS"] else []) ++
          [⟨.ident, quoted, 0, true⟩])))) =
      "CREATE ".toList ++ (if temporary then "TEMPORARY ".toList else []) ++ "TABLE ".toList ++
        (if ifNotExists then "IF NOT EXISTS ".toList else []) ++ quoted := by
    intro temporary ifNotExists quoted
    have hend : renderBehind Token.value [⟨.ident, quoted, 0, true⟩] = ' ' :: quoted :=
      congrArg (' ' :: ·) (List.append_nil quoted)
    have hcreate : keywords ["CREATE"] ≠ [] := List.cons_ne_nil _ _
    rw [renderTokens_append hcreate, renderBehind_append, renderBehind_append, renderBehind_append, hend]
    cases temporary <;> cases ifNotExists <;> rfl
  unfold head
  dsimp only
  rw [Traced.outcome_bind, Traced.outcome_recordIf]
  show (d.tableName s >>= _).outcome = _
  rw [Traced.outcome_bind, hname]
  exact congrArg Except.ok (htext _ _ _).symm

/-- The last line of a statement holds the options that the settings give it. -/
theorem exists_options (hset : d.settings = .standard) :
    ∃ options, d.options = .ok options ∧ '\n' :: renderTokens (StatementForm.endTokens d.target) =
      "\n)".toList ++ (if options.isEmpty then options else ' ' :: options) ++ [';'] := by
  unfold options
  rw [hset]
  cases d.target with
  | mysql => exact ⟨_, rfl, by decide +kernel⟩
  | _ => exact ⟨_, rfl, rfl⟩

/-- The lines of a form: the head, the clauses with four spaces before them, and the
options. -/
theorem linesText_form {fs : List ColumnForm} {gs : List Constraint} (hsound : (d.form s fs gs).IsSound)
    {out : List RenderedClause} (hout : out.map RenderedClause.render =
      ((d.form s fs gs).clauses.map (ClauseForm.tokens d.target)).map renderTokens) :
    linesText ((d.form s fs gs).lines d.target) =
      renderTokens ((d.form s fs gs).headTokens d.target) ++ " (\n".toList ++
        Text.join ",\n" (out.map fun c => List.replicate 4 ' ' ++ c.render) ++
        '\n' :: renderTokens (StatementForm.endTokens d.target) := by
  have hne : (d.form s fs gs).clauses.map (ClauseForm.tokens d.target) ≠ [] :=
    fun hnil => hsound.ne_nil (List.map_eq_nil_iff.1 hnil)
  have htokens : ∀ ts ∈ (d.form s fs gs).clauses.map (ClauseForm.tokens d.target), ts ≠ [] := by
    intro ts hts
    obtain ⟨f, hf, rfl⟩ := List.mem_map.1 hts
    obtain ⟨t, us, htokens, -⟩ := (hsound.clauses f hf).starts d.target
    rw [htokens]
    exact List.cons_ne_nil t us
  have hbody : Text.join ",\n" (out.map fun c => List.replicate 4 ' ' ++ c.render) =
      Text.join ",\n" (((d.form s fs gs).clauses.map (ClauseForm.tokens d.target)).map fun ts =>
        List.replicate 4 ' ' ++ renderTokens ts) := by
    have hmap := congrArg (List.map (List.replicate 4 ' ' ++ ·)) hout
    rw [List.map_map, List.map_map] at hmap
    exact congrArg (Text.join ",\n") hmap
  have hfirst : (d.form s fs gs).headTokens d.target ≠ [] := List.cons_ne_nil _ _
  have hopen : renderBehind Token.value [(Token.mark '(').apart] = " (".toList := by decide
  have hline : Line.text ⟨0, (d.form s fs gs).headTokens d.target ++ [(Token.mark '(').apart]⟩ =
      renderTokens ((d.form s fs gs).headTokens d.target) ++ " (".toList := by
    rw [Line.text, renderTokens_append hfirst, hopen]
    rfl
  have hlast : linesBelow [⟨0, StatementForm.endTokens d.target⟩] =
      '\n' :: renderTokens (StatementForm.endTokens d.target) := List.append_nil _
  rw [StatementForm.lines, linesText_cons, linesBelow_append, linesBelow_clauseLines 4 hne htokens, hlast, hbody,
    hline]
  simp only [List.append_assoc, List.cons_append]
  rfl

/-- The text of a statement is the one of the lines of its form, after the
clean-up. -/
theorem outcome_assemble (hset : d.settings = .standard) (hschema : s.table.schema = none)
    (htable : isPlainName s.table.name = true) {fs : List ColumnForm} {gs : List Constraint}
    (hsound : (d.form s fs gs).IsSound) {out : List RenderedClause}
    (hout : out.map RenderedClause.render =
      ((d.form s fs gs).clauses.map (ClauseForm.tokens d.target)).map renderTokens) :
    (d.assemble s out).outcome =
      .ok (Cleanup.tightTypes (Cleanup.lines (linesText ((d.form s fs gs).lines d.target)))) := by
  have hindent : d.settings.indent = .ok (List.replicate 4 ' ') := by rw [hset]; rfl
  have hhead := d.outcome_head hschema htable fs gs
  obtain ⟨options, hoptions, hend⟩ := d.exists_options hset
  unfold assemble
  simp only [Traced.outcome_bind, hhead, hindent, hoptions]
  rw [d.linesText_form hsound hout, hend, ← List.append_assoc, ← List.append_assoc]
  rfl

end Direction

/-! ## Reading what was written -/

/-- The second statement is what the target keeps of the first one: again a common
statement, with the same columns and the same key. Only lengths may change their
kind; SQLite may leave a column uncounted, which matters if it has a length. -/
structure Direction.Carries (d : Direction) (s t : Statement) : Prop where
  core : t.IsCore Token.IsValue
  names : t.columns.map (fun c => c.name) = s.columns.map fun c => c.name
  key : t.primaryKeyColumns.map Text.lower = s.primaryKeyColumns.map Text.lower
  free : ∀ c ∈ t.columns, c.countsUp = true → c.lengthKind = .free
  kinds : (d.target = .sqlite → ∀ c ∈ s.columns, c.countsUp = true → c.lengthKind = .free) →
    lengthKinds true t.columns = (lengthKinds true s.columns).map (LengthKind.carried d.target)

namespace Direction

variable {d : Direction} {s : Statement} {key : PrimaryKey} {counting : Bool} {fs : List ColumnForm}
  {gs : List Constraint}

theorem WritesClauses.widen (h : d.WritesClauses s key counting fs gs) :
    d.WritesClauses s key counting (fs.map ColumnForm.widen) gs :=
  { h with columns := h.columns.widen }

/-- Where the key has no clause of its own it stands at one column. -/
theorem WritesClauses.inlineKey (h : d.WritesClauses s key counting fs gs) (hs : s.IsCore Token.IsValue)
    (hnone : gs.findSome? Constraint.keyColumns? = none) :
    ∃ name, ((fs.map ColumnForm.column).filter fun c => c.primaryKey).map (fun c => c.name) = [name] ∧
      s.primaryKeyColumns.map Text.lower = [Text.lower name] := by
  have hkey := h.tableKey
  rw [hnone] at hkey
  rw [h.columns.inlineKeys]
  cases h.placed with
  | table hne =>
    rw [if_neg (by simpa using hne)] at hkey
    cases hkey
  | @inline _ name c hc hsame =>
    have hone : (s.columns.filter fun b => PrimaryKey.isInline ⟨[], name, some c.name⟩ b.name) = [c] :=
      filter_sameName hs.apart hc
    rw [hone]
    exact ⟨c.name, rfl, hsame⟩

/-- What is read from the forms of a statement is what the target keeps of it. -/
theorem WritesClauses.carries (h : d.WritesClauses s key counting fs gs) (hs : s.IsCore Token.IsValue)
    {t : Statement} (hschema : t.table.schema = none) (htable : isPlainName t.table.name = true)
    (hcolumns : t.columns = fs.map ColumnForm.column) (hconstraints : t.constraints = gs) : d.Carries s t := by
  have hnames : t.columns.map (fun c => c.name) = s.columns.map fun c => c.name := by
    rw [hcolumns]
    exact h.columns.names
  have hsame : t.primaryKeyColumns.map Text.lower = s.primaryKeyColumns.map Text.lower := by
    rw [t.primaryKeyColumns_eq, hconstraints, hcolumns]
    cases hfound : gs.findSome? Constraint.keyColumns? with
    | none =>
      obtain ⟨name, hone, hkey⟩ := h.inlineKey hs hfound
      rw [hkey, Option.getD_none, hone]
      rfl
    | some columns =>
      have hkey := h.tableKey
      rw [hfound] at hkey
      cases h.placed with
      | table hne =>
        rw [if_neg (by simpa using hne)] at hkey
        rw [Option.some.inj hkey]
        rfl
      | inline hc hsame => cases hkey
  refine ⟨⟨hschema, htable, ?_, ?_, ?_, ?_, ?_, ?_⟩, hnames, hsame, ?_, ?_⟩
  · intro hnil
    rw [hnil] at hnames
    exact hs.ne_nil (List.map_eq_nil_iff.1 hnames.symm)
  · rw [hcolumns]
    intro c hc
    obtain ⟨f, hf, rfl⟩ := List.mem_map.1 hc
    exact (h.columns.sound f hf).isCore
  · have hapart : (s.columns.map fun c => c.name).Pairwise fun a b => Text.sameName a b = false :=
      List.pairwise_map.2 hs.apart
    rw [← hnames] at hapart
    exact List.pairwise_map.1 hapart
  · rw [hconstraints]
    exact h.constraints
  · intro hnil
    rw [hnil] at hsame
    exact hs.keyed (List.map_eq_nil_iff.1 hsame.symm)
  · rw [hconstraints, hcolumns]
    intro hnone
    obtain ⟨name, hone, -⟩ := h.inlineKey hs hnone
    have hlength := congrArg List.length hone
    rw [List.length_map] at hlength
    exact Nat.le_of_eq hlength
  · rw [hcolumns]
    exact h.columns.free
  · intro hfree
    rw [hcolumns, h.columns.kinds]
    cases hcounting : counting with
    | true => rfl
    | false => rw [lengthKinds_of_free (hfree (h.stops hcounting)), lengthKinds_of_free (hfree (h.stops hcounting))]

end Direction

/-! ### Places do not matter -/

theorem lengthKinds_bare (counting : Bool) (cs : List Column) :
    lengthKinds counting (cs.map Column.bare) = lengthKinds counting cs := by
  induction cs generalizing counting with
  | nil => rfl
  | cons c cs ih =>
    rw [List.map_cons, lengthKinds, lengthKinds, ih, Direction.countsUp_bare]
    rfl

theorem Column.IsCore.of_bare {c : Column} (h : c.bare.IsCore Token.IsValue) : c.IsCore Token.IsValue := by
  have hnone : ∀ {e : Option (List Token)}, e.map TableDialects.bare = none → e = none := Option.map_eq_none_iff.1
  obtain ⟨b, p, htype⟩ := h.type
  refine ⟨h.name, ⟨b, p, htype.core, htype.params, htype.base_eq, htype.params_eq⟩, h.scalar, fun ts hts => ?_,
    hnone h.check, h.reference, hnone h.onUpdate, h.comment, h.collation, List.map_eq_nil_iff.1 h.extra⟩
  obtain ⟨t, ht, hvalue⟩ := h.default (TableDialects.bare ts) (congrArg (Option.map TableDialects.bare) hts)
  obtain ⟨u, rfl, rfl⟩ := List.map_eq_singleton_iff.1 ht
  exact ⟨u, rfl, hvalue⟩

theorem Constraint.IsPlain.of_bare {c : Constraint} (h : c.bare.IsPlain) : c.IsPlain := by
  cases c <;> exact h

namespace Statement

theorem findSome?_keyColumns?_bare (s : Statement) :
    s.bare.constraints.findSome? Constraint.keyColumns? = s.constraints.findSome? Constraint.keyColumns? := by
  have hsame : ∀ c : Constraint, c.bare.keyColumns? = c.keyColumns? := fun c => by cases c <;> rfl
  show (s.constraints.map Constraint.bare).findSome? _ = _
  rw [List.findSome?_map]
  exact congrArg (fun f => s.constraints.findSome? f) (funext hsame)

theorem filter_primaryKey_bare (s : Statement) :
    s.bare.columns.filter (fun c => c.primaryKey) =
      (s.columns.filter fun c => c.primaryKey).map Column.bare := List.filter_map

theorem primaryKeyColumns_bare (s : Statement) : s.bare.primaryKeyColumns = s.primaryKeyColumns := by
  rw [primaryKeyColumns_eq, primaryKeyColumns_eq, findSome?_keyColumns?_bare, filter_primaryKey_bare, List.map_map]
  rfl

theorem IsCore.of_bare {s : Statement} (h : s.bare.IsCore Token.IsValue) : s.IsCore Token.IsValue := by
  refine ⟨h.schema, h.table, fun hnil => h.ne_nil (congrArg (List.map Column.bare) hnil), fun c hc => ?_,
    List.pairwise_map.1 h.apart, fun c hc => ?_, ?_, fun hnone => ?_⟩
  · exact (h.columns _ (List.mem_map_of_mem hc)).of_bare
  · exact (h.constraints _ (List.mem_map_of_mem hc)).of_bare
  · rw [← s.primaryKeyColumns_bare]
    exact h.keyed
  · have hsingle := h.single (s.findSome?_keyColumns?_bare.trans hnone)
    rw [filter_primaryKey_bare, List.length_map] at hsingle
    exact hsingle

end Statement

namespace Direction

variable {d : Direction} {s : Statement}

theorem Carries.of_bare {t : Statement} (h : d.Carries s t.bare) : d.Carries s t := by
  refine ⟨h.core.of_bare, ?_, ?_, fun c hc hcounts => ?_, fun hfree => ?_⟩
  · rw [← h.names]
    show _ = (t.columns.map Column.bare).map _
    rw [List.map_map]
    rfl
  · rw [← t.primaryKeyColumns_bare]
    exact h.key
  · exact h.free c.bare (List.mem_map_of_mem hc) (by rw [countsUp_bare]; exact hcounts)
  · rw [← h.kinds hfree]
    exact (lengthKinds_bare true t.columns).symm

/-- A common statement is written as a text that is read as what the target keeps
of it. SQL Server refuses one with a varying length that has too many digits. -/
theorem outcome_statement_core (hset : d.settings = .standard) (h : s.IsCore Token.IsValue) :
    if d.target = .sqlserver ∧ .varying ∈ lengthKinds true s.columns then
      (d.statement s).outcome = .error (.fault .badNumber)
    else ∃ text t, (d.statement s).outcome = .ok text ∧ Statement.read text = .ok t ∧ d.Carries s t := by
  have hclauses := outcome_clauses hset h
  rw [outcome_statement]
  split
  · rename_i hover
    rw [if_pos hover] at hclauses
    rw [hclauses]
    rfl
  · rename_i hover
    rw [if_neg hover] at hclauses
    obtain ⟨out, key, counting, fs, gs, hout, hwrites, htexts⟩ := hclauses
    have hsound : (d.form s fs gs).IsSound := by
      refine ⟨d.isPlainName_carriedName h.table, fun f hf => ?_, fun hnil => ?_⟩
      · rcases List.mem_append.1 hf with hf | hf
        · obtain ⟨g, hg, rfl⟩ := List.mem_map.1 hf
          exact hwrites.columns.sound g hg
        · obtain ⟨g, hg, rfl⟩ := List.mem_map.1 hf
          exact hwrites.constraints g hg
      · have hfs : fs = [] := List.map_eq_nil_iff.1 (List.append_eq_nil_iff.1 hnil).1
        have hcs := hwrites.columns
        rw [hfs] at hcs
        generalize hcolumns : s.columns = cs at hcs
        cases hcs
        exact h.ne_nil hcolumns
    have hassemble := d.outcome_assemble hset h.schema h.table hsound htexts
    obtain ⟨t, hread, hbare⟩ := hsound.read d.target
    refine ⟨_, t, ?_, hread, ?_⟩
    · rw [hout]
      exact hassemble
    · refine Carries.of_bare ?_
      rw [hbare]
      exact hwrites.widen.carries h rfl (d.isPlainName_carriedName h.table) (d.columns_form s fs gs)
        (d.constraints_form s fs gs)

end Direction

end TableDialects
