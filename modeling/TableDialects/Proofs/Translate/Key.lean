import TableDialects.Proofs.Translate.Emitted

/- One key and one column that counts up. A table may declare its primary key
   inline, in a clause of its own, in both places or several times, and a column
   that counts up may pull the key to itself. `Placed` says that a key stands in one
   place and which columns it stands for; reading the key from the statement and
   fitting it to the column that counts up keep that, and the clauses are rendered
   from it.

   What the clauses designate is read off the emitted text (`Declares`). The model of
   the key accounts for all of it but the text that is passed on: the type of a
   column, say, and its tokens without meaning may say PRIMARY KEY, or count up, on
   their own. So the clauses designate one key at most, the first table-level key with
   columns, else the first inline key, else, where the target makes it one, the first
   column that counts up, and count up at one column at most, exactly if that text
   keeps to the key (`clauses_one_key_iff`). -/
namespace TableDialects

/-! ## What a statement declares -/

/-- The columns of the first table-level key that lists any. -/
def firstKey? : List Constraint → Option (List Text)
  | [] => none
  | .primaryKey _ columns :: cs => if columns.isEmpty then firstKey? cs else some columns
  | _ :: cs => firstKey? cs

/-- The columns of the key that a statement declares: those of the first
table-level key, else the first inline one. -/
def Statement.declaredKey? (s : Statement) : Option (List Text) :=
  match firstKey? s.constraints with
  | some columns => some columns
  | none => (s.columns.find? fun c => c.primaryKey).map fun c => [c.name]

/-- The columns of the key in the target: the declared ones, else, outside
SQL Server, the first column that counts up. -/
def Direction.keyColumns? (d : Direction) (s : Statement) : Option (List Text) :=
  match s.declaredKey? with
  | some columns => some columns
  | none =>
    if d.target = .sqlserver then none
    else (s.columns.find? Column.countsUp).map fun c => [c.name]

/-- The key stands in one place, and there for the columns given: in a clause of
its own, inline at a column of the statement, or nowhere. -/
inductive Placed (s : Statement) : Option (List Text) → PrimaryKey → Prop
  | table {columns : List Text} {name : Option Text} (hne : columns ≠ []) :
    Placed s (some columns) ⟨columns, name, none⟩
  | inline {columns : List Text} {name : Option Text} {c : Column} (hc : c ∈ s.columns)
    (hsame : columns.map Text.lower = [Text.lower c.name]) :
    Placed s (some columns) ⟨[], name, some c.name⟩
  | absent {name : Option Text} : Placed s none ⟨[], name, none⟩

theorem firstKey?_ne_nil {cs : List Constraint} {columns : List Text}
    (h : firstKey? cs = some columns) : columns ≠ [] := by
  fun_induction firstKey? cs with
  | case1 => cases h
  | case2 name columns' cs hempty ih => exact ih h
  | case3 name columns' cs hempty =>
    cases h
    rintro rfl
    exact hempty rfl
  | case4 c cs hc ih => exact ih h

theorem outcome_ofConstraints (table : Text) (key : PrimaryKey) (cs : List Constraint) :
    ∃ name, (PrimaryKey.ofConstraints table key cs).outcome =
      .ok ⟨if key.tableColumns.isEmpty then (firstKey? cs).getD [] else key.tableColumns, name,
        key.inlineColumn⟩ := by
  induction cs generalizing key with
  | nil =>
    obtain ⟨columns, name, inline⟩ := key
    refine ⟨name, ?_⟩
    cases columns <;> rfl
  | cons c cs ih =>
    cases c with
    | primaryKey name columns =>
      rw [PrimaryKey.ofConstraints]
      by_cases hkey : key.tableColumns.isEmpty = true
      · obtain ⟨name', ih⟩ := ih { key with tableColumns := columns, constraintName := name }
        refine ⟨name', ?_⟩
        rw [if_pos hkey, if_pos hkey, ih, firstKey?]
        split <;> rfl
      · obtain ⟨name', ih⟩ := ih key
        refine ⟨name', ?_⟩
        rw [if_neg hkey, if_neg hkey, Traced.outcome_bind]
        rw [if_neg hkey] at ih
        exact ih
    | _ => exact ih key

theorem sameNames_single {columns : List Text} {name : Text} :
    PrimaryKey.sameNames columns [name] = true ↔ columns.map Text.lower = [Text.lower name] := by
  unfold PrimaryKey.sameNames
  rw [beq_iff_eq]
  rfl

theorem outcome_ofStatement {s : Statement} {key : PrimaryKey}
    (hkey : (PrimaryKey.ofConstraints s.table.name {} s.constraints).outcome = .ok key) :
    (PrimaryKey.ofStatement s).outcome =
      .ok (match s.columns.find? fun c => c.primaryKey with
        | none => key
        | some c =>
          if key.tableColumns.isEmpty then { key with inlineColumn := some c.name }
          else if PrimaryKey.sameNames key.tableColumns [c.name] then { inlineColumn := some c.name }
          else key) := by
  have hhead := List.head?_filter (p := fun c : Column => c.primaryKey) (l := s.columns)
  unfold PrimaryKey.ofStatement
  rw [Traced.outcome_bind, hkey, ← hhead]
  cases s.columns.filter fun c => c.primaryKey with
  | nil => rfl
  | cons c more =>
    have hends : (if key.tableColumns.isEmpty then
          pure { key with inlineColumn := some c.name }
        else if PrimaryKey.sameNames key.tableColumns [c.name] then
          pure { inlineColumn := some c.name }
        else pure key : Traced PrimaryKey).outcome =
        .ok (if key.tableColumns.isEmpty then { key with inlineColumn := some c.name }
          else if PrimaryKey.sameNames key.tableColumns [c.name] then { inlineColumn := some c.name }
          else key) := by
      split
      · rfl
      · split <;> rfl
    -- The notice about further inline keys changes nothing.
    cases more with
    | nil => exact hends
    | cons c' more => exact hends

/-- The key read from a statement stands for what the statement declares. -/
theorem placed_ofStatement (s : Statement) :
    ∃ key, (PrimaryKey.ofStatement s).outcome = .ok key ∧ Placed s s.declaredKey? key := by
  obtain ⟨name, hkey⟩ := outcome_ofConstraints s.table.name {} s.constraints
  refine ⟨_, outcome_ofStatement hkey, ?_⟩
  unfold Statement.declaredKey?
  cases hfirst : firstKey? s.constraints with
  | none =>
    cases hfind : s.columns.find? fun c => c.primaryKey with
    | none => exact .absent
    | some c => exact .inline (List.mem_of_find?_eq_some hfind) rfl
  | some columns =>
    have hne := firstKey?_ne_nil hfirst
    cases hfind : s.columns.find? fun c => c.primaryKey with
    | none => exact .table hne
    | some c =>
      show Placed s (some columns) (if columns.isEmpty then _ else
        if PrimaryKey.sameNames columns [c.name] then _ else _)
      rw [if_neg (by simpa using hne)]
      by_cases hsame : PrimaryKey.sameNames columns [c.name] = true
      · rw [if_pos hsame]
        exact .inline (List.mem_of_find?_eq_some hfind) (sameNames_single.1 hsame)
      · rw [if_neg hsame]
        exact .table hne

/-! ## Fitting the key to the column that counts up -/

theorem Placed.isPresent {s : Statement} {columns : Option (List Text)} {key : PrimaryKey}
    (h : Placed s columns key) (hnames : ∀ c ∈ s.columns, c.name ≠ []) :
    key.isPresent = columns.isSome := by
  cases h with
  | table hne => simp [PrimaryKey.isPresent, hne]
  | inline hc hsame => simp [PrimaryKey.isPresent, hnames _ hc]
  | absent => rfl

theorem Placed.moveInline {s : Statement} {columns : Option (List Text)} {key : PrimaryKey}
    {c : Column} (h : Placed s columns key) (hc : c ∈ s.columns)
    (hmove : (key.moveInline c.name).1 = true) :
    columns.isSome = true ∧ Placed s columns (key.moveInline c.name).2 := by
  unfold PrimaryKey.moveInline at hmove ⊢
  split at hmove
  · rename_i hsame
    rw [if_pos hsame]
    cases h with
    | table hne => exact ⟨rfl, .inline hc (sameNames_single.1 hsame)⟩
    | inline _ _ => cases sameNames_single.1 hsame
    | absent => cases sameNames_single.1 hsame
  · cases hmove

theorem Placed.promote {s : Statement} {columns : Option (List Text)} {key : PrimaryKey}
    {c : Column} (h : Placed s columns key) (hnames : ∀ c ∈ s.columns, c.name ≠ [])
    (hc : c ∈ s.columns) :
    (key.promote c.name).1 = !columns.isSome ∧
      Placed s (some (columns.getD [c.name])) (key.promote c.name).2 := by
  have hpresent := h.isPresent hnames
  unfold PrimaryKey.promote
  rw [hpresent]
  cases h with
  | table hne => exact ⟨rfl, .table hne⟩
  | inline hc hsame => exact ⟨rfl, .inline hc hsame⟩
  | absent => exact ⟨rfl, .inline hc rfl⟩

theorem Placed.isSome_of_isInline {s : Statement} {columns : Option (List Text)} {key : PrimaryKey}
    {name : Text} (h : Placed s columns key) (hin : key.isInline name = true) :
    columns.isSome = true := by
  cases h with
  | table hne => cases hin
  | inline hc hsame => rfl
  | absent => cases hin

theorem isInline_moveInline {key : PrimaryKey} {name : Text} (h : (key.moveInline name).1 = true) :
    (key.moveInline name).2.isInline name = true := by
  unfold PrimaryKey.moveInline at h ⊢
  split at h
  · rename_i hsame
    rw [if_pos hsame]
    exact beq_self_eq_true _
  · cases h

theorem isInline_promote {key : PrimaryKey} {name : Text} (h : (key.promote name).1 = true) :
    (key.promote name).2.isInline name = true := by
  unfold PrimaryKey.promote at h ⊢
  split at h
  · cases h
  · rename_i hpresent
    rw [if_neg hpresent]
    exact beq_self_eq_true _

theorem outcome_promoted (key : PrimaryKey) (name : Text) :
    (Direction.fitKey.promoted name key).outcome = .ok (true, (key.promote name).2) := by
  unfold Direction.fitKey.promoted
  obtain ⟨moved, key'⟩ := key.promote name
  cases moved <;> rfl

/-- A key that is present keeps its columns, and one that is not takes the column
that counts up, except in SQL Server. In SQLite the column goes on counting only
as an inline key. -/
theorem Placed.fitKey {s : Statement} {columns : Option (List Text)} {key : PrimaryKey}
    {c : Column} (d : Direction) (h : Placed s columns key)
    (hnames : ∀ c ∈ s.columns, c.name ≠ []) (hc : c ∈ s.columns) :
    ∃ counts key', (d.fitKey key c.name).outcome = .ok (counts, key') ∧
      Placed s (if d.target = .sqlserver then columns else some (columns.getD [c.name])) key' ∧
      (d.target = .sqlite → counts = true → key'.isInline c.name = true) := by
  obtain ⟨hpromoted, hpromote⟩ := h.promote hnames hc
  have hkept : columns.isSome = true → some (columns.getD [c.name]) = columns := by
    intro hsome
    cases columns with
    | none => cases hsome
    | some columns => rfl
  have hmove := @Placed.moveInline s columns key c h hc
  have hinline := @isInline_moveInline key c.name
  obtain ⟨source, target, settings⟩ := d
  cases target with
  | mysql =>
    refine ⟨true, (key.promote c.name).2, ?_, hpromote, fun h => by cases h⟩
    exact outcome_promoted key c.name
  | postgresql =>
    rw [Direction.fitKey, show Dialect.postgresql.profile.autoIncrement = .serial from rfl]
    dsimp only
    generalize key.moveInline c.name = p at hmove ⊢
    obtain ⟨moved, key'⟩ := p
    cases moved with
    | true =>
      obtain ⟨hsome, hplaced⟩ := hmove rfl
      refine ⟨true, key', rfl, ?_, fun h => by cases h⟩
      show Placed s (some (columns.getD [c.name])) key'
      rw [hkept hsome]
      exact hplaced
    | false =>
      refine ⟨true, (key.promote c.name).2, ?_, hpromote, fun h => by cases h⟩
      exact outcome_promoted key c.name
  | sqlite =>
    rw [Direction.fitKey, show Dialect.sqlite.profile.autoIncrement = .rowid from rfl,
      if_neg (show Dialect.sqlite ≠ .sqlserver by decide)]
    dsimp only
    by_cases hin : key.isInline c.name = true
    · rw [if_pos hin]
      refine ⟨true, key, rfl, ?_, fun _ _ => hin⟩
      rw [hkept (h.isSome_of_isInline hin)]
      exact h
    · rw [if_neg hin]
      generalize key.moveInline c.name = p at hmove hinline ⊢
      obtain ⟨moved, key'⟩ := p
      cases moved with
      | true =>
        obtain ⟨hsome, hplaced⟩ := hmove rfl
        refine ⟨true, key', rfl, ?_, fun _ _ => hinline rfl⟩
        rw [hkept hsome]
        exact hplaced
      | false =>
        have hpromotedInline := @isInline_promote key c.name
        generalize key.promote c.name = p at hpromoted hpromote hpromotedInline ⊢
        obtain ⟨moved, key'⟩ := p
        cases moved with
        | true => exact ⟨true, key', rfl, hpromote, fun _ _ => hpromotedInline rfl⟩
        | false =>
          refine ⟨false, key, rfl, ?_, fun _ h => by cases h⟩
          have hsome : columns.isSome = true := by simpa using hpromoted
          rw [hkept hsome]
          exact h
  | sqlserver => exact ⟨true, key, rfl, h, fun h => by cases h⟩

theorem outcome_dropCounting (cs : List Column) : (Direction.dropCounting cs).outcome = .ok () := by
  induction cs with
  | nil => rfl
  | cons c cs ih =>
    rw [Direction.dropCounting, Traced.outcome_bind]
    show (_ >>= _ : Traced Unit).outcome = _
    rw [Traced.outcome_bind]
    exact ih

/-- If no column counts up, the key stays. Otherwise it is fitted to the first that
does. -/
theorem Direction.placeCounting_cases {d : Direction} {s : Statement} {start key : PrimaryKey}
    {counting : Option Nat} (h : (d.placeCounting s start).outcome = .ok (counting, key)) :
    (s.columns.find? Column.countsUp = none ∧ counting = none ∧ key = start) ∨
      ∃ c counts, s.columns.find? Column.countsUp = some c ∧
        (d.fitKey start c.name).outcome = .ok (counts, key) ∧
        counting = if counts then s.columns.findIdx? Column.countsUp else none := by
  have hhead := List.head?_filter (p := Column.countsUp) (l := s.columns)
  unfold Direction.placeCounting at h
  cases hfilter : s.columns.filter Column.countsUp with
  | nil =>
    rw [hfilter] at h hhead
    cases h
    exact .inl ⟨hhead.symm, rfl, rfl⟩
  | cons c more =>
    rw [hfilter] at h hhead
    obtain ⟨-, -, h⟩ := Traced.outcome_bind_ok h
    obtain ⟨⟨counts, key'⟩, hfit, h⟩ := Traced.outcome_bind_ok h
    cases h
    exact .inr ⟨c, counts, hhead.symm, hfit, rfl⟩

/-- The key that goes with the column that counts up stands for the key columns
of the target; that column is the first that counts up in the statement. -/
theorem Placed.placeCounting {s : Statement} {key : PrimaryKey} (d : Direction)
    (h : Placed s s.declaredKey? key) (hnames : ∀ c ∈ s.columns, c.name ≠ []) :
    ∃ counting key', (d.placeCounting s key).outcome = .ok (counting, key') ∧
      Placed s (d.keyColumns? s) key' ∧
      ∀ i, counting = some i → s.columns.findIdx? Column.countsUp = some i ∧
        ∀ c, s.columns[i]? = some c → d.target = .sqlite → key'.isInline c.name = true := by
  have hhead := List.head?_filter (p := Column.countsUp) (l := s.columns)
  unfold Direction.placeCounting Direction.keyColumns?
  cases hfilter : s.columns.filter Column.countsUp with
  | nil =>
    rw [hfilter] at hhead
    refine ⟨none, key, rfl, ?_, fun i hi => by cases hi⟩
    rw [← hhead]
    cases hdeclared : s.declaredKey? with
    | some columns => rw [hdeclared] at h; exact h
    | none => rw [hdeclared] at h; simpa using h
  | cons c more =>
    rw [hfilter, List.head?_cons] at hhead
    have hc := List.mem_of_find?_eq_some hhead.symm
    obtain ⟨counts, key', hfit, hplaced, hrowid⟩ := h.fitKey d hnames hc
    refine ⟨if counts then s.columns.findIdx? Column.countsUp else none, key', ?_, ?_, ?_⟩
    · show (_ >>= _ : Traced _).outcome = _
      rw [Traced.outcome_bind, outcome_dropCounting]
      show (_ >>= _ : Traced _).outcome = _
      rw [Traced.outcome_bind, hfit]
      rfl
    · rw [← hhead]
      cases hdeclared : s.declaredKey? with
      | some columns =>
        rw [hdeclared] at hplaced
        simpa using hplaced
      | none =>
        rw [hdeclared] at hplaced
        exact hplaced
    · intro i hi
      cases counts with
      | false => cases hi
      | true =>
        refine ⟨hi, ?_⟩
        intro c' hc' htarget
        have hcc : c' = c := by
          have hi : s.columns.findIdx? Column.countsUp = some i := hi
          rw [List.find?_eq_bind_findIdx?_getElem?, hi] at hhead
          exact Option.some.inj (hc'.symm.trans hhead.symm)
        rw [hcc]
        exact hrowid htarget rfl

/-! ## What the clauses designate -/

/-- The columns that a clause designates as a primary key. -/
def RenderedClause.designations : RenderedClause → List (List Text)
  | .column c parts => if Declares .primaryKey parts then [[c.name]] else []
  | .primaryKey columns _ => [columns]
  | .constraint _ _ => []

def designations (cs : List RenderedClause) : List (List Text) :=
  cs.flatMap RenderedClause.designations

namespace Direction
variable {d : Direction}

theorem columnClauses_get {key : PrimaryKey} {counting : Option Nat} {i : Nat} {cs : List Column}
    {out : List RenderedClause} (h : (d.columnClauses key counting i cs).outcome = .ok out) :
    out.length = cs.length ∧ ∀ (j : Nat) clause, out[j]? = some clause →
      ∃ c parts, clause = .column c parts ∧ cs[j]? = some c ∧
        (d.column key (counting == some (i + j)) c).outcome = .ok parts := by
  induction cs generalizing i out with
  | nil =>
    cases h
    exact ⟨rfl, fun j clause hj => by cases hj⟩
  | cons c cs ih =>
    rw [columnClauses] at h
    obtain ⟨parts, hparts, h⟩ := Traced.outcome_bind_ok h
    obtain ⟨rest, hrest, h⟩ := Traced.outcome_bind_ok h
    cases h
    obtain ⟨hlen, hget⟩ := ih hrest
    refine ⟨by rw [List.length_cons, List.length_cons, hlen], ?_⟩
    intro j clause hj
    cases j with
    | zero =>
      cases hj
      exact ⟨c, parts, rfl, rfl, hparts⟩
    | succ j =>
      obtain ⟨c', parts', rfl, hc', hparts'⟩ := hget j clause hj
      refine ⟨c', parts', rfl, hc', ?_⟩
      rw [Nat.add_right_comm] at hparts'
      exact hparts'

theorem designations_append (cs cs' : List RenderedClause) :
    designations (cs ++ cs') = designations cs ++ designations cs' := List.flatMap_append

/-- Where the text that is passed on keeps to the key, the columns designate it where
it is inline. -/
theorem designations_columnClauses {key : PrimaryKey} {counting : Option Nat} {i : Nat}
    {cs : List Column} {out : List RenderedClause}
    (h : (d.columnClauses key counting i cs).outcome = .ok out)
    (hrowid : ∀ (j : Nat) c, counting = some (i + j) → cs[j]? = some c → d.target = .sqlite →
      key.isInline c.name = true)
    (hkept : ∀ (j : Nat) c, cs[j]? = some c → d.Passes .primaryKey (counting == some (i + j)) c →
      key.isInline c.name = true) :
    designations out = (cs.filter fun c => key.isInline c.name).map fun c => [c.name] := by
  induction cs generalizing i out with
  | nil => cases h; rfl
  | cons c cs ih =>
    rw [columnClauses] at h
    obtain ⟨parts, hparts, h⟩ := Traced.outcome_bind_ok h
    obtain ⟨rest, hrest, h⟩ := Traced.outcome_bind_ok h
    cases h
    have hdeclares := primaryKey_column hparts fun hcounts => hrowid 0 c (beq_iff_eq.1 hcounts) rfl
    have hfirst : d.Passes .primaryKey (counting == some i) c → key.isInline c.name = true := hkept 0 c rfl
    rw [or_iff_left_of_imp hfirst] at hdeclares
    have hnext : ∀ j, i + 1 + j = i + (j + 1) := fun j => by omega
    have hrest := ih hrest (fun j c' hj hc' => hrowid (j + 1) c' (by rw [hj, hnext]) hc')
      fun j c' hc' hpasses => hkept (j + 1) c' hc' (hnext j ▸ hpasses)
    show (if Declares .primaryKey parts then [[c.name]] else []) ++ designations rest = _
    rw [hrest, List.filter_cons]
    cases hin : key.isInline c.name with
    | true => rw [if_pos (hdeclares.2 hin), if_pos rfl]; rfl
    | false =>
      rw [if_neg fun hkey => absurd (hdeclares.1 hkey) (by simp [hin]), if_neg Bool.false_ne_true]
      rfl

theorem designations_keyClause (key : Option PrimaryKey) :
    designations (d.keyClause key) = (key.map fun k => k.tableColumns).toList := by
  cases key <;> rfl

/-- What a constraint adds: a key in its place the key of the table, and any other
constraint the clause that is written for it, if there is one. -/
theorem constraintClauses_cases {table : Text} {key : Option PrimaryKey} {c : Constraint}
    {cs : List Constraint} {out : List RenderedClause}
    (h : (d.constraintClauses table key (c :: cs)).outcome = .ok out) :
    (∃ name columns rest, c = .primaryKey name columns ∧
        (d.constraintClauses table none cs).outcome = .ok rest ∧ out = d.keyClause key ++ rest) ∨
      ∃ text rest, (d.constraint table c).outcome = .ok text ∧
        (d.constraintClauses table key cs).outcome = .ok rest ∧
          out = (text.map (RenderedClause.constraint c)).toList ++ rest := by
  by_cases hc : ∃ name columns, c = .primaryKey name columns
  · obtain ⟨name, columns, rfl⟩ := hc
    rw [constraintClauses_key] at h
    cases hrest : (d.constraintClauses table none cs).outcome with
    | error e => rw [hrest] at h; cases h
    | ok rest =>
      rw [hrest] at h
      cases h
      exact .inl ⟨name, columns, rest, rfl, rfl, rfl⟩
  · rw [constraintClauses_cons d fun name columns h => hc ⟨name, columns, h⟩] at h
    cases htext : (d.constraint table c).outcome with
    | error e => rw [htext] at h; cases h
    | ok text =>
      cases hrest : (d.constraintClauses table key cs).outcome with
      | error e => rw [htext, hrest] at h; cases h
      | ok rest =>
        rw [htext, hrest] at h
        cases h
        exact .inr ⟨text, rest, rfl, rfl, rfl⟩

theorem constraintClauses_no_column {table : Text} {key : Option PrimaryKey} {cs : List Constraint}
    {out : List RenderedClause} (h : (d.constraintClauses table key cs).outcome = .ok out)
    (c : Column) (parts : List ColumnPart) : .column c parts ∉ out := by
  have hkeyClause : ∀ key : Option PrimaryKey, .column c parts ∉ d.keyClause key := by
    intro key hin
    cases key with
    | none => cases hin
    | some key => cases List.mem_singleton.1 hin
  induction cs generalizing key out with
  | nil =>
    cases h
    exact hkeyClause key
  | cons a cs ih =>
    intro hin
    rcases constraintClauses_cases h with ⟨name, columns, rest, rfl, hrest, rfl⟩ | ⟨text, rest, htext, hrest, rfl⟩
    · rcases List.mem_append.1 hin with hin | hin
      · exact hkeyClause key hin
      · exact ih hrest hin
    · rcases List.mem_append.1 hin with hin | hin
      · cases text with
        | none => cases hin
        | some text => cases List.mem_singleton.1 hin
      · exact ih hrest hin

theorem designations_constraintClauses {table : Text} {key : Option PrimaryKey}
    {cs : List Constraint} {out : List RenderedClause}
    (h : (d.constraintClauses table key cs).outcome = .ok out) :
    designations out = (key.map fun k => k.tableColumns).toList := by
  induction cs generalizing key out with
  | nil =>
    cases h
    exact designations_keyClause key
  | cons c cs ih =>
    rcases constraintClauses_cases h with ⟨name, columns, rest, rfl, hrest, rfl⟩ | ⟨text, rest, htext, hrest, rfl⟩
    · rw [designations_append, designations_keyClause, ih hrest]
      exact List.append_nil _
    · rw [designations_append, ih hrest]
      cases text <;> rfl

end Direction

/-! ## One key -/

/-- The columns have names, no two of them the same up to letter case. -/
def Statement.NamesApart (s : Statement) : Prop :=
  (∀ c ∈ s.columns, c.name ≠ []) ∧
    s.columns.Pairwise fun a b => Text.sameName a.name b.name = false

instance (s : Statement) : Decidable s.NamesApart := inferInstanceAs (Decidable (_ ∧ _))

theorem sameName_self (a : Text) : Text.sameName a a = true := beq_self_eq_true _

theorem sameName_comm (a b : Text) : Text.sameName a b = Text.sameName b a := by
  unfold Text.sameName
  rw [Bool.beq_comm]

theorem filter_sameName {cs : List Column} {c : Column}
    (h : cs.Pairwise fun a b => Text.sameName a.name b.name = false) (hc : c ∈ cs) :
    cs.filter (fun b => Text.sameName c.name b.name) = [c] := by
  induction cs with
  | nil => cases hc
  | cons a cs ih =>
    obtain ⟨ha, hcs⟩ := List.pairwise_cons.1 h
    rw [List.filter_cons]
    rcases List.mem_cons.1 hc with rfl | hc
    · rw [if_pos (sameName_self c.name)]
      congr 1
      rw [List.filter_eq_nil_iff]
      intro b hb
      rw [ha b hb]
      exact Bool.false_ne_true
    · rw [sameName_comm, ha c hc, if_neg Bool.false_ne_true]
      exact ih hcs hc

theorem Placed.designated {s : Statement} {columns : Option (List Text)} {key : PrimaryKey}
    (h : Placed s columns key) (hnames : s.NamesApart) :
    (((s.columns.filter fun c => key.isInline c.name).map fun c => [c.name]) ++
      ((if key.tableColumns.isEmpty then none else some key).map fun k => k.tableColumns).toList).map
        (List.map Text.lower) = (columns.map (List.map Text.lower)).toList := by
  cases h with
  | @table columns name hne =>
    have hnone : (s.columns.filter fun c => PrimaryKey.isInline ⟨columns, name, none⟩ c.name) = [] :=
      List.filter_eq_nil_iff.2 fun c _ h => by cases h
    have hempty : ¬ columns.isEmpty = true := by simpa using hne
    rw [hnone, if_neg hempty]
    rfl
  | @inline columns name c hc hsame =>
    have hone : (s.columns.filter fun b => PrimaryKey.isInline ⟨[], name, some c.name⟩ b.name) = [c] :=
      filter_sameName hnames.2 hc
    rw [hone]
    show [[Text.lower c.name]] = [columns.map Text.lower]
    rw [hsame]
  | @absent name =>
    have hnone : (s.columns.filter fun c => PrimaryKey.isInline ⟨[], name, none⟩ c.name) = [] :=
      List.filter_eq_nil_iff.2 fun c _ h => by cases h
    rw [hnone]
    rfl

/-- An inline key is designated at the column it is inline at. -/
theorem Placed.designated_inline {s : Statement} {columns : Option (List Text)} {key : PrimaryKey}
    {c : Column} (h : Placed s columns key) (hnames : s.NamesApart) (hc : c ∈ s.columns)
    (hin : key.isInline c.name = true) :
    ((s.columns.filter fun c => key.isInline c.name).map fun c => [c.name]) ++
      ((if key.tableColumns.isEmpty then none else some key).map fun k => k.tableColumns).toList =
        [[c.name]] := by
  cases h with
  | table hne => cases hin
  | @inline columns name c' hc' hsame =>
    have hone : (s.columns.filter fun b => PrimaryKey.isInline ⟨[], name, some c'.name⟩ b.name) = [c'] :=
      filter_sameName hnames.2 hc'
    have hmem : c ∈ [c'] := by
      rw [← hone]
      exact List.mem_filter.2 ⟨hc, hin⟩
    rw [hone, List.mem_singleton.1 hmem]
    rfl
  | absent => cases hin

/-- The rendered clauses of a statement designate one key at most and count up at
one column at most, where `key` is the key once it is fitted to the target. -/
structure OneKey (d : Direction) (s : Statement) (key : PrimaryKey) (cs : List RenderedClause) : Prop where
  atMostOne : (designations cs).length ≤ 1
  one_iff : (designations cs).length = 1 ↔ key.isPresent = true
  /-- The key is the one that the target has for the statement, letter case
  apart. -/
  columns : (designations cs).map (List.map Text.lower) =
    ((d.keyColumns? s).map (List.map Text.lower)).toList
  counting : ∀ (i j : Nat) a b parts parts', cs[i]? = some (.column a parts) →
    cs[j]? = some (.column b parts') → Declares (.counting d.target) parts →
      Declares (.counting d.target) parts' → i = j
  /-- In SQLite the column that counts up is the one inline key. -/
  rowid : d.target = .sqlite → ∀ c parts, .column c parts ∈ cs → Declares (.counting d.target) parts →
    Declares .primaryKey parts ∧ designations cs = [[c.name]]

/-- The column at the place counts up: it is the one chosen to, or its text says so. -/
def Direction.CountsUpAt (d : Direction) (counting : Option Nat) (i : Nat) (c : Column) : Prop :=
  counting = some i ∨ d.Passes (.counting d.target) (counting == some i) c

/-- The text of the columns that is passed on says PRIMARY KEY only at the inline key,
and leaves one column that counts up, in SQLite the inline key. -/
structure TextKeepsKey (d : Direction) (s : Statement) (counting : Option Nat) (key : PrimaryKey) : Prop where
  inline : ∀ (i : Nat) c, s.columns[i]? = some c → d.Passes .primaryKey (counting == some i) c →
    key.isInline c.name = true
  single : ∀ (i j : Nat) a b, s.columns[i]? = some a → s.columns[j]? = some b →
    d.CountsUpAt counting i a → d.CountsUpAt counting j b → i = j
  rowid : d.target = .sqlite → ∀ (i : Nat) c, s.columns[i]? = some c →
    d.Passes (.counting d.target) (counting == some i) c → key.isInline c.name = true

theorem clauses_cases {d : Direction} {s : Statement} {cs : List RenderedClause}
    (h : (d.clauses s).outcome = .ok cs) :
    ∃ start counting key columns constraints, (PrimaryKey.ofStatement s).outcome = .ok start ∧
      (d.placeCounting s start).outcome = .ok (counting, key) ∧
      (d.columnClauses key counting 0 s.columns).outcome = .ok columns ∧
      (d.constraintClauses s.table.name (if key.tableColumns.isEmpty then none else some key)
        s.constraints).outcome = .ok constraints ∧ cs = columns ++ constraints := by
  unfold Direction.clauses at h
  obtain ⟨start, hstart, h⟩ := Traced.outcome_bind_ok h
  obtain ⟨⟨counting, key⟩, hplace, h⟩ := Traced.outcome_bind_ok h
  obtain ⟨columns, hcolumns, h⟩ := Traced.outcome_bind_ok h
  obtain ⟨constraints, hconstraints, h⟩ := Traced.outcome_bind_ok h
  cases h
  exact ⟨start, counting, key, columns, constraints, hstart, hplace, hcolumns, hconstraints, rfl⟩

/-- A column clause is the column at its place, and counts up only at the place
chosen. -/
theorem column_of_clauses {d : Direction} {table : Text} {key : PrimaryKey} {tableKey : Option PrimaryKey}
    {counting : Option Nat} {cs : List Column} {ks : List Constraint} {columns constraints : List RenderedClause}
    (hcolumns : (d.columnClauses key counting 0 cs).outcome = .ok columns)
    (hconstraints : (d.constraintClauses table tableKey ks).outcome = .ok constraints)
    {i : Nat} {c : Column} {parts : List ColumnPart}
    (hi : (columns ++ constraints)[i]? = some (.column c parts)) :
    cs[i]? = some c ∧ (d.column key (counting == some i) c).outcome = .ok parts := by
  by_cases hlt : i < columns.length
  · rw [List.getElem?_append_left hlt] at hi
    obtain ⟨c', parts', heq, hc', hparts'⟩ := (Direction.columnClauses_get hcolumns).2 i _ hi
    cases heq
    rw [Nat.zero_add] at hparts'
    exact ⟨hc', hparts'⟩
  · rw [List.getElem?_append_right (by omega)] at hi
    exact absurd (List.mem_of_getElem? hi)
      (Direction.constraintClauses_no_column hconstraints c parts)

theorem clause_of_column {d : Direction} {key : PrimaryKey} {counting : Option Nat} {cs : List Column}
    {columns : List RenderedClause} (constraints : List RenderedClause)
    (hcolumns : (d.columnClauses key counting 0 cs).outcome = .ok columns) {i : Nat} {c : Column}
    (hi : cs[i]? = some c) :
    ∃ parts, (columns ++ constraints)[i]? = some (.column c parts) := by
  obtain ⟨hlength, hget⟩ := Direction.columnClauses_get hcolumns
  obtain ⟨hlt, -⟩ := List.getElem?_eq_some_iff.1 hi
  have hclause : columns[i]? = some columns[i] := List.getElem?_eq_getElem (hlength ▸ hlt)
  obtain ⟨c', parts, heq, hc', -⟩ := hget i _ hclause
  cases hi.symm.trans hc'
  exact ⟨parts, by rw [List.getElem?_append_left (hlength ▸ hlt), hclause, heq]⟩

theorem mem_designations {cs : List RenderedClause} {c : Column} {parts : List ColumnPart}
    (h : .column c parts ∈ cs) (hkey : Declares .primaryKey parts) : [c.name] ∈ designations cs := by
  refine List.mem_flatMap.2 ⟨_, h, ?_⟩
  rw [RenderedClause.designations, if_pos hkey]
  exact List.mem_singleton_self _

/-- A column that the clauses designate beside a key in its place is the inline key, if
they designate no other. -/
theorem Placed.isInline_of_designated {s : Statement} {columns : Option (List Text)} {key : PrimaryKey}
    {c : Column} {own table : List (List Text)} (h : Placed s columns key) (hc : [c.name] ∈ own)
    (htable : table = ((if key.tableColumns.isEmpty then none else some key).map fun k => k.tableColumns).toList)
    (hone : (own ++ table).length ≤ 1)
    (hcolumns : (own ++ table).map (List.map Text.lower) = (columns.map (List.map Text.lower)).toList) :
    key.isInline c.name = true := by
  have hmem : [Text.lower c.name] ∈ (columns.map (List.map Text.lower)).toList := by
    rw [← hcolumns]
    exact List.mem_map.2 ⟨[c.name], List.mem_append_left _ hc, rfl⟩
  cases h with
  | @table columns name hne =>
    have hempty : ¬ columns.isEmpty = true := by simpa using hne
    rw [if_neg hempty] at htable
    have hpos := List.length_pos_of_mem hc
    rw [htable, List.length_append, Option.map_some, Option.toList_some, List.length_singleton] at hone
    omega
  | @inline columns name c' hc' hsame =>
    have heq : [Text.lower c.name] = columns.map Text.lower := by simpa using hmem
    rw [hsame] at heq
    exact beq_iff_eq.2 (List.cons.inj heq).1.symm
  | absent => cases hmem

section OneKey
variable {d : Direction} {s : Statement} {counting : Option Nat} {key : PrimaryKey}
  {columns constraints : List RenderedClause}
variable (hcolumns : (d.columnClauses key counting 0 s.columns).outcome = .ok columns)
  (hconstraints : (d.constraintClauses s.table.name (if key.tableColumns.isEmpty then none else some key)
    s.constraints).outcome = .ok constraints)
  (hrowid : ∀ (i : Nat) c, counting = some i → s.columns[i]? = some c → d.target = .sqlite →
    key.isInline c.name = true)
include hcolumns hconstraints hrowid

/-- A column clause declares the key where it is inline and counts up where it is chosen
to, or where the text that is passed on says so. -/
theorem declares_clause (i : Nat) (c : Column) (parts : List ColumnPart)
    (hi : (columns ++ constraints)[i]? = some (.column c parts)) :
    s.columns[i]? = some c ∧
      (Declares .primaryKey parts ↔ key.isInline c.name = true ∨ d.Passes .primaryKey (counting == some i) c) ∧
      (Declares (.counting d.target) parts ↔ d.CountsUpAt counting i c) := by
  obtain ⟨hc, hparts⟩ := column_of_clauses hcolumns hconstraints hi
  have hcounting := Direction.counting_column hparts
  rw [beq_iff_eq] at hcounting
  exact ⟨hc, Direction.primaryKey_column hparts fun hi => hrowid i c (beq_iff_eq.1 hi) hc, hcounting⟩

theorem OneKey.textKeepsKey (hplaced : Placed s (d.keyColumns? s) key)
    (hone : OneKey d s key (columns ++ constraints)) : TextKeepsKey d s counting key := by
  have hcolumn := declares_clause hcolumns hconstraints hrowid
  have hkept : ∀ (i : Nat) c, s.columns[i]? = some c → d.Passes .primaryKey (counting == some i) c →
      key.isInline c.name = true := by
    intro i c hc hpasses
    obtain ⟨parts, hi⟩ := clause_of_column constraints hcolumns hc
    have hin : .column c parts ∈ columns := (List.mem_append.1 (List.mem_of_getElem? hi)).resolve_right
      (Direction.constraintClauses_no_column hconstraints c parts)
    have honly := hone.atMostOne
    have hsame := hone.columns
    rw [Direction.designations_append] at honly hsame
    exact hplaced.isInline_of_designated (mem_designations hin ((hcolumn i c parts hi).2.1.2 (.inr hpasses)))
      (Direction.designations_constraintClauses hconstraints) honly hsame
  refine ⟨hkept, fun i j a b ha hb hi hj => ?_, fun htarget i c hc hpasses => ?_⟩
  · obtain ⟨parts, hclause⟩ := clause_of_column constraints hcolumns ha
    obtain ⟨parts', hclause'⟩ := clause_of_column constraints hcolumns hb
    exact hone.counting i j a b parts parts' hclause hclause' ((hcolumn i a parts hclause).2.2.2 hi)
      ((hcolumn j b parts' hclause').2.2.2 hj)
  · obtain ⟨parts, hclause⟩ := clause_of_column constraints hcolumns hc
    obtain ⟨-, hkey, hcounting⟩ := hcolumn i c parts hclause
    have hinline := (hone.rowid htarget c parts (List.mem_of_getElem? hclause) (hcounting.2 (.inr hpasses))).1
    exact (hkey.1 hinline).elim id (hkept i c hc)

theorem TextKeepsKey.oneKey (hplaced : Placed s (d.keyColumns? s) key) (hnames : s.NamesApart)
    (hkeeps : TextKeepsKey d s counting key) : OneKey d s key (columns ++ constraints) := by
  have hcolumn := declares_clause hcolumns hconstraints hrowid
  have hdesignations : designations (columns ++ constraints) =
      ((s.columns.filter fun c => key.isInline c.name).map fun c => [c.name]) ++
        ((if key.tableColumns.isEmpty then none else some key).map fun k => k.tableColumns).toList := by
    rw [Direction.designations_append, Direction.designations_constraintClauses hconstraints,
      Direction.designations_columnClauses hcolumns]
    · exact fun j c hj => hrowid j c (by rw [hj, Nat.zero_add])
    · exact fun j c hc hpasses => hkeeps.inline j c hc (by rwa [Nat.zero_add] at hpasses)
  have hkey := hplaced.designated hnames
  rw [← hdesignations] at hkey
  have hcount : (designations (columns ++ constraints)).length = (d.keyColumns? s).toList.length := by
    rw [← List.length_map (List.map Text.lower), hkey]
    cases d.keyColumns? s <;> rfl
  refine ⟨?_, ?_, hkey, ?_, ?_⟩
  · rw [hcount]
    cases d.keyColumns? s <;> simp
  · rw [hcount, hplaced.isPresent hnames.1]
    cases d.keyColumns? s <;> simp
  · intro i j a b parts parts' hi hj ha hb
    obtain ⟨hsa, -, hca⟩ := hcolumn i a parts hi
    obtain ⟨hsb, -, hcb⟩ := hcolumn j b parts' hj
    exact hkeeps.single i j a b hsa hsb (hca.1 ha) (hcb.1 hb)
  · intro htarget c parts hmem hcounting
    obtain ⟨i, hi⟩ := List.mem_iff_getElem?.1 hmem
    obtain ⟨hc, hdeclares, hcounts⟩ := hcolumn i c parts hi
    have hinline : key.isInline c.name = true :=
      (hcounts.1 hcounting).elim (fun hi => hrowid i c hi hc htarget) (hkeeps.rowid htarget i c hc)
    refine ⟨hdeclares.2 (.inl hinline), ?_⟩
    rw [hdesignations]
    exact hplaced.designated_inline hnames (List.mem_of_getElem? hc) hinline

end OneKey

/-- Of a statement whose columns have names of their own, the clauses in any dialect
declare a key where it is inline and count up at the column chosen to, the first that
does in the statement, and beyond that only in the text that is passed on. So they
designate one key at most, and count up at one column at most, exactly if that text
keeps to the key. -/
theorem clauses_one_key_iff (d : Direction) (s : Statement) (cs : List RenderedClause)
    (hnames : s.NamesApart) (h : (d.clauses s).outcome = .ok cs) :
    ∃ counting key, (PrimaryKey.ofStatement s >>= d.placeCounting s).outcome = .ok (counting, key) ∧
      (∀ i, counting = some i → s.columns.findIdx? Column.countsUp = some i) ∧
      (∀ (i : Nat) c parts, cs[i]? = some (.column c parts) → s.columns[i]? = some c ∧
        (Declares .primaryKey parts ↔
          key.isInline c.name = true ∨ d.Passes .primaryKey (counting == some i) c) ∧
        (Declares (.counting d.target) parts ↔ d.CountsUpAt counting i c)) ∧
      (OneKey d s key cs ↔ TextKeepsKey d s counting key) := by
  obtain ⟨start, counting, key, columns, constraints, hstart, hplace, hcolumns, hconstraints, rfl⟩ :=
    clauses_cases h
  obtain ⟨start', hstart', hplaced⟩ := placed_ofStatement s
  cases hstart.symm.trans hstart'
  obtain ⟨counting', key', hplace', hplaced', hcounts⟩ := hplaced.placeCounting d hnames.1
  cases hplace.symm.trans hplace'
  have hrowid : ∀ (i : Nat) c, counting = some i → s.columns[i]? = some c → d.target = .sqlite →
      key.isInline c.name = true := fun i c hi hc => (hcounts i hi).2 c hc
  refine ⟨counting, key, ?_, fun i hi => (hcounts i hi).1, declares_clause hcolumns hconstraints hrowid, ?_, ?_⟩
  · rw [Traced.outcome_bind, hstart]
    exact hplace
  · exact OneKey.textKeepsKey hcolumns hconstraints hrowid hplaced'
  · exact TextKeepsKey.oneKey hcolumns hconstraints hrowid hplaced' hnames

theorem eq_ok_of_toOption {ε α : Type} {x : Except ε α} {a : α} (h : x.toOption = some a) :
    x = .ok a := by
  cases x with
  | error e => cases h
  | ok b => exact congrArg Except.ok (Option.some.inj h)

/-- A quoted keyword among the tokens without meaning is a second key. -/
theorem clauses_one_key_iff_quoted :
    let d : Direction := { source := .mysql, target := .postgresql }
    let a : Column := { name := ['a'], baseType := "int".toList, primaryKey := true }
    let b : Column := { name := ['b'], baseType := "int".toList
                        extra := [⟨.ident, "`PRIMARY`", 6, true⟩, ⟨.word, "KEY", 16, true⟩] }
    let s : Statement := ⟨⟨none, ['t']⟩, false, false, [a, b], [], []⟩
    let cs : List RenderedClause := [
      .column a [.name "\"a\"".toList, .type "INTEGER".toList, .primaryKey],
      .column b [.name "\"b\"".toList, .type "INTEGER".toList, .extra "PRIMARY KEY".toList]]
    s.NamesApart ∧ (d.clauses s).outcome = .ok cs ∧ designations cs = [[['a']], [['b']]] ∧
      ∃ counting key, (PrimaryKey.ofStatement s >>= d.placeCounting s).outcome = .ok (counting, key) ∧
        ¬ OneKey d s key cs ∧ ¬ TextKeepsKey d s counting key := by
  intro d a b s cs
  have hnames : s.NamesApart := by decide
  have hclauses : (d.clauses s).outcome = .ok cs := eq_ok_of_toOption (by decide +kernel)
  have htwo : designations cs = [[['a']], [['b']]] := by decide +kernel
  obtain ⟨counting, key, hplaced, -, -, hiff⟩ := clauses_one_key_iff d s cs hnames hclauses
  have hnot : ¬ OneKey d s key cs := by
    intro hone
    have hlength := hone.atMostOne
    rw [htwo] at hlength
    exact absurd hlength (by decide)
  exact ⟨hnames, hclauses, htwo, counting, key, hplaced, hnot, fun hkeeps => hnot (hiff.2 hkeeps)⟩

end TableDialects
