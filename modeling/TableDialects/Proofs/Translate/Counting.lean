import TableDialects.Proofs.Translate.Constraint
import TableDialects.Proofs.Translate.Key

/- The key of the column that counts up. MySQL and SQLite let a column count up only
   if it belongs to a key. In SQLite the column is made the key of its table, or
   stops counting up where the key is another one. In MySQL it is made the key of a
   table that has none, but goes on counting up beside a key on other columns. The
   text that is passed on may also count up, or make a key.

   `Direction.placeCounting_keyed` says which column is chosen to count up and when the
   key covers it, `Direction.inKey_iff` when the clauses hold a column in a key. The
   theorem says of every column whether it counts up and whether it belongs to a key,
   and so when each that counts up belongs to one (`clauses_counting_in_key_iff`). -/
namespace TableDialects

/-! ## Columns in keys -/

/-- Whether a uniqueness or an index of the table lists the column. -/
def Constraint.lists (name : Text) : Constraint → Bool
  | .unique _ columns => columns.any fun c => Text.sameName name c
  | .index _ columns _ => columns.any fun c => Text.sameName name c
  | _ => false

/-- Whether a rendered clause is a key of the table that lists the column. -/
def RenderedClause.lists (name : Text) : RenderedClause → Bool
  | .column _ _ => false
  | .primaryKey columns _ => columns.any fun c => Text.sameName name c
  | .constraint k _ => k.lists name

/-- The column belongs to a key of the rendered statement: its own clause declares it,
or a clause lists it. -/
def InKey (cs : List RenderedClause) (c : Column) (parts : List ColumnPart) : Prop :=
  Declares .primaryKey parts ∨ Declares .unique parts ∨ ∃ clause ∈ cs, clause.lists c.name = true

/-- By the statement the column at the place belongs to a key: the key covers it, it is
unique, the text that is passed on makes it a key or unique, or a uniqueness or an index
that the target can write lists it. -/
def Direction.Keyed (d : Direction) (s : Statement) (counting : Option Nat) (key : PrimaryKey) (i : Nat)
    (c : Column) : Prop :=
  key.covers c.name = true ∨ c.unique = true ∨ d.Passes .primaryKey (counting == some i) c ∨
    d.Passes .unique (counting == some i) c ∨ ∃ k ∈ s.constraints, k.lists c.name = true ∧ k.IsKept d.target

namespace PrimaryKey

theorem covers_promote (key : PrimaryKey) (name : Text) :
    (key.promote name).2.covers name = true ↔ key.isPresent = false ∨ key.covers name = true := by
  unfold promote
  cases hpresent : key.isPresent with
  | true => simp
  | false =>
    have hinline : isInline { key with inlineColumn := some name } name = true := sameName_self name
    simp [covers, hinline]

theorem lists_tableKey (key : PrimaryKey) (name : Text) :
    (∃ k ∈ (if key.tableColumns.isEmpty then none else some key),
        (k.tableColumns.any fun c => Text.sameName name c) = true) ↔
      (key.tableColumns.any fun c => Text.sameName name c) = true := by
  split
  · rename_i hempty
    rw [List.isEmpty_iff.1 hempty]
    simp
  · simp

end PrimaryKey

namespace Direction
variable {d : Direction} {key : PrimaryKey} {s : Statement} {c : Column} {parts : List ColumnPart}

/-! ## Clauses that list a column -/

/-- A uniqueness or an index is written where the target has a form for it. -/
theorem constraint_listed {table name : Text} {k : Constraint} {text : Option Text}
    (h : (d.constraint table k).outcome = .ok text) (hk : k.lists name = true) :
    text.isSome = true ↔ k.IsKept d.target := by
  cases k with
  | unique _ columns =>
    cases h
    exact iff_of_true rfl trivial
  | index label columns type =>
    change (d.indexClause table label columns type).outcome = .ok text at h
    unfold indexClause at h
    show _ ↔ d.target = .mysql ∨ d.target = .sqlserver ∧ type = none
    rw [← d.keepsIndex_iff type]
    cases hkeeps : d.keepsIndex type with
    | false =>
      rw [hkeeps] at h
      cases h
      exact Iff.rfl
    | true =>
      rw [hkeeps, if_pos rfl] at h
      split at h <;> cases h <;> exact Iff.rfl
  | primaryKey _ _ => cases hk
  | foreignKey _ _ _ => cases hk
  | check _ _ => cases hk

theorem lists_keyClause (name : Text) (tableKey : Option PrimaryKey) :
    (∃ clause ∈ d.keyClause tableKey, clause.lists name = true) ↔
      ∃ k ∈ tableKey, (k.tableColumns.any fun c => Text.sameName name c) = true := by
  cases tableKey <;> simp [keyClause, RenderedClause.lists]

/-- A column is listed by the clauses of the constraints if it is by the key or by a
constraint that is written. -/
theorem lists_constraintClauses {table : Text} (name : Text) {tableKey : Option PrimaryKey}
    {ks : List Constraint} {out : List RenderedClause}
    (h : (d.constraintClauses table tableKey ks).outcome = .ok out) :
    (∃ clause ∈ out, clause.lists name = true) ↔
      (∃ k ∈ tableKey, (k.tableColumns.any fun c => Text.sameName name c) = true) ∨
        ∃ k ∈ ks, k.lists name = true ∧ k.IsKept d.target := by
  induction ks generalizing tableKey out with
  | nil =>
    cases h
    rw [lists_keyClause]
    simp
  | cons k ks ih =>
    rcases constraintClauses_cases h with ⟨label, columns, rest, rfl, hrest, rfl⟩ | ⟨text, rest, htext, hrest, rfl⟩
    · have hkey := lists_keyClause (d := d) name tableKey
      have hrest := ih hrest
      simp only [Option.not_mem_none, false_and, exists_false, false_or] at hrest
      simp only [List.mem_append, or_and_right, exists_or, hkey, hrest, List.mem_cons]
      simp [Constraint.lists]
    · have hown : (∃ clause ∈ (text.map (RenderedClause.constraint k)).toList, clause.lists name = true) ↔
          k.lists name = true ∧ k.IsKept d.target := by
        cases hlists : k.lists name with
        | false => cases text <;> simp [RenderedClause.lists, hlists]
        | true =>
          rw [← constraint_listed htext hlists]
          cases text <;> simp [RenderedClause.lists, hlists]
      simp only [List.mem_append, or_and_right, exists_or, hown, ih hrest, List.mem_cons, exists_eq_left]
      exact or_left_comm

theorem lists_columnClauses {counting : Option Nat} {i : Nat} {columns : List Column} {out : List RenderedClause}
    (h : (d.columnClauses key counting i columns).outcome = .ok out) (name : Text) :
    ¬ ∃ clause ∈ out, clause.lists name = true := by
  rintro ⟨clause, hin, hlists⟩
  obtain ⟨j, hj⟩ := List.mem_iff_getElem?.1 hin
  obtain ⟨c, parts, rfl, -⟩ := (columnClauses_get h).2 j clause hj
  cases hlists

/-- A column belongs to a key of the clauses exactly if it does by the statement. -/
theorem inKey_iff {counting : Option Nat} {i : Nat} {columns constraints : List RenderedClause}
    (hcolumns : (d.columnClauses key counting 0 s.columns).outcome = .ok columns)
    (hconstraints : (d.constraintClauses s.table.name (if key.tableColumns.isEmpty then none else some key)
      s.constraints).outcome = .ok constraints)
    (hparts : (d.column key (counting == some i) c).outcome = .ok parts)
    (hrowid : counting = some i → d.target = .sqlite → key.isInline c.name = true) :
    InKey (columns ++ constraints) c parts ↔ d.Keyed s counting key i c := by
  have hlists : (∃ clause ∈ columns ++ constraints, clause.lists c.name = true) ↔
      (key.tableColumns.any fun other => Text.sameName c.name other) = true ∨
        ∃ k ∈ s.constraints, k.lists c.name = true ∧ k.IsKept d.target := by
    simp only [List.mem_append, or_and_right, exists_or, lists_columnClauses hcolumns c.name, false_or]
    rw [lists_constraintClauses c.name hconstraints, key.lists_tableKey]
  rw [InKey, primaryKey_column hparts fun h => hrowid (beq_iff_eq.1 h), unique_column hparts, hlists, Keyed,
    PrimaryKey.covers]
  cases key.isInline c.name with
  | true => simp
  | false => simp [or_left_comm, or_assoc]

/-! ## The column that is chosen to count up -/

/-- In MySQL the column goes on counting up, and is the key of a table that has none.
In SQLite it does if it is the one column of the key, or if there is no key, and the
key is then inline there. -/
theorem outcome_fitKey_keyed (hd : d.target = .mysql ∨ d.target = .sqlite) (start : PrimaryKey) (name : Text) :
    ∃ counts key', (d.fitKey start name).outcome = .ok (counts, key') ∧
      (counts = true ↔ d.target = .mysql ∨ start.isInline name = true ∨
        PrimaryKey.sameNames start.tableColumns [name] = true ∨ start.isPresent = false) ∧
      (d.target = .mysql → key' = (start.promote name).2) ∧
      (d.target = .sqlite → counts = true → key'.isInline name = true) := by
  unfold fitKey
  rcases hd with hd | hd
  · rw [hd, show Dialect.mysql.profile.autoIncrement = .modifier from rfl]
    exact ⟨true, _, outcome_promoted start name, by simp, fun _ => rfl, fun h => absurd h (by decide)⟩
  · rw [hd, show Dialect.sqlite.profile.autoIncrement = .rowid from rfl]
    dsimp only
    cases hin : start.isInline name with
    | true => exact ⟨true, start, rfl, by simp, fun h => absurd h (by decide), fun _ _ => hin⟩
    | false =>
      rw [if_neg Bool.false_ne_true]
      unfold PrimaryKey.moveInline
      cases hsame : PrimaryKey.sameNames start.tableColumns [name] with
      | true => exact ⟨true, _, rfl, by simp, fun h => absurd h (by decide), fun _ _ => sameName_self name⟩
      | false =>
        unfold PrimaryKey.promote
        cases hpresent : start.isPresent with
        | true => exact ⟨false, start, rfl, by simp, fun h => absurd h (by decide), fun _ h => absurd h (by decide)⟩
        | false => exact ⟨true, _, rfl, by simp, fun h => absurd h (by decide), fun _ _ => sameName_self name⟩

/-- The column chosen to count up is the first that does in the statement, if the key
can be fitted to it, and the key covers it in SQLite, and in MySQL if the statement has
no key or its key covers it. -/
theorem placeCounting_keyed (hd : d.target = .mysql ∨ d.target = .sqlite) {start : PrimaryKey}
    {counting : Option Nat} (h : (d.placeCounting s start).outcome = .ok (counting, key)) :
    (∀ i, counting = some i ↔ s.columns.findIdx? Column.countsUp = some i ∧
      ∃ c, s.columns[i]? = some c ∧ (d.target = .mysql ∨ start.isInline c.name = true ∨
        PrimaryKey.sameNames start.tableColumns [c.name] = true ∨ start.isPresent = false)) ∧
    ∀ (i : Nat) c, counting = some i → s.columns[i]? = some c →
      (key.covers c.name = true ↔ d.target = .sqlite ∨ start.isPresent = false ∨ start.covers c.name = true) ∧
      (d.target = .sqlite → key.isInline c.name = true) := by
  have hfind : s.columns.find? Column.countsUp =
      (s.columns.findIdx? Column.countsUp).bind fun i => s.columns[i]? := List.find?_eq_bind_findIdx?_getElem?
  rcases placeCounting_cases h with ⟨hnone, rfl, -⟩ | ⟨first, counts, hfirst, hfit, rfl⟩
  · refine ⟨fun i => iff_of_false (by simp) ?_, fun i c hi => by cases hi⟩
    rintro ⟨hidx, c, hc, -⟩
    rw [hnone, hidx, Option.bind_some, hc] at hfind
    cases hfind
  · obtain ⟨counts', key', hfit', hcan, hmysql, hsqlite⟩ := outcome_fitKey_keyed hd start first.name
    cases hfit.symm.trans hfit'
    have hplace : ∀ {i : Nat} {c : Column}, s.columns.findIdx? Column.countsUp = some i →
        s.columns[i]? = some c → c = first := by
      intro i c hidx hc
      rw [hfirst, hidx, Option.bind_some, hc] at hfind
      exact (Option.some.inj hfind).symm
    constructor
    · intro i
      constructor
      · intro hi
        cases counts with
        | false => cases hi
        | true =>
          have hidx : s.columns.findIdx? Column.countsUp = some i := hi
          rw [hfirst, hidx, Option.bind_some] at hfind
          exact ⟨hidx, first, hfind.symm, hcan.1 rfl⟩
      · rintro ⟨hidx, c, hc, hfits⟩
        cases hplace hidx hc
        rw [hcan.2 hfits]
        exact hidx
    · intro i c hi hc
      cases counts with
      | false => cases hi
      | true =>
        cases hplace hi hc
        refine ⟨?_, fun htarget => hsqlite htarget rfl⟩
        rcases hd with hd | hd
        · rw [hmysql hd, PrimaryKey.covers_promote]
          simp [hd]
        · exact iff_of_true (by simp [PrimaryKey.covers, hsqlite hd rfl]) (.inl hd)

end Direction

/-- In MySQL and SQLite the column chosen to count up is the first that does in the
statement; in SQLite only where it is the one column of the key or there is no key, and
the key then covers it, and in MySQL the key does exactly if the statement has none or
one that covers it. A column counts up exactly if it is the one chosen to or its text
says so, and belongs to a key exactly if it does by the statement. So every column that
counts up belongs to a key exactly if each of these does. -/
theorem clauses_counting_in_key_iff (d : Direction) (s : Statement) (cs : List RenderedClause)
    (hd : d.target = .mysql ∨ d.target = .sqlite) (h : (d.clauses s).outcome = .ok cs) :
    ∃ start counting key, (PrimaryKey.ofStatement s).outcome = .ok start ∧
      (d.placeCounting s start).outcome = .ok (counting, key) ∧
      (∀ i, counting = some i ↔ s.columns.findIdx? Column.countsUp = some i ∧
        ∃ c, s.columns[i]? = some c ∧ (d.target = .mysql ∨ start.isInline c.name = true ∨
          PrimaryKey.sameNames start.tableColumns [c.name] = true ∨ start.isPresent = false)) ∧
      (∀ (i : Nat) c, counting = some i → s.columns[i]? = some c →
        (key.covers c.name = true ↔ d.target = .sqlite ∨ start.isPresent = false ∨ start.covers c.name = true)) ∧
      (∀ (i : Nat) c parts, cs[i]? = some (.column c parts) → s.columns[i]? = some c ∧
        (Declares (.counting d.target) parts ↔ d.CountsUpAt counting i c) ∧
        (InKey cs c parts ↔ d.Keyed s counting key i c)) ∧
      ((∀ c parts, .column c parts ∈ cs → Declares (.counting d.target) parts → InKey cs c parts) ↔
        ∀ (i : Nat) c, s.columns[i]? = some c → d.CountsUpAt counting i c → d.Keyed s counting key i c) := by
  obtain ⟨start, counting, key, columns, constraints, hstart, hplace, hcolumns, hconstraints, rfl⟩ :=
    clauses_cases h
  obtain ⟨hchosen, hkey⟩ := Direction.placeCounting_keyed hd hplace
  have hcolumn : ∀ (i : Nat) c parts, (columns ++ constraints)[i]? = some (.column c parts) →
      s.columns[i]? = some c ∧ (Declares (.counting d.target) parts ↔ d.CountsUpAt counting i c) ∧
        (InKey (columns ++ constraints) c parts ↔ d.Keyed s counting key i c) := by
    intro i c parts hi
    obtain ⟨hc, hparts⟩ := column_of_clauses hcolumns hconstraints hi
    have hcounts := Direction.counting_column hparts
    rw [beq_iff_eq] at hcounts
    exact ⟨hc, hcounts, Direction.inKey_iff hcolumns hconstraints hparts fun hi => (hkey i c hi hc).2⟩
  refine ⟨start, counting, key, hstart, hplace, hchosen, fun i c hi hc => (hkey i c hi hc).1, hcolumn, ?_, ?_⟩
  · intro hall i c hc hcounts
    obtain ⟨parts, hi⟩ := clause_of_column constraints hcolumns hc
    obtain ⟨-, hdeclares, hin⟩ := hcolumn i c parts hi
    exact hin.1 (hall c parts (List.mem_of_getElem? hi) (hdeclares.2 hcounts))
  · intro hall c parts hmem hdeclared
    obtain ⟨i, hi⟩ := List.mem_iff_getElem?.1 hmem
    obtain ⟨hc, hdeclares, hin⟩ := hcolumn i c parts hi
    exact hin.2 (hall i c hc (hdeclares.1 hdeclared))

/-- A column that counts up beside a key on another one, and one that its type makes
count up. -/
theorem clauses_counting_in_key_iff_beside :
    let d : Direction := { source := .postgresql, target := .mysql }
    let id : Column := { name := "id".toList, baseType := "int".toList, primaryKey := true }
    let n : Column := { name := "n".toList, baseType := "serial".toList }
    let m : Column := { name := "m".toList, baseType := "int auto_increment".toList }
    let s : Statement := ⟨⟨none, ['t']⟩, false, false, [id, n, m], [], []⟩
    let cs : List RenderedClause := [
      .column id [.name "`id`".toList, .type "INT".toList, .primaryKey],
      .column n [.name "`n`".toList, .type "INT".toList, .notNull, .autoIncrement "AUTO_INCREMENT"],
      .column m [.name "`m`".toList, .type "INT AUTO_INCREMENT".toList]]
    (d.clauses s).outcome = .ok cs ∧ ∃ start counting key, (PrimaryKey.ofStatement s).outcome = .ok start ∧
      (d.placeCounting s start).outcome = .ok (counting, key) ∧
      (∀ (i : Nat) c parts, cs[i]? = some (.column c parts) → s.columns[i]? = some c ∧
        (Declares (.counting d.target) parts ↔ d.CountsUpAt counting i c) ∧
        (InKey cs c parts ↔ d.Keyed s counting key i c)) ∧
      ¬ ∀ c parts, .column c parts ∈ cs → Declares (.counting d.target) parts → InKey cs c parts := by
  intro d id n m s cs
  have hclauses : (d.clauses s).outcome = .ok cs := eq_ok_of_toOption (by decide +kernel)
  obtain ⟨start, counting, key, hstart, hplace, -, -, hcolumn, -⟩ :=
    clauses_counting_in_key_iff d s cs (.inl rfl) hclauses
  refine ⟨hclauses, start, counting, key, hstart, hplace, hcolumn, fun hall => ?_⟩
  have hm := hall m [.name "`m`".toList, .type "INT AUTO_INCREMENT".toList] (by simp [cs]) (by decide +kernel)
  rcases hm with hkey | hunique | ⟨clause, hin, hlists⟩
  · exact absurd hkey (by decide +kernel)
  · exact absurd hunique (by decide +kernel)
  · simp only [cs, List.mem_cons, List.not_mem_nil, or_false] at hin
    rcases hin with rfl | rfl | rfl <;> cases hlists

end TableDialects
