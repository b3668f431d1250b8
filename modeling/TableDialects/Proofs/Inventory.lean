import TableDialects.Proofs.Reading.Default
import TableDialects.Proofs.Tables
import TableDialects.Proofs.Translate.Type
import TableDialects.Proofs.Types.Read

/- The types that an inventory shows and the types that a translation writes. For
   a column that nobody has to look at and that does not count up, the two are
   the same in PostgreSQL and SQLite. In SQL Server a translation also adjusts
   lengths, which an inventory does not, so that the two are the same exactly if
   the server takes the length that is shown (`Inventory.cell_is_written_iff`). -/
namespace TableDialects

/-! ## Lengths that SQL Server takes -/

namespace Direction

/-- Whether SQL Server takes the length that a type is written with: it can be
read as a number and is not beyond the limit of the type. -/
def lengthFits (type : Text) : Bool :=
  match lengthLimits.findSome? fun (keyword, limit) =>
      (lengthDigits? keyword type).map fun digits => (keyword, limit, digits) with
  | none => true
  | some (_, limit, digits) => (Numeral.toInt? digits).any (· ≤ limit)

/-- Whether the type is a varying character type without a length. -/
def lacksLength (type : Text) : Bool :=
  Text.upper type == "VARCHAR".toList || Text.upper type == "NVARCHAR".toList

theorem lengthDigits?_eq_some {keyword : String} {type digits : Text}
    (h : lengthDigits? keyword type = some digits) :
    type = keyword.toList ++ '(' :: (digits ++ [')']) ∧ digits ≠ [] ∧
      ∀ c ∈ digits, Text.isDigit c = true := by
  unfold lengthDigits? at h
  split at h
  · rename_i rest hafter
    dsimp only at h
    split at h
    · rename_i hform
      cases h
      rw [Bool.and_eq_true, beq_iff_eq] at hform
      refine ⟨?_, by simpa using hform.1, fun c => List.mem_takeWhile_imp⟩
      rw [Text.after?_eq_some hafter, ← hform.2, List.takeWhile_append_dropWhile]
    · cases h
  · cases h

theorem max_ne_type {keyword : String} {type digits : Text}
    (h : lengthDigits? keyword type = some digits) : keyword.toList ++ "(MAX)".toList ≠ type := by
  obtain ⟨rfl, hne, hdigits⟩ := lengthDigits?_eq_some h
  intro heq
  cases digits with
  | nil => exact hne rfl
  | cons c digits =>
    have hc := hdigits c List.mem_cons_self
    have htail := List.append_cancel_left heq
    obtain rfl : 'M' = c := by
      simpa using congrArg (fun s : Text => (s.drop 1).head?) htail
    cases hc

theorem lacksLength_max : ∀ l ∈ lengthLimits, lacksLength (l.1.toList ++ "(MAX)".toList) = false := by
  decide

theorem lengthened_server {d : Direction} (hd : d.target = .sqlserver) (type : Text) :
    d.lengthened type = if lacksLength type then type ++ "(255)".toList else type := by
  unfold lengthened
  rw [hd]
  rfl

/-- What becomes of the length of a type: it stays, becomes MAX, or is refused. -/
theorem limitLength_cases (type : Text) :
    (lengthFits type = true ∧ (limitLength type).outcome = .ok type) ∨
    (lengthFits type = false ∧ (limitLength type).outcome = .error (.fault .badNumber)) ∨
    ∃ longer, lengthFits type = false ∧ (limitLength type).outcome = .ok longer ∧ longer ≠ type ∧
      lacksLength longer = false := by
  unfold limitLength lengthFits
  cases hfound : lengthLimits.findSome? fun (keyword, limit) =>
      (lengthDigits? keyword type).map fun digits => (keyword, limit, digits) with
  | none => exact .inl ⟨rfl, rfl⟩
  | some found =>
    -- The first keyword that fits says which limit holds.
    obtain ⟨⟨keyword, limit⟩, hmem, hmap⟩ := List.exists_of_findSome?_eq_some hfound
    obtain ⟨digits, hdigits, rfl⟩ := Option.map_eq_some_iff.1 hmap
    dsimp only
    cases hn : Numeral.toInt? digits with
    | none => exact .inr (.inl ⟨rfl, rfl⟩)
    | some n =>
      by_cases hlimit : limit < n
      · have hfull := lacksLength_max (keyword, limit) hmem
        refine .inr (.inr ⟨keyword.toList ++ "(MAX)".toList, ?_, ?_, max_ne_type hdigits, hfull⟩)
        · simpa using hlimit
        · dsimp only
          rw [if_pos hlimit]
          rfl
      · refine .inl ⟨by simpa using hlimit, ?_⟩
        dsimp only
        rw [if_neg hlimit]
        rfl

/-- SQL Server writes a type as it is exactly if it has its length and the length
fits. -/
theorem written_server_iff {d : Direction} (hd : d.target = .sqlserver) (type : Text) :
    (limitLength type).outcome.map d.lengthened = .ok type ↔
      lacksLength type = false ∧ lengthFits type = true := by
  rcases limitLength_cases type with ⟨hfits, hkept⟩ | ⟨hfits, hrefused⟩ |
    ⟨longer, hfits, hmax, hne, hfull⟩
  · rw [hkept, hfits, Except.map, Except.ok.injEq, lengthened_server hd]
    cases hlacks : lacksLength type with
    | false => simp
    | true => simp
  · rw [hrefused, hfits]
    simp [Except.map]
  · rw [hmax, hfits, Except.map, Except.ok.injEq, lengthened_server hd, hfull]
    simp [hne]

end Direction

/-! ## Columns that nobody has to look at -/

namespace Column

/-- The parameters of a type that was read are absent or stand in parentheses. -/
theorem params_of_read {clause : Text} {c : Column} (h : read clause (tokenize clause) = .ok c) :
    c.typeParams = [] ∨ c.typeParams.head? = some '(' := by
  refine (normal_of_read h).2.imp_right ?_
  rintro ⟨inner, -, heq⟩
  rw [heq]
  rfl

end Column

theorem lookupType_nil (target : Dialect) {params : Text}
    (h : params = [] ∨ params.head? = some '(') : lookupType target.profile.types [] params = none := by
  -- No name in a table is empty or starts with a parenthesis.
  have hkeys : ∀ d : Dialect, ∀ e ∈ d.profile.types, e.1.toList.head?.any (· != '(') = true := by
    intro d
    rw [Text.toList_eq_ofBytes]
    cases d <;> decide +kernel
  have hnone : ∀ name : Text, name.head?.any (· != '(') = false →
      tableValue? target.profile.types name = none := by
    intro name hname
    unfold tableValue?
    rw [Option.map_eq_none_iff, List.find?_eq_none]
    intro e he heq
    have hkey := hkeys target e he
    rw [eq_of_beq heq, hname] at hkey
    cases hkey
  have hlower : (Text.lower (params.filter (· != ' '))).head?.any (· != '(') = false := by
    rcases h with rfl | h
    · rfl
    · cases params with
      | nil => cases h
      | cons c params =>
        obtain rfl : c = '(' := by simpa using h
        rfl
  unfold lookupType
  dsimp only
  rw [show Text.strip (Text.lower []) = [] from rfl, List.nil_append, hnone _ hlower, ite_self]
  exact hnone [] rfl

namespace Inventory

/-- The type that a translation writes for a column that is neither lossy nor
unsigned nor an array and does not count up is the one an inventory shows, with
the length that the target wants. -/
theorem outcome_columnType? {d : Direction} {c : Column}
    (hparams : c.typeParams = [] ∨ c.typeParams.head? = some '(')
    (hserial : c.hasBase Column.serialTypes = false)
    (hreview : needsReview [d.target] c = false) :
    (d.columnType? c).outcome =
      ((if d.target = .sqlserver then (Direction.limitLength (typeIn d.source d.target c)).outcome
        else .ok (typeIn d.source d.target c)).map d.lengthened).map some := by
  simp only [needsReview, List.any_cons, List.any_nil, Bool.or_false, Bool.or_eq_false_iff] at hreview
  obtain ⟨⟨⟨hlossy, hunsigned⟩, harray⟩, hknown⟩ := hreview
  -- A column without a type would be unknown to the target.
  have hbase : c.baseType ≠ [] := by
    intro hbase
    rw [hbase, lookupType_nil d.target hparams] at hknown
    cases hknown
  have hbaseEmpty : c.baseType.isEmpty = false := by simpa using hbase
  have henum : c.hasBase ["enum", "set"] = false := by
    unfold Column.hasBase at hlossy ⊢
    rw [List.any_eq_false] at hlossy ⊢
    exact fun n hn => hlossy n (by revert n; decide)
  have hplain : Direction.plainTypeName c = c.typeName := by
    have hnot : ∀ n ∈ Column.serialTypes, c.hasBase [n] = false := by
      intro n hn
      unfold Column.hasBase at hserial ⊢
      simpa using List.any_eq_false.1 hserial n hn
    rw [Direction.plainTypeName, hnot "bigserial" (by decide), hnot "smallserial" (by decide),
      hnot "serial" (by decide)]
    rfl
  have hname : c.typeName.isEmpty = false := by
    simpa [Column.typeName] using fun h => absurd h hbase
  have htype : d.type ((d.widening? c).getD (Direction.plainTypeName c)) =
      typeIn d.source d.target c := by
    rw [Direction.widening?, hunsigned, hplain, typeIn, hname]
    rfl
  unfold Direction.columnType?
  rw [hbaseEmpty, harray, henum]
  simp only [Bool.false_eq_true, if_false]
  rw [Traced.outcome_bind, d.outcome_scalarType_of_type c htype, hunsigned, Bool.false_and,
    if_neg Bool.false_ne_true]
  generalize (if d.target = .sqlserver then (Direction.limitLength _).outcome
    else .ok _ : Except Error Text) = written
  cases written <;> rfl

/-- Such a column is written as it is shown, unless SQL Server adjusts the
length. -/
theorem columnType?_eq_iff {d : Direction} (hd : d.target ≠ .mysql) {c : Column}
    (hparams : c.typeParams = [] ∨ c.typeParams.head? = some '(')
    (hserial : c.hasBase Column.serialTypes = false)
    (hreview : needsReview [d.target] c = false) :
    (d.columnType? c).outcome = .ok (some (typeIn d.source d.target c)) ↔
      (d.target = .sqlserver → Direction.lacksLength (typeIn d.source d.target c) = false ∧
        Direction.lengthFits (typeIn d.source d.target c) = true) := by
  rw [outcome_columnType? hparams hserial hreview]
  by_cases htarget : d.target = .sqlserver
  · rw [if_pos htarget, ← Direction.written_server_iff htarget]
    generalize (Direction.limitLength _).outcome.map d.lengthened = written
    cases written with
    | error e => simp [Except.map, htarget]
    | ok type => simp [Except.map, htarget]
  · have hkept : d.lengthened (typeIn d.source d.target c) = typeIn d.source d.target c := by
      unfold Direction.lengthened
      rw [beq_eq_false_iff_ne.2 hd, beq_eq_false_iff_ne.2 htarget]
      rfl
    rw [if_neg htarget, Except.map, hkept]
    exact ⟨fun _ h => absurd h htarget, fun _ => rfl⟩

/-! ## Rows of a script -/

/-- The columns that the rows of a script stand for, in order, each with its statement
and its place there. -/
def described (script : Text) : List (Statement × Nat × Column) :=
  (splitStatements script).flatMap fun sql =>
    match Statement.read sql with
    | .ok s => s.columns.zipIdx.map fun p => (s, p.2, p.1)
    | .error _ => []

def rowAt (source : Dialect) (targets : List Dialect) (s : Statement) (i : Nat) (c : Column) : InventoryRow :=
  row source targets s.table.name (s.primaryKeyColumns.map Text.lower) (i + 1) c

theorem rowsFrom_eq_map (source : Dialect) (targets : List Dialect) (table : Text) (key : List Text)
    (i : Nat) (cs : List Column) :
    rowsFrom source targets table key (i + 1) cs =
      (cs.zipIdx i).map fun p => row source targets table key (p.2 + 1) p.1 := by
  induction cs generalizing i with
  | nil => rfl
  | cons c cs ih =>
    rw [rowsFrom, ih, List.zipIdx_cons, List.map_cons]

/-- The rows of a script are those of its columns, one for each and in their order. -/
theorem rowsOf_script (source : Dialect) (targets : List Dialect) (script : Text) :
    (splitStatements script).flatMap (rowsOf source targets) =
      (described script).map fun e => rowAt source targets e.1 e.2.1 e.2.2 := by
  unfold described
  rw [List.map_flatMap]
  refine congrArg ((splitStatements script).flatMap ·) (funext fun sql => ?_)
  unfold rowsOf
  cases Statement.read sql with
  | error e => rfl
  | ok s =>
    dsimp only
    rw [List.map_map, statementRows, rowsFrom_eq_map source targets _ _ 0]
    rfl

theorem mem_described {script : Text} {s : Statement} {i : Nat} {c : Column}
    (h : (s, i, c) ∈ described script) :
    (∃ sql ∈ splitStatements script, Statement.read sql = .ok s) ∧ s.columns[i]? = some c := by
  obtain ⟨sql, hsql, hin⟩ := List.mem_flatMap.1 h
  split at hin
  · rename_i s' hs
    obtain ⟨p, hp, heq⟩ := List.mem_map.1 hin
    cases heq
    exact ⟨⟨sql, hsql, hs⟩, List.mem_zipIdx_iff_getElem?.1 hp⟩
  · cases hin

/-- An inventory of a script in MySQL for one other dialect has a row for each column of
the statements that can be read, built from that column and in their order. Where nobody
has to look at the column and it does not count up, the row shows the type that a
translation of the column writes. Only SQL Server writes another one: if it is a varying
character type without a length, or with a length beyond the limit. -/
theorem cell_is_written_iff (target : Dialect) (htarget : target ≠ .mysql) (script : Text) :
    ∃ rows, (buildNamed (.text "mysql") [.text target.name] script).outcome = .ok rows ∧
      rows.length = (described script).length ∧
      ∀ (n : Nat) r, rows[n]? = some r →
        ∃ s i c, (described script)[n]? = some (s, i, c) ∧ r = rowAt .mysql [target] s i c ∧
        (∃ sql ∈ splitStatements script, Statement.read sql = .ok s) ∧ s.columns[i]? = some c ∧
        (r.autoIncrement = false → r.needsReview = false → ∃ cell, r.types = [(target, cell)] ∧
          ((Direction.columnType? ⟨.mysql, target, .standard⟩ c).outcome = .ok (some cell) ↔
            (target = .sqlserver →
              Direction.lacksLength cell = false ∧ Direction.lengthFits cell = true))) := by
  have hname : Dialect.ofValue (.text target.name) = .ok target := by cases target <;> rfl
  refine ⟨_, outcome_buildNamed .mysql rfl hname script, ?_, fun n r hr => ?_⟩
  · rw [rowsOf_script, List.length_map]
  · rw [rowsOf_script, List.getElem?_map, Option.map_eq_some_iff] at hr
    obtain ⟨⟨s, i, c⟩, he, rfl⟩ := hr
    obtain ⟨hread, hc⟩ := mem_described (List.mem_of_getElem? he)
    refine ⟨s, i, c, he, rfl, hread, hc, fun hauto hreview => ⟨typeIn .mysql target c, rfl, ?_⟩⟩
    have hserial : c.hasBase Column.serialTypes = false := (Bool.or_eq_false_iff.1 hauto).2
    have hparams : c.typeParams = [] ∨ c.typeParams.head? = some '(' := by
      obtain ⟨sql, -, hs⟩ := hread
      obtain ⟨clause, hclause⟩ := Statement.column_of_read hs c (List.mem_of_getElem? hc)
      exact Column.params_of_read hclause
    exact columnType?_eq_iff (d := ⟨.mysql, target, .standard⟩) htarget hparams hserial hreview

/-- Of a table that is declared twice, each row shows the type of its own column. The
second is shown with a length that SQL Server does not take, so that a translation writes
another type. -/
theorem cell_is_written_iff_overlong :
    let script : Text := "CREATE TABLE t (a VARCHAR(10)); CREATE TABLE t (a VARCHAR(9000))"
    Dialect.sqlserver ≠ .mysql ∧
    ∃ rows r, (buildNamed (.text "mysql") [.text Dialect.sqlserver.name] script).outcome = .ok rows ∧
      rows[1]? = some r ∧ r.autoIncrement = false ∧ r.needsReview = false ∧
      ∃ s i c, (described script)[1]? = some (s, i, c) ∧ r = rowAt .mysql [.sqlserver] s i c ∧
        r.types = [(.sqlserver, "NVARCHAR(9000)".toList)] ∧
        (Direction.columnType? ⟨.mysql, .sqlserver, .standard⟩ c).outcome ≠
          .ok (some "NVARCHAR(9000)".toList) := by
  intro script
  refine ⟨by decide, ?_⟩
  obtain ⟨rows, hrows, -, hall⟩ := cell_is_written_iff .sqlserver (by decide) script
  have hshown : ((buildNamed (.text "mysql") [.text Dialect.sqlserver.name] script).outcome.toOption.any
      fun rows => rows[1]?.any fun r => !r.autoIncrement && !r.needsReview &&
        r.types == [(.sqlserver, "NVARCHAR(9000)".toList)]) = true := by decide +kernel
  rw [hrows, Except.toOption, Option.any_some, Option.any_eq_true] at hshown
  obtain ⟨r, hr, hshown⟩ := hshown
  simp only [Bool.and_eq_true, Bool.not_eq_true', beq_iff_eq] at hshown
  obtain ⟨⟨hauto, hreview⟩, htypes⟩ := hshown
  obtain ⟨s, i, c, he, hrow, -, -, hcell⟩ := hall 1 r hr
  obtain ⟨cell, hcell, hiff⟩ := hcell hauto hreview
  obtain rfl : "NVARCHAR(9000)".toList = cell := by simpa [htypes] using hcell
  refine ⟨rows, r, hrows, hr, hauto, hreview, s, i, c, he, hrow, htypes, fun hwritten => ?_⟩
  have hfits := (hiff.1 hwritten rfl).2
  revert hfits
  decide +kernel

end Inventory

end TableDialects
