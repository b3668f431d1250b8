import TableDialects.Inventory
import TableDialects.Proofs.Reading.Opening
import TableDialects.Proofs.Script

/- What an inventory and the translation of a script take for a table. An
   inventory reads every statement of a script, whatever it opens with; a script
   hands over the statements that open plainly, up to one whose translation
   fails otherwise than by a conversion. Of the statements with columns the two
   see the same ones exactly if all of them open plainly and none stands behind
   such a failure (`Script.listed_eq_handed_iff`). -/
namespace TableDialects

def Statement.hasColumns (sql : Text) : Bool :=
  match Statement.read sql with
  | .ok s => !s.columns.isEmpty
  | .error _ => false

theorem Statement.locate_of_hasColumns {sql : Text} (h : hasColumns sql = true) :
    ∃ found, Section.locate sql = .ok found := by
  unfold hasColumns Statement.read at h
  cases hfound : Section.locate sql with
  | ok found => exact ⟨found, rfl⟩
  | error e =>
    rw [hfound] at h
    cases h

namespace Inventory

variable (source : Dialect) (targets : List Dialect)

/-- The rows that a statement brings into an inventory. -/
def rowsOf (sql : Text) : List InventoryRow :=
  match Statement.read sql with
  | .ok s => statementRows source targets s
  | .error _ => []

theorem rowsOf_isEmpty (sql : Text) : (rowsOf source targets sql).isEmpty = !Statement.hasColumns sql := by
  unfold rowsOf Statement.hasColumns
  cases Statement.read sql with
  | error e => rfl
  | ok s =>
    dsimp only
    rw [Bool.not_not, statementRows]
    cases s.columns <;> rfl

theorem outcome_scriptRows_eq (sqls : List Text) :
    (scriptRows source targets sqls).outcome = .ok (sqls.flatMap (rowsOf source targets)) := by
  induction sqls with
  | nil => rfl
  | cons sql sqls ih =>
    rw [scriptRows, List.flatMap_cons, rowsOf]
    cases Statement.read sql with
    | error e =>
      dsimp only
      rw [Traced.outcome_bind, Traced.outcome_notify]
      exact ih
    | ok s =>
      dsimp only
      rw [Traced.outcome_bind, ih]
      rfl

theorem outcome_buildNamed {sourceName targetName : Value} {target : Dialect}
    (hsource : Dialect.ofValue sourceName = .ok source) (htarget : Dialect.ofValue targetName = .ok target)
    (sql : Text) :
    (buildNamed sourceName [targetName] sql).outcome =
      .ok ((splitStatements sql).flatMap (rowsOf source [target])) := by
  have hnamed : dialects [targetName] = .ok [target] := by
    rw [dialects, htarget]
    rfl
  rw [buildNamed, Traced.outcome_bind, hsource]
  show ((Traced.ofExcept (dialects [targetName])) >>= _).outcome = _
  rw [Traced.outcome_bind, hnamed]
  show (build source [target] sql).outcome = _
  rw [build, Traced.outcome_bind, outcome_scriptRows_eq]
  rfl

end Inventory

namespace Script

/-! ## Statements that are handed over -/

section

variable (translate : Text → Traced Text) (p : Text → Bool)

theorem handed_sublist (sqls : List Text) : (handed translate sqls).Sublist (sqls.filter isCreateTable) := by
  induction sqls with
  | nil => exact .slnil
  | cons s more ih =>
    rw [handed]
    by_cases hs : isCreateTable s = true
    · rw [if_pos hs, List.filter_cons_of_pos hs]
      apply List.Sublist.cons_cons
      split
      · exact List.nil_sublist _
      · exact ih
    · rw [if_neg hs, List.filter_cons_of_neg hs]
      exact ih

theorem filter_cons_inj (s : Text) (as bs : List Text) :
    (s :: as).filter p = (s :: bs).filter p ↔ as.filter p = bs.filter p := by
  rw [List.filter_cons, List.filter_cons]
  split
  · exact List.cons_inj_right s
  · exact Iff.rfl

/-- A run misses none of the statements with a property exactly if none of them
stands behind a fault. -/
theorem filter_handed_iff (sqls : List Text) :
    (handed translate sqls).filter p = (sqls.filter isCreateTable).filter p ↔
      (sqls.filter isCreateTable).Pairwise fun q r => faults translate q = true → p r = false := by
  induction sqls with
  | nil => exact ⟨fun _ => .nil, fun _ => rfl⟩
  | cons s more ih =>
    rw [handed]
    by_cases hs : isCreateTable s = true
    · rw [if_pos hs, List.filter_cons_of_pos hs, List.pairwise_cons]
      by_cases hf : faults translate s = true
      · -- Nothing behind the first fault is handed over.
        have hall : (∀ r ∈ more.filter isCreateTable, p r = false) ↔
            (more.filter isCreateTable).filter p = [] := by
          simp only [List.filter_eq_nil_iff, Bool.not_eq_true]
        have hrest : (∀ r ∈ more.filter isCreateTable, p r = false) →
            (more.filter isCreateTable).Pairwise fun q r => faults translate q = true → p r = false :=
          fun h => List.pairwise_of_forall_mem_list fun _ _ r hr _ => h r hr
        rw [if_pos hf, filter_cons_inj, List.filter_nil, eq_comm, ← hall]
        exact ⟨fun h => ⟨fun r hr _ => h r hr, hrest h⟩, fun h r hr => h.1 r hr hf⟩
      · rw [if_neg hf, filter_cons_inj, ih]
        exact ⟨fun h => ⟨fun r _ hs => absurd hs hf, h⟩, fun h => h.2⟩
    · rw [if_neg hs, List.filter_cons_of_neg hs]
      exact ih

theorem filter_isCreateTable_iff (sqls : List Text) :
    (sqls.filter isCreateTable).filter p = sqls.filter p ↔ ∀ q ∈ sqls.filter p, isCreateTable q = true := by
  rw [List.filter_comm, List.filter_eq_self]

theorem filter_eq_filter_handed_iff (sqls : List Text) :
    sqls.filter p = (handed translate sqls).filter p ↔
      (∀ q ∈ sqls.filter p, isCreateTable q = true) ∧
        (sqls.filter isCreateTable).Pairwise fun q r => faults translate q = true → p r = false := by
  rw [← filter_isCreateTable_iff, ← filter_handed_iff]
  have hhanded := (handed_sublist translate sqls).filter p
  have htables : ((sqls.filter isCreateTable).filter p).Sublist (sqls.filter p) :=
    List.filter_sublist.filter p
  constructor
  · -- The tables stand between the two lists, so that all three are the same.
    intro h
    have hsame : (sqls.filter isCreateTable).filter p = sqls.filter p :=
      htables.antisymm (h ▸ hhanded)
    exact ⟨hsame, h.symm.trans hsame.symm⟩
  · rintro ⟨hsame, hlast⟩
    rw [hlast, hsame]

end

/-- Every statement of a script that has columns is a statement with rows in an
inventory of the script, and the other way round. A script hands over the same ones,
in the same order, exactly if each of them opens plainly and none stands behind
a statement whose translation fails otherwise than by a conversion. -/
theorem listed_eq_handed_iff (settings : Settings) {sourceName targetName : Value} {source target : Dialect}
    (hsource : Dialect.ofValue sourceName = .ok source) (htarget : Dialect.ofValue targetName = .ok target)
    (sql : Text) :
    let rows := Inventory.rowsOf source [target]
    let translateOne := translateNamed settings sourceName targetName
    let given := handed translateOne (splitStatements sql)
    let listed := (splitStatements sql).filter fun q => !(rows q).isEmpty
    (Inventory.buildNamed sourceName [targetName] sql).outcome = .ok ((splitStatements sql).flatMap rows) ∧
      (translate settings sourceName targetName true sql).outcome = gather translateOne given ∧
      (listed = given.filter Statement.hasColumns ↔
        (∀ q ∈ listed, OpensPlainly q) ∧
          (tables sql).Pairwise fun q r => faults translateOne q = true → Statement.hasColumns r = false) := by
  intro rows translateOne given listed
  refine ⟨Inventory.outcome_buildNamed source hsource htarget sql, outcome_translateEach translateOne _, ?_⟩
  have hlisted : listed = (splitStatements sql).filter Statement.hasColumns := by
    apply List.filter_congr
    intro q _
    rw [Inventory.rowsOf_isEmpty, Bool.not_not]
  rw [hlisted, filter_eq_filter_handed_iff]
  apply and_congr_left
  intro _
  apply forall₂_congr
  intro q hq
  obtain ⟨hmem, hcolumns⟩ := List.mem_filter.1 hq
  obtain ⟨found, hfound⟩ := Statement.locate_of_hasColumns hcolumns
  exact isCreateTable_iff hfound (start_of_mem_splitText hmem)

/-- A comment between the keywords: the inventory lists the table, and the script
skips it. -/
theorem listed_eq_handed_iff_comment :
    let statement := "CREATE /* c */ TABLE t (a INT)".toList
    Dialect.ofValue (.text "mariadb") = .ok .mysql ∧ Dialect.ofValue (.text "pgsql") = .ok .postgresql ∧
      ((splitStatements statement).filter fun q => !(Inventory.rowsOf .mysql [.postgresql] q).isEmpty) = [statement] ∧
      (translate .standard (.text "mariadb") (.text "pgsql") true statement).outcome = .ok [] ∧
      ¬ OpensPlainly statement := by
  intro statement
  have htables : tables statement = [] := by decide +kernel
  have hlisted : ((splitStatements statement).filter fun q =>
      !(Inventory.rowsOf .mysql [.postgresql] q).isEmpty) = [statement] := by decide +kernel
  have hsource : Dialect.ofValue (.text "mariadb") = .ok .mysql := rfl
  have htarget : Dialect.ofValue (.text "pgsql") = .ok .postgresql := rfl
  have hgiven : handed (translateNamed .standard (.text "mariadb") (.text "pgsql"))
      (splitStatements statement) = [] :=
    List.sublist_nil.1 (htables ▸ handed_sublist _ (splitStatements statement))
  obtain ⟨-, hrun, hiff⟩ := listed_eq_handed_iff .standard hsource htarget statement
  rw [hgiven] at hrun hiff
  rw [hlisted, htables] at hiff
  refine ⟨hsource, htarget, hlisted, hrun, fun hopens => ?_⟩
  cases hiff.2 ⟨List.forall_mem_singleton.2 hopens, .nil⟩

end Script
end TableDialects
