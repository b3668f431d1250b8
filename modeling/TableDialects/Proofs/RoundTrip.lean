import TableDialects.Proofs.Reading.Default
import TableDialects.Proofs.Translate.Layout
import TableDialects.Proofs.Translate.Statement
import TableDialects.RoundTrip

/- Round trips. A statement of the core language comes back from every other dialect
   with its columns and its key (`Validator.validate_core`), unless SQL Server lies
   on the way and a character type has a length with more digits than a number may
   have. A round trip is a run of passes: each keeps columns and key and carries the
   kinds of the lengths (`Direction.Carries`), and the induction on the route
   follows the kinds to the first pass that refuses them. -/
namespace TableDialects

/-! ## Lengths on the way -/

/-- Whether one of the targets on the way refuses a length of these kinds. -/
def refuses : List Dialect → List LengthKind → Bool
  | [], _ => false
  | target :: targets, kinds =>
    (target == .sqlserver && kinds.contains .varying) || refuses targets (kinds.map (LengthKind.carried target))

theorem refuses_of_not_mem {targets : List Dialect} (h : .sqlserver ∉ targets) (kinds : List LengthKind) :
    refuses targets kinds = false := by
  induction targets generalizing kinds with
  | nil => rfl
  | cons target targets ih =>
    obtain ⟨hne, hrest⟩ := not_or.1 (mt List.mem_cons.2 h)
    have hother : (target == Dialect.sqlserver) = false := beq_false_of_ne (Ne.symm hne)
    rw [refuses, hother, ih hrest]
    rfl

theorem varying_mem_carried {target : Dialect} {kinds : List LengthKind} :
    .varying ∈ kinds.map (LengthKind.carried target) ↔
      .varying ∈ kinds ∨ target = .sqlite ∧ .fixed ∈ kinds := by
  rw [List.mem_map]
  constructor
  · rintro ⟨k, hk, hcarried⟩
    cases k with
    | free => cases target <;> cases hcarried
    | varying => exact .inl hk
    | fixed =>
      cases target with
      | sqlite => exact .inr ⟨rfl, hk⟩
      | _ => cases hcarried
  · rintro (hk | ⟨rfl, hk⟩)
    · exact ⟨.varying, hk, by cases target <;> rfl⟩
    · exact ⟨.fixed, hk, rfl⟩

theorem fixed_mem_carried {target : Dialect} {kinds : List LengthKind} :
    .fixed ∈ kinds.map (LengthKind.carried target) ↔ target ≠ .sqlite ∧ .fixed ∈ kinds := by
  rw [List.mem_map]
  constructor
  · rintro ⟨k, hk, hcarried⟩
    cases k with
    | fixed =>
      refine ⟨?_, hk⟩
      rintro rfl
      cases hcarried
    | _ => cases target <;> cases hcarried
  · rintro ⟨hne, hk⟩
    refine ⟨.fixed, hk, ?_⟩
    cases target with
    | sqlite => exact absurd rfl hne
    | _ => rfl

/-! ## A run of passes -/

theorem outcome_translateAlong_cons (settings : Settings) (source target : Dialect)
    (steps : List (Dialect × Dialect)) {sql : Text} {s : Statement} (hread : Statement.read sql = .ok s) :
    (translateAlong settings ((source, target) :: steps) sql).outcome =
      (Direction.statement ⟨source, target, settings⟩ s).outcome.bind fun text =>
        (translateAlong settings steps text).outcome := by
  rw [translateAlong, Traced.outcome_bind, Direction.outcome_translate, hread]
  rfl

theorem outcome_translateAlong_append (settings : Settings) (steps more : List (Dialect × Dialect)) (sql : Text) :
    (translateAlong settings (steps ++ more) sql).outcome =
      (translateAlong settings steps sql).outcome.bind fun text => (translateAlong settings more text).outcome := by
  induction steps generalizing sql with
  | nil => rfl
  | cons step steps ih =>
    obtain ⟨source, target⟩ := step
    rw [List.cons_append, translateAlong, translateAlong, Traced.outcome_bind, Traced.outcome_bind]
    cases (Direction.translate ⟨source, target, settings⟩ sql).outcome with
    | error e => rfl
    | ok text => exact ih text

/-- What a round trip compares: the second statement has the columns and the key of
the first one. -/
structure Statement.Agrees (s t : Statement) : Prop where
  names : t.columns.map (fun c => c.name) = s.columns.map fun c => c.name
  key : t.primaryKeyColumns.map Text.lower = s.primaryKeyColumns.map Text.lower

/-- A common statement goes through every pass of a run, up to the one that refuses a
length, and keeps its columns and its key. The kinds of the lengths tell which one
that is; SQLite changes them unless a column that counts up has none. -/
theorem outcome_translateAlong_core {steps : List (Dialect × Dialect)} {sql : Text} {s : Statement}
    (hread : Statement.read sql = .ok s) (h : s.IsCore Token.IsValue)
    (hfree : (steps.map Prod.snd).head? = some .sqlite → .sqlserver ∈ steps.map Prod.snd →
      ∀ c ∈ s.columns, c.countsUp = true → c.lengthKind = .free) :
    if refuses (steps.map Prod.snd) (lengthKinds true s.columns) then
      (translateAlong .standard steps sql).outcome = .error (.fault .badNumber)
    else ∃ text t, (translateAlong .standard steps sql).outcome = .ok text ∧ Statement.read text = .ok t ∧
      s.Agrees t := by
  induction steps generalizing sql s with
  | nil => exact ⟨sql, s, rfl, hread, rfl, rfl⟩
  | cons step steps ih =>
    obtain ⟨source, target⟩ := step
    have hpass := Direction.outcome_statement_core (d := ⟨source, target, .standard⟩) rfl h
    rw [outcome_translateAlong_cons .standard source target steps hread, List.map_cons, refuses]
    by_cases hover : target = .sqlserver ∧ .varying ∈ lengthKinds true s.columns
    · rw [if_pos hover] at hpass
      rw [if_pos (by simp [hover]), hpass]
      rfl
    · rw [if_neg hover] at hpass
      obtain ⟨text, t, htext, ht, hcarries⟩ := hpass
      have hgoes : (target == .sqlserver && (lengthKinds true s.columns).contains .varying) = false := by
        simpa using hover
      -- The kinds behind the pass matter only if SQL Server is still to come.
      have hkinds : refuses (steps.map Prod.snd) ((lengthKinds true s.columns).map (LengthKind.carried target)) =
          refuses (steps.map Prod.snd) (lengthKinds true t.columns) := by
        by_cases hserver : .sqlserver ∈ steps.map Prod.snd
        · rw [hcarries.kinds fun htarget => hfree (congrArg some htarget) (List.mem_cons_of_mem _ hserver)]
        · rw [refuses_of_not_mem hserver, refuses_of_not_mem hserver]
      have hrest := ih ht hcarries.core fun _ _ => hcarries.free
      rw [hgoes, Bool.false_or, hkinds, htext]
      split
      · rename_i hrefused
        rw [if_pos hrefused] at hrest
        exact hrest
      · rename_i hgone
        rw [if_neg hgone] at hrest
        obtain ⟨text', t', htext', ht', hagrees⟩ := hrest
        exact ⟨text', t', htext', ht', hagrees.names.trans hcarries.names, hagrees.key.trans hcarries.key⟩

/-! ## The round trip -/

namespace RoundTrip

/-- The passes of a round trip. -/
def steps (source target : Dialect) : List (Dialect × Dialect) := route source target ++ route target source

theorem outcome_back (settings : Settings) (source target : Dialect) (sql : Text) :
    (back settings source target sql).outcome =
      (translateAlong settings (steps source target) sql).outcome.bind fun text =>
        (Statement.read text).mapError Error.malformed := by
  rw [back, steps, outcome_translateAlong_append, Traced.outcome_bind, translate]
  cases (translateAlong settings (route source target) sql).outcome with
  | error e => rfl
  | ok text => exact Traced.outcome_bind _ _

/-- The statement has a character type whose length SQL Server cannot take as a
number. A fixed length is such a one where SQLite has made it varying before. -/
def Overlong (source target : Dialect) (s : Statement) : Prop :=
  (source = .sqlserver ∨ target = .sqlserver) ∧ (.varying ∈ lengthKinds true s.columns ∨
    source = .sqlserver ∧ target = .sqlite ∧ .fixed ∈ lengthKinds true s.columns)

instance (source target : Dialect) (s : Statement) : Decidable (Overlong source target s) :=
  inferInstanceAs (Decidable (_ ∧ _))

/-- A round trip is refused by the passes that end in SQL Server. -/
theorem refuses_steps {source target : Dialect} (hne : source ≠ target) (s : Statement) :
    refuses ((steps source target).map Prod.snd) (lengthKinds true s.columns) = true ↔
      Overlong source target s := by
  unfold Overlong
  cases source <;> cases target <;>
    first
    | exact absurd rfl hne
    | simp [steps, route, refuses, varying_mem_carried, fixed_mem_carried, -List.mem_map, -List.map_map]

/-- Where a round trip starts with SQLite it does not reach SQL Server. -/
theorem sqlserver_not_mem_steps (source target : Dialect)
    (h : ((steps source target).map Prod.snd).head? = some .sqlite) :
    .sqlserver ∉ (steps source target).map Prod.snd := by
  revert h
  cases source <;> cases target <;> decide

variable {source target : Dialect} {sql : Text} {s : Statement}

theorem outcome_back_core (hne : source ≠ target) (hread : Statement.read sql = .ok s)
    (h : s.IsCore Token.IsValue) :
    if Overlong source target s then (back .standard source target sql).outcome = .error (.fault .badNumber)
    else ∃ t, (back .standard source target sql).outcome = .ok t ∧ s.Agrees t := by
  have hrun := outcome_translateAlong_core hread h fun hfirst hserver =>
    absurd hserver (sqlserver_not_mem_steps source target hfirst)
  rw [outcome_back]
  split
  · rename_i hover
    rw [if_pos ((refuses_steps hne s).2 hover)] at hrun
    rw [hrun]
    rfl
  · rename_i hover
    rw [if_neg (mt (refuses_steps hne s).1 hover)] at hrun
    obtain ⟨text, t, htext, ht, hagrees⟩ := hrun
    refine ⟨t, ?_, hagrees⟩
    rw [htext]
    show (Statement.read text).mapError Error.malformed = .ok t
    rw [ht]
    rfl

theorem compare_of_agrees {t : Statement} (pair : Text) (h : s.Agrees t) :
    compare pair s t = { table := s.table.name, pair := pair, columns := s.columns.length,
                         columnsAfter := s.columns.length, sameKey := true, passed := true } := by
  have hnames : columnNames t = columnNames s := by
    have hlower := congrArg (List.map Text.lower) h.names
    rw [List.map_map, List.map_map] at hlower
    exact hlower
  have hkey : PrimaryKey.sameNames s.primaryKeyColumns t.primaryKeyColumns = true :=
    beq_iff_eq.2 h.key.symm
  have hfound : (columnNames s).filter (fun n => !(columnNames s).contains n) = [] := by simp
  unfold compare
  simp only [hnames, hkey, hfound, beq_self_eq_true, Bool.and_self]
  rw [columnNames, List.length_map]

end RoundTrip

/-! ## The core language -/

theorem Statement.IsCore.isValue {sql : Text} {s : Statement} (hread : Statement.read sql = .ok s)
    (h : s.IsCore Token.IsConstant) : s.IsCore Token.IsValue := by
  refine { h with columns := fun c hc => (h.columns c hc).mono fun ts hts t ht hconstant => ?_ }
  obtain ⟨clause, hclause⟩ := Statement.default_of_read hread c hc ts hts t ht
  exact isValue_of_scanned hclause hconstant

namespace Validator

/-- Round trips of the core language pass: between any two different dialects, a
statement comes back with all its columns, no others, and its key. The one
exception is a length that SQL Server cannot take as a number: it stops the round
trip with a fault. -/
theorem validate_core (v : Validator) (hsettings : v.settings = .standard) (hne : v.source ≠ v.target)
    {sql : Text} {s : Statement} (hread : Statement.read sql = .ok s) (h : s.IsCore Token.IsConstant) :
    (v.validate sql).2.outcome =
      if RoundTrip.Overlong v.source v.target s then .error (.fault .badNumber)
      else .ok { table := s.table.name, pair := RoundTrip.way v.source v.target
                 columns := s.columns.length, columnsAfter := s.columns.length, missing := [], extra := []
                 sameKey := true, error := none, passed := true } := by
  have hrun : (v.validate sql).2 = RoundTrip.check .standard v.source v.target sql := by
    rw [← hsettings, validate]
    split <;> rfl
  have hback := RoundTrip.outcome_back_core hne hread (h.isValue hread)
  rw [hrun, RoundTrip.check, hread]
  dsimp only
  by_cases hover : RoundTrip.Overlong v.source v.target s
  · rw [if_pos hover] at hback
    rw [if_pos hover, hback]
    rfl
  · rw [if_neg hover] at hback
    obtain ⟨t, ht, hagrees⟩ := hback
    rw [if_neg hover, ht]
    exact congrArg Except.ok (RoundTrip.compare_of_agrees _ hagrees)

theorem validate_core_identity :
    let sql : Text := ("CREATE TABLE orders (id INT IDENTITY(1,1), note NVARCHAR(5000) DEFAULT 'it''s (a, b) -- c', "
      ++ "CONSTRAINT pk PRIMARY KEY (ID), INDEX (note))").toList
    let id : Column := { name := "id".toList, rawType := "int".toList, baseType := "int".toList
                         tail := "IDENTITY(1,1)".toList, autoIncrement := true }
    let literal : Token := ⟨.string, "'it''s (a, b) -- c'".toList, 28, true⟩
    let note : Column := { name := "note".toList, rawType := "nvarchar(5000)".toList
                           baseType := "nvarchar".toList, typeParams := "(5000)".toList
                           tail := "DEFAULT 'it''s (a, b) -- c'".toList, default := some [literal] }
    let s : Statement := ⟨⟨none, "orders".toList⟩, false, false, [id, note],
      [.primaryKey (some "pk".toList) ["ID".toList], .index none ["note".toList] none], []⟩
    let v : Validator := { source := .sqlserver, target := .sqlite }
    Statement.read sql = .ok s ∧ s.IsCore Token.IsConstant ∧ ¬RoundTrip.Overlong v.source v.target s ∧
      (v.validate sql).2.outcome =
        .ok { table := "orders".toList, pair := "sqlserver→sqlite→sqlserver".toList, columns := 2
              columnsAfter := 2, missing := [], extra := [], sameKey := true, error := none, passed := true } := by
  intro sql id literal note s v
  have hread : Statement.read sql = .ok s := eq_ok_of_toOption (by decide +kernel)
  have hid : id.IsCore Token.IsConstant :=
    ⟨by decide, ⟨"int", .absent, by decide, rfl, rfl, rfl⟩, rfl, (fun _ h => nomatch h), rfl, rfl, rfl, rfl, rfl, rfl⟩
  have hliteral : literal.IsConstant := .inr ⟨rfl, by decide⟩
  have hnote : note.IsCore Token.IsConstant :=
    ⟨by decide, ⟨"nvarchar", .length "5000".toList, by decide, by decide, rfl, rfl⟩, rfl,
      fun _ h => ⟨literal, (Option.some.inj h).symm, hliteral⟩, rfl, rfl, rfl, rfl, rfl, rfl⟩
  have hkey : (Constraint.primaryKey (some "pk".toList) ["ID".toList]).IsPlain :=
    ⟨by decide, by decide, by decide⟩
  have hindex : (Constraint.index none ["note".toList] none).IsPlain := ⟨by decide, by decide, by decide⟩
  have h : s.IsCore Token.IsConstant :=
    ⟨rfl, by decide, by decide, List.forall_mem_cons.2 ⟨hid, List.forall_mem_singleton.2 hnote⟩, by decide,
      List.forall_mem_cons.2 ⟨hkey, List.forall_mem_singleton.2 hindex⟩, by decide, (fun hnone => nomatch hnone)⟩
  have hshort : ¬RoundTrip.Overlong v.source v.target s := by decide
  refine ⟨hread, h, hshort, ?_⟩
  rw [v.validate_core rfl (by decide) hread h, if_neg hshort]
  exact congrArg Except.ok (by decide)

end Validator
end TableDialects
