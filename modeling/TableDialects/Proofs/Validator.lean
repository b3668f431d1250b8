import Mathlib.Data.List.Forall2
import TableDialects.RoundTrip

/- What a validator reports of a script. A statement is either recorded, with one
   result at the end of those kept so far (`Validator.Records`), or refused, and
   then nothing is kept (`Validator.Refuses`). A script is reported up to the
   first statement that is refused (`Validator.validateScript_reports`): one that
   cannot be read hides all that stand behind it. -/
namespace TableDialects

namespace Validator

variable (v : Validator)

/-- The statement that comes back to the validator from a round trip. -/
def back (sql : Text) : Except Error Statement :=
  (RoundTrip.back v.settings v.source v.target sql).outcome

/-- The result with which a statement that can be read is recorded: it is compared
with what comes back, and one that cannot be converted on the way has the message
as its error. -/
def Records (sql : Text) (r : RoundTrip) : Prop :=
  ∃ before, Statement.read sql = .ok before ∧
    match v.back sql with
    | .ok after => r = RoundTrip.compare (RoundTrip.way v.source v.target) before after
    | .error e =>
      e.isConversion = true ∧ r = RoundTrip.failed (RoundTrip.way v.source v.target) before e.message

/-- The failure with which a statement is refused: it cannot be read, or something
other than a conversion fails on the way. -/
def Refuses (sql : Text) (e : Error) : Prop :=
  match Statement.read sql with
  | .error cause => e = .malformed cause
  | .ok _ => v.back sql = .error e ∧ e.isConversion = false

/-! ## One statement -/

theorem validate_cases (sql : Text) :
    (∃ r, v.Records sql r ∧ (v.validate sql).1 = { v with results := v.results ++ [r] } ∧
        (v.validate sql).2.outcome = .ok r) ∨
      ∃ e, v.Refuses sql e ∧ (v.validate sql).1 = v ∧ (v.validate sql).2.outcome = .error e := by
  unfold validate RoundTrip.check Records Refuses back
  cases hread : Statement.read sql with
  | error cause => exact .inr ⟨.malformed cause, rfl, rfl, rfl⟩
  | ok before =>
    dsimp only
    cases hback : (RoundTrip.back v.settings v.source v.target sql).outcome with
    | ok after => exact .inl ⟨_, ⟨before, rfl, rfl⟩, rfl, rfl⟩
    | error e =>
      dsimp only
      by_cases he : e.isConversion = true
      · rw [if_pos he]
        exact .inl ⟨_, ⟨before, rfl, he, rfl⟩, rfl, rfl⟩
      · rw [if_neg he]
        exact .inr ⟨e, ⟨rfl, Bool.eq_false_iff.2 he⟩, rfl, rfl⟩

theorem Records.not_refuses {v : Validator} {sql : Text} {r : RoundTrip} (h : v.Records sql r) (e : Error) :
    ¬ v.Refuses sql e := by
  obtain ⟨before, hread, hback⟩ := h
  unfold Refuses
  rw [hread]
  rintro ⟨hsome, he⟩
  rw [hsome] at hback
  rw [hback.1] at he
  cases he

/-! ## All statements -/

theorem validateEach_recorded {sql : Text} {r : RoundTrip} (h : (v.validate sql).2.outcome = .ok r)
    (more : List Text) :
    (v.validateEach (sql :: more)).1 = ((v.validate sql).1.validateEach more).1 ∧
      (v.validateEach (sql :: more)).2.outcome = ((v.validate sql).1.validateEach more).2.outcome := by
  rw [validateEach]
  generalize v.validate sql = step at h ⊢
  obtain ⟨w, run⟩ := step
  dsimp only at h ⊢
  rw [h]
  refine ⟨rfl, ?_⟩
  dsimp only [Traced.andThen]
  rw [h]

theorem validateEach_refused {sql : Text} {e : Error} (h : (v.validate sql).2.outcome = .error e)
    (more : List Text) :
    (v.validateEach (sql :: more)).1 = (v.validate sql).1 ∧
      (v.validateEach (sql :: more)).2.outcome = .error e := by
  rw [validateEach]
  generalize v.validate sql = step at h ⊢
  obtain ⟨w, run⟩ := step
  dsimp only at h ⊢
  rw [h]
  exact ⟨rfl, rfl⟩

/-- Statements are recorded in order up to the first that is refused. -/
theorem validateEach_reports (sqls : List Text) :
    ∃ reported refused results, sqls = reported ++ refused ∧
      List.Forall₂ v.Records reported results ∧
      (v.validateEach sqls).1 = { v with results := v.results ++ results } ∧
      match refused with
      | [] => (v.validateEach sqls).2.outcome = .ok ()
      | s :: _ => ∃ e, v.Refuses s e ∧ (v.validateEach sqls).2.outcome = .error e := by
  induction sqls generalizing v with
  | nil =>
    refine ⟨[], [], [], rfl, .nil, ?_, rfl⟩
    rw [List.append_nil]
    rfl
  | cons sql more ih =>
    rcases v.validate_cases sql with ⟨r, hr, hkept, hok⟩ | ⟨e, he, hkept, herror⟩
    · -- The validator goes on with one more result; it records and refuses as before.
      obtain ⟨hstep, houtcome⟩ := v.validateEach_recorded hok more
      rw [hkept] at hstep houtcome
      obtain ⟨reported, refused, results, hmore, hall, hlast, hend⟩ :=
        ih { v with results := v.results ++ [r] }
      refine ⟨sql :: reported, refused, r :: results, congrArg (sql :: ·) hmore, .cons hr hall, ?_, ?_⟩
      · rw [hstep, hlast, List.append_assoc]
        rfl
      · rw [houtcome]
        exact hend
    · obtain ⟨hstep, houtcome⟩ := v.validateEach_refused herror more
      refine ⟨[], sql :: more, [], rfl, .nil, ?_, e, he, houtcome⟩
      rw [hstep, hkept, List.append_nil]

/-! ## A script -/

/-- The result that is expected of a statement: the comparison with what comes
back, or an error if the statement cannot be read or converted. -/
def Expects (sql : Text) (r : RoundTrip) : Prop :=
  match Statement.read sql, v.back sql with
  | .ok before, .ok after => r = RoundTrip.compare (RoundTrip.way v.source v.target) before after
  | _, _ => r.error.isSome = true

/-- What is expected of a run: no conversion fails it, and it appends one result
for each statement, in order. -/
def ReportsAll (sqls : List Text) : Prop :=
  (∀ e, (v.validateEach sqls).2.outcome = .error e → e.isConversion = false) ∧
    ∃ results, (v.validateEach sqls).1.results = v.results ++ results ∧
      List.Forall₂ v.Expects sqls results

theorem Records.expects {v : Validator} {sql : Text} {r : RoundTrip} (h : v.Records sql r) :
    v.Expects sql r := by
  obtain ⟨before, hread, hback⟩ := h
  unfold Expects
  rw [hread]
  cases hb : v.back sql with
  | ok after =>
    rw [hb] at hback
    exact hback
  | error e =>
    rw [hb] at hback
    rw [hback.2]
    rfl

theorem not_refuses_of_records {v : Validator} {sqls : List Text} {results : List RoundTrip}
    (h : List.Forall₂ v.Records sqls results) : ∀ s ∈ sqls, ∀ e, ¬ v.Refuses s e := by
  induction h with
  | nil => exact List.forall_mem_nil _
  | cons hr _ ih => exact List.forall_mem_cons.2 ⟨hr.not_refuses, ih⟩

/-- A run does what is expected of it exactly if no statement is refused. -/
theorem reportsAll_iff (sqls : List Text) : v.ReportsAll sqls ↔ ∀ s ∈ sqls, ∀ e, ¬ v.Refuses s e := by
  obtain ⟨reported, refused, results, rfl, hall, hkept, hend⟩ := v.validateEach_reports sqls
  cases refused with
  | nil =>
    rw [List.append_nil] at hkept hend ⊢
    refine ⟨fun _ => not_refuses_of_records hall, fun _ => ⟨fun e he => ?_, results, ?_, ?_⟩⟩
    · rw [hend] at he
      cases he
    · rw [hkept]
    · exact hall.imp fun _ _ => Records.expects
  | cons s more =>
    obtain ⟨e, hrefuses, -⟩ := hend
    constructor
    · -- From the refused statement on nothing was kept, so that results are missing.
      rintro ⟨-, results', hresults, hexpected⟩
      rw [hkept, List.append_cancel_left_eq] at hresults
      have hlength := hexpected.length_eq
      rw [← hresults, ← hall.length_eq, List.length_append, List.length_cons] at hlength
      omega
    · intro h
      exact absurd hrefuses (h s (List.mem_append_right _ List.mem_cons_self) e)

/-- A validator keeps its earlier results and appends one for each CREATE TABLE
statement of a script, in order, up to the first statement that it refuses. So it
reports every table exactly if it refuses none: if all of them can be read, and
nothing but a conversion fails on the way. -/
theorem validateScript_reports (v : Validator) (sql : Text) :
    (∃ reported refused results, Script.tables sql = reported ++ refused ∧
      List.Forall₂ v.Records reported results ∧
      (v.validateScript sql).1 = { v with results := v.results ++ results } ∧
      match refused with
      | [] => (v.validateScript sql).2.outcome = .ok ()
      | s :: _ => ∃ e, v.Refuses s e ∧ (v.validateScript sql).2.outcome = .error e) ∧
    (v.ReportsAll (Script.tables sql) ↔ ∀ s ∈ Script.tables sql, ∀ e, ¬ v.Refuses s e) :=
  ⟨v.validateEach_reports (Script.tables sql), v.reportsAll_iff (Script.tables sql)⟩

end Validator
end TableDialects
