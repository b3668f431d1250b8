import TableDialects.Script

/- Scripts and files of statements. Of the statements of a script those that
   open as a CREATE TABLE statement are handed over to the translation, in order,
   up to one that fails otherwise than by a conversion (`Script.handed`); what
   comes of a script is what comes of these (`Script.gather`).

   A failed conversion never leaves a script whose errors are skipped, so that a
   dialect nobody knows shows only where the header of the output file is
   written. The file has been opened then. -/
namespace TableDialects

theorem Dialect.isConversion_of_ofValue {v : Value} {e : Error} (h : Dialect.ofValue v = .error e) :
    e.isConversion = true := by
  unfold Dialect.ofValue at h
  split at h
  · cases h
  · cases h
    rfl

namespace Script

variable (translate : Text → Traced Text)

/-- Whether the translation of a statement fails otherwise than by a
conversion. -/
def faults (sql : Text) : Bool :=
  match (translate sql).outcome with
  | .ok _ => false
  | .error e => !e.isConversion

/-- The statements that a script hands over to the translation. -/
def handed : List Text → List Text
  | [] => []
  | s :: more =>
    if isCreateTable s then s :: (if faults translate s then [] else handed more) else handed more

/-- What comes of statements that were handed over: the translated ones in order,
without those that cannot be converted, up to another failure. -/
def gather : List Text → Except Error (List Text)
  | [] => .ok []
  | s :: more =>
    match (translate s).outcome with
    | .ok text => (gather more).map (text :: ·)
    | .error e => if e.isConversion then gather more else .error e

/-! ## One statement, then all of them -/

theorem outcome_translateEach_other {s : Text} (hs : isCreateTable s = false) (more : List Text) :
    (translateEach translate true (s :: more)).outcome = (translateEach translate true more).outcome := by
  rw [translateEach, hs, if_neg Bool.false_ne_true, Traced.outcome_bind, Traced.outcome_notify]
  rfl

theorem outcome_translateEach_table {s : Text} (hs : isCreateTable s = true) (more : List Text) :
    (translateEach translate true (s :: more)).outcome =
      match (translate s).outcome with
      | .ok text => (translateEach translate true more).outcome.map (text :: ·)
      | .error e =>
        if e.isConversion then (translateEach translate true more).outcome else .error e := by
  rw [translateEach, if_pos hs]
  dsimp only
  cases hrun : (translate s).outcome with
  | ok text =>
    dsimp only
    rw [Traced.outcome_bind, hrun]
    show ((translateEach translate true more) >>= _).outcome = _
    rw [Traced.outcome_bind]
    cases (translateEach translate true more).outcome <;> rfl
  | error e =>
    dsimp only
    rw [Bool.true_and]
    split
    · rw [Traced.outcome_bind]
      rfl
    · rfl

/-- What comes of a script is what comes of the statements it hands over. -/
theorem outcome_translateEach (sqls : List Text) :
    (translateEach translate true sqls).outcome = gather translate (handed translate sqls) := by
  induction sqls with
  | nil => rfl
  | cons s more ih =>
    cases hs : isCreateTable s with
    | false => rw [outcome_translateEach_other translate hs, ih, handed, hs, if_neg Bool.false_ne_true]
    | true =>
      rw [outcome_translateEach_table translate hs, ih, handed, if_pos hs, gather, faults]
      cases (translate s).outcome with
      | ok text => rfl
      | error e => cases he : e.isConversion <;> simp [he]

theorem isConversion_of_gather {sqls : List Text} {e : Error} (h : gather translate sqls = .error e) :
    e.isConversion = false := by
  induction sqls with
  | nil => cases h
  | cons s more ih =>
    rw [gather] at h
    cases hrun : (translate s).outcome with
    | ok text =>
      rw [hrun] at h
      cases hmore : gather translate more with
      | ok texts => rw [hmore] at h; cases h
      | error e' =>
        rw [hmore] at h
        cases h
        exact ih hmore
    | error e' =>
      rw [hrun] at h
      dsimp only at h
      by_cases he : e'.isConversion = true
      · rw [if_pos he] at h
        exact ih h
      · rw [if_neg he] at h
        cases h
        exact Bool.eq_false_iff.2 he

/-- Where no statement can be converted, nothing comes of them. -/
theorem gather_of_unconverted {sqls : List Text}
    (h : ∀ s ∈ sqls, ∃ e, (translate s).outcome = .error e ∧ e.isConversion = true) :
    gather translate sqls = .ok [] := by
  induction sqls with
  | nil => rfl
  | cons s more ih =>
    obtain ⟨e, hrun, he⟩ := h s List.mem_cons_self
    rw [gather, hrun]
    dsimp only
    rw [if_pos he]
    exact ih fun s hs => h s (List.mem_cons_of_mem _ hs)

/-! ## Files -/

def IsUnknown (source target : Value) : Prop :=
  ∀ s t, Dialect.ofValue source = .ok s → Dialect.ofValue target ≠ .ok t

variable {settings : Settings} {source target : Value}

theorem isUnknown_cases (source target : Value) :
    (∃ s t, Dialect.ofValue source = .ok s ∧ Dialect.ofValue target = .ok t) ∨
      IsUnknown source target ∧ ∃ e, e.isConversion = true ∧
        (Dialect.ofValue source = .error e ∨
          (∃ s, Dialect.ofValue source = .ok s) ∧ Dialect.ofValue target = .error e) := by
  cases hs : Dialect.ofValue source with
  | error e =>
    refine .inr ⟨fun s t h => ?_, e, Dialect.isConversion_of_ofValue hs, .inl rfl⟩
    rw [hs] at h
    cases h
  | ok s =>
    cases ht : Dialect.ofValue target with
    | error e =>
      refine .inr ⟨fun s t _ h => ?_, e, Dialect.isConversion_of_ofValue ht, .inr ⟨⟨s, rfl⟩, rfl⟩⟩
      rw [ht] at h
      cases h
    | ok t => exact .inl ⟨s, t, rfl, rfl⟩

/-- Between dialects of which one is unknown, no statement can be converted. -/
theorem IsUnknown.outcome_translateNamed (h : IsUnknown source target) (sql : Text) :
    ∃ e, (translateNamed settings source target sql).outcome = .error e ∧ e.isConversion = true := by
  unfold translateNamed
  rw [Traced.outcome_bind]
  cases hs : Dialect.ofValue source with
  | error e => exact ⟨e, rfl, Dialect.isConversion_of_ofValue hs⟩
  | ok s =>
    show ∃ e, (Traced.ofExcept (Dialect.ofValue target) >>= _).outcome = _ ∧ _
    rw [Traced.outcome_bind]
    cases ht : Dialect.ofValue target with
    | error e => exact ⟨e, rfl, Dialect.isConversion_of_ofValue ht⟩
    | ok t => exact absurd ht (h s t hs)

theorem IsUnknown.outcome_translate (h : IsUnknown source target) (sql : Text) :
    (Script.translate settings source target true sql).outcome = .ok [] :=
  (outcome_translateEach _ _).trans (gather_of_unconverted _ fun s _ => h.outcome_translateNamed s)

section
variable (settings) (path : Text) (before : Option Text) {data : Text.Bytes} {sql : Text}

theorem translateFile_unreadable (source target : Value) {e : Error} (h : fileContent data = .error e) :
    (translateFile settings source target data path).run.outcome = .error e ∧
      (translateFile settings source target data path).after before = before := by
  unfold translateFile
  dsimp only
  rw [Traced.outcome_bind, h]
  exact ⟨rfl, rfl⟩

theorem outcome_content (h : fileContent data = .ok sql) :
    (Traced.ofExcept (fileContent data) >>= fun sql =>
      Script.translate settings source target true sql).outcome =
        (Script.translate settings source target true sql).outcome := by
  rw [Traced.outcome_bind, h]
  rfl

theorem translateFile_stopped {e : Error} (h : fileContent data = .ok sql)
    (hrun : (Script.translate settings source target true sql).outcome = .error e) :
    (translateFile settings source target data path).run.outcome = .error e ∧
      (translateFile settings source target data path).after before = before := by
  unfold translateFile
  dsimp only
  rw [outcome_content settings h, hrun]
  exact ⟨rfl, rfl⟩

theorem translateFile_written {statements : List Text} {s t : Dialect} (h : fileContent data = .ok sql)
    (hrun : (Script.translate settings source target true sql).outcome = .ok statements)
    (hs : Dialect.ofValue source = .ok s) (ht : Dialect.ofValue target = .ok t) :
    (translateFile settings source target data path).run.outcome = .ok statements.length ∧
      (translateFile settings source target data path).after before = some (fileText s t statements) := by
  unfold translateFile
  dsimp only
  rw [outcome_content settings h, hrun, hs, ht]
  exact ⟨rfl, rfl⟩

/-- A dialect that is unknown shows after the output has been opened. -/
theorem translateFile_unknown (h : fileContent data = .ok sql) (hunknown : IsUnknown source target) :
    ∃ e, e.isConversion = true ∧
      (translateFile settings source target data path).run.outcome = .error e ∧
      (translateFile settings source target data path).after before = some [] := by
  obtain ⟨s, t, hs, ht⟩ | ⟨-, e, he, hs | ⟨⟨s, hs⟩, ht⟩⟩ := isUnknown_cases source target
  · exact absurd ht (hunknown s t hs)
  · refine ⟨e, he, ?_⟩
    unfold translateFile
    dsimp only
    rw [outcome_content settings h, hunknown.outcome_translate, hs]
    exact ⟨rfl, rfl⟩
  · refine ⟨e, he, ?_⟩
    unfold translateFile
    dsimp only
    rw [outcome_content settings h, hunknown.outcome_translate, hs, ht]
    exact ⟨rfl, rfl⟩

end

theorem isConversion_of_fileContent {data : Text.Bytes} {e : Error} (h : fileContent data = .error e) :
    e.isConversion = false := by
  unfold fileContent at h
  split at h
  · cases h
  · cases h
    rfl

/-- Translating a file writes the header and the translated statements of its
script, or fails. A failure leaves the output as it was, whatever it was; but if
the file can be read and a dialect is unknown, the output is left empty. -/
theorem output_of_translateFile (settings : Settings) (source target : Value) (data : Text.Bytes)
    (path : Text) (before : Option Text) :
    let f := translateFile settings source target data path
    match f.run.outcome with
    | .ok n => ∃ s t sql statements, Dialect.ofValue source = .ok s ∧ Dialect.ofValue target = .ok t ∧
        fileContent data = .ok sql ∧
        (Script.translate settings source target true sql).outcome = .ok statements ∧
        statements.length = n ∧
        f.after before = some (header s t ++ Text.join "\n\n" statements ++ if n = 0 then [] else ['\n'])
    | .error e =>
        (e.isConversion = true ↔ (∃ sql, fileContent data = .ok sql) ∧ IsUnknown source target) ∧
        f.after before = if e.isConversion then some [] else before := by
  dsimp only
  cases hdata : fileContent data with
  | error e =>
    obtain ⟨hrun, hafter⟩ := translateFile_unreadable settings path before source target hdata
    rw [hrun]
    dsimp only
    rw [hafter, isConversion_of_fileContent hdata]
    refine ⟨⟨fun h => absurd h Bool.false_ne_true, ?_⟩, rfl⟩
    rintro ⟨⟨sql, hsql⟩, -⟩
    cases hsql
  | ok sql =>
    -- With two known dialects only the script can fail, and that before the output is opened.
    obtain ⟨s, t, hs, ht⟩ | ⟨hunknown, -⟩ := isUnknown_cases source target
    · cases htranslate : (Script.translate settings source target true sql).outcome with
      | error e =>
        have he : e.isConversion = false :=
          isConversion_of_gather _ ((outcome_translateEach _ _).symm.trans htranslate)
        obtain ⟨hrun, hafter⟩ := translateFile_stopped settings path before hdata htranslate
        rw [hrun]
        dsimp only
        rw [hafter, he]
        exact ⟨⟨fun h => absurd h Bool.false_ne_true, fun h => absurd ht (h.2 s t hs)⟩, rfl⟩
      | ok statements =>
        obtain ⟨hrun, hafter⟩ := translateFile_written settings path before hdata htranslate hs ht
        rw [hrun]
        dsimp only
        refine ⟨s, t, sql, statements, hs, ht, rfl, htranslate, rfl, ?_⟩
        rw [hafter, fileText]
        cases statements <;> rfl
    · obtain ⟨e, he, hrun, hafter⟩ := translateFile_unknown settings path before hdata hunknown
      rw [hrun]
      dsimp only
      rw [hafter, if_pos he]
      exact ⟨⟨fun _ => ⟨⟨sql, rfl⟩, hunknown⟩, fun _ => he⟩, rfl⟩

end Script
end TableDialects
