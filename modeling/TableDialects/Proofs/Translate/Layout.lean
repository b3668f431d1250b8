import TableDialects.Proofs.Translate.Places

/- The layout of a source does not reach its translation. A text and the text
   written out from its tokens, with single spaces for white space and comments,
   are translated to the same text, or refused for the same reason
   (`translateNamed_layout_free`); a refusal that quotes a clause quotes it as it
   stands, and so with its own layout (`Error.plain`). The one exception is a dialect
   that is translated to itself, where the source is handed back as it is. -/
namespace TableDialects

/-- An error with the clause it quotes written out from its tokens. -/
def Error.plain : Error → Error
  | .malformed cause => .malformed cause.plain
  | e => e

theorem Statement.read_renderTokens (sql : Text) :
    ((Statement.read (renderTokens (tokenize sql))).mapError Malformed.plain).map Statement.bare =
      ((Statement.read sql).mapError Malformed.plain).map Statement.bare := by
  rw [Statement.read_eq_ofTokens, Statement.read_eq_ofTokens, shapes_tokenize_renderTokens]

theorem Direction.outcome_translate (d : Direction) (sql : Text) :
    (d.translate sql).outcome =
      ((Statement.read sql).mapError Error.malformed).bind fun s => (d.statement s).outcome := by
  have hrun := Traced.outcome_bind
    (Traced.ofExcept ((Statement.read sql).mapError Error.malformed)) fun s => d.statement s
  unfold Direction.translate
  generalize Traced.ofExcept ((Statement.read sql).mapError Error.malformed) >>=
    (fun s => d.statement s) = run at hrun ⊢
  refine Eq.trans ?_ hrun
  dsimp only
  split <;> rename_i h <;> rw [h]

theorem Direction.translate_renderTokens (d : Direction) (sql : Text) :
    (d.translate (renderTokens (tokenize sql))).outcome.mapError Error.plain =
      (d.translate sql).outcome.mapError Error.plain := by
  -- What is left of a reading when places and layout are forgotten decides the rest.
  have hforget : ∀ s, (d.translate s).outcome.mapError Error.plain =
      ((((Statement.read s).mapError Malformed.plain).map Statement.bare).mapError
        Error.malformed).bind fun s => (d.statement s).outcome.mapError Error.plain := by
    intro s
    rw [Direction.outcome_translate]
    cases Statement.read s with
    | error e => rfl
    | ok s => exact congrArg (Except.mapError Error.plain) (Direction.statement_bare d s).symm
  rw [hforget, hforget, Statement.read_renderTokens]

theorem translateAlong_renderTokens (settings : Settings) {steps : List (Dialect × Dialect)}
    (hsteps : steps ≠ []) (sql : Text) :
    (translateAlong settings steps (renderTokens (tokenize sql))).outcome.mapError Error.plain =
      (translateAlong settings steps sql).outcome.mapError Error.plain := by
  cases steps with
  | nil => exact absurd rfl hsteps
  | cons step steps =>
    obtain ⟨source, target⟩ := step
    have hstep := Direction.translate_renderTokens ⟨source, target, settings⟩ sql
    rw [translateAlong, translateAlong, Traced.outcome_bind, Traced.outcome_bind]
    generalize (Direction.translate ⟨source, target, settings⟩ (renderTokens (tokenize sql))).outcome =
      written at hstep ⊢
    generalize (Direction.translate ⟨source, target, settings⟩ sql).outcome = given at hstep ⊢
    cases written with
    | error e =>
      cases given with
      | error e' => exact hstep
      | ok text' => cases hstep
    | ok text =>
      cases given with
      | error e' => cases hstep
      | ok text' =>
        -- Behind the first step both texts are the same.
        cases hstep
        rfl

theorem route_ne_nil {source target : Dialect} (h : source ≠ target) : route source target ≠ [] := by
  unfold route
  rw [if_neg (by simpa using h)]
  split
  · exact List.cons_ne_nil _ _
  · exact List.cons_ne_nil _ _

/-- White space and comments of a source do not reach its translation between
two different dialects: it is translated to the same text as its tokens written
out with single spaces, and refused if that is refused, for the same reason. -/
theorem translateNamed_layout_free (settings : Settings) (source target : Value) (sql : Text)
    (hne : ∀ dialect, Dialect.ofValue source = .ok dialect → Dialect.ofValue target ≠ .ok dialect) :
    (translateNamed settings source target (renderTokens (tokenize sql))).outcome.mapError
        Error.plain =
      (translateNamed settings source target sql).outcome.mapError Error.plain := by
  unfold translateNamed
  simp only [Traced.outcome_bind, Traced.ofExcept]
  cases hsource : Dialect.ofValue source with
  | error e => rfl
  | ok a =>
    cases htarget : Dialect.ofValue target with
    | error e => rfl
    | ok b =>
      have hab : a ≠ b := by
        rintro rfl
        exact hne a hsource htarget
      exact translateAlong_renderTokens settings (route_ne_nil hab) sql

theorem translateNamed_layout_free_mariadb :
    (∀ dialect, Dialect.ofValue (.text "MariaDB") = .ok dialect →
        Dialect.ofValue (.text "pgsql") ≠ .ok dialect) ∧
      (translateNamed .standard (.text "MariaDB") (.text "pgsql") (renderTokens
          (tokenize "CREATE TABLE t(a INT -- key\n  PRIMARY/**/KEY)"))).outcome.mapError Error.plain =
        (translateNamed .standard (.text "MariaDB") (.text "pgsql")
          "CREATE TABLE t(a INT -- key\n  PRIMARY/**/KEY)").outcome.mapError Error.plain := by
  have hsource : Dialect.ofValue (.text "MariaDB") = .ok .mysql := by rfl
  have htarget : Dialect.ofValue (.text "pgsql") = .ok .postgresql := by rfl
  have hne : ∀ dialect, Dialect.ofValue (.text "MariaDB") = .ok dialect →
      Dialect.ofValue (.text "pgsql") ≠ .ok dialect := by
    intro dialect h h'
    rw [hsource] at h
    rw [htarget] at h'
    cases h
    cases h'
  exact ⟨hne, translateNamed_layout_free .standard _ _ _ hne⟩

end TableDialects
