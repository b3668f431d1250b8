import TableDialects.Proofs.Reading.Statement
import TableDialects.Translate.Statement

/- Translating does not look at places. What a statement becomes in another
   dialect depends on its tokens without their places, and neither on the text of
   its clauses nor on what stands behind its column section
   (`Direction.statement_bare`). -/
namespace TableDialects

/-! ## Expressions -/

namespace Expression

theorem afterTypeName_bare (ts : List Token) : afterTypeName (bare ts) = bare (afterTypeName ts) := by
  cases ts with
  | nil => rfl
  | cons t ts =>
    by_cases h : t.isIdentifier = true
    · simp only [bare_cons, afterTypeName, Token.isIdentifier_shape, h, if_true]
      exact bare_dropWhile (fun _ => rfl) ts
    · simp only [bare_cons, afterTypeName, Token.isIdentifier_shape, h]
      rfl

theorem afterClose_bare (depth : Nat) (ts : List Token) :
    afterClose depth (bare ts) = bare (afterClose depth ts) := by
  fun_induction afterClose depth ts with
  | case1 => rw [bare_nil, afterClose.eq_def]
  | case2 depth t ts ho ih => simp [afterClose, ho, ih]
  | case3 t ts ho hc => simp [afterClose, ho, hc]
  | case4 t ts ho hc => simp [afterClose, ho, hc]
  | case5 t ts ho hc depth ih => simp [afterClose, ho, hc, ih]
  | case6 depth t ts ho hc ih => simp [afterClose, ho, hc, ih]

theorem afterParams_bare (ts : List Token) : afterParams (bare ts) = bare (afterParams ts) := by
  cases ts with
  | nil => rfl
  | cons t ts =>
    by_cases h : t.isOpen = true <;> simp [afterParams, h, afterClose_bare]

theorem afterArray_bare (ts : List Token) : afterArray (bare ts) = bare (afterArray ts) := by
  cases ts with
  | nil => rfl
  | cons t ts =>
    simp only [bare_cons, afterArray, Token.kind_shape, Token.value_shape]
    by_cases h : (t.kind == .ident && t.value == "[]".toList) = true
    · simp only [h, if_true]
    · simp only [h]
      rfl

theorem afterCastType_bare (ts : List Token) : afterCastType (bare ts) = bare (afterCastType ts) := by
  unfold afterCastType
  rw [afterTypeName_bare, afterParams_bare, afterArray_bare]

theorem stripCasts_bare (ts : List Token) : stripCasts (bare ts) = bare (stripCasts ts) := by
  fun_induction stripCasts ts with
  | case1 => rw [bare_nil, stripCasts]
  | case2 t ts h ih =>
    have h' : isCast t.shape = true := h
    rw [bare_cons, stripCasts, if_pos h', afterCastType_bare, ih]
  | case3 t ts h ih =>
    have h' : ¬ isCast t.shape = true := h
    rw [bare_cons, stripCasts, if_neg h', ih]
    rfl

theorem closesEarly_bare (depth : Nat) (ts : List Token) :
    closesEarly depth (bare ts) = closesEarly depth ts := by
  fun_induction closesEarly depth ts with
  | case1 => rfl
  | case2 => rfl
  | case3 depth t u ts d ih =>
    rw [bare_cons] at ih
    simp only [bare_cons, closesEarly, Token.isOpen_shape, Token.isClose_shape]
    exact congrArg (_ || ·) ih

theorem getLast?_any_bare {p : Token → Bool} (hp : ∀ t, p t.shape = p t) (ts : List Token) :
    (bare ts).getLast?.any p = ts.getLast?.any p := by
  unfold bare
  rw [List.getLast?_map]
  cases ts.getLast? with
  | none => rfl
  | some t => exact hp t

theorem isSimple_bare (ts : List Token) : isSimple (bare ts) = isSimple ts := by
  match ts with
  | [] => rfl
  | [_] => rfl
  | [_, _] => rfl
  | f :: p :: t :: ts =>
    have hlast := getLast?_any_bare (p := Token.isClose) (fun _ => rfl) (f :: p :: t :: ts)
    rw [bare_cons, bare_cons, bare_cons] at hlast ⊢
    unfold isSimple
    dsimp only
    rw [hlast]
    rfl

theorem peel?_bare (ts : List Token) : peel? (bare ts) = (peel? ts).map bare := by
  match ts with
  | [] => rfl
  | [_] => rfl
  | [_, _] => rfl
  | first :: second :: third :: ts =>
    have hlast := getLast?_any_bare (p := Token.isClose) (fun _ => rfl)
      (first :: second :: third :: ts)
    have hearly := closesEarly_bare 0 (first :: second :: third :: ts)
    have hinner : (bare (second :: third :: ts)).dropLast = bare (second :: third :: ts).dropLast :=
      List.map_dropLast.symm
    have hsimple := isSimple_bare (second :: third :: ts).dropLast
    rw [← hinner] at hsimple
    simp only [bare_cons] at hlast hearly hinner hsimple ⊢
    unfold peel?
    dsimp only
    rw [hlast, hearly, hsimple, hinner, Token.isOpen_shape, Token.isOpen_shape]
    split <;> rfl

theorem unwrap_eq (ts : List Token) :
    unwrap ts = match peel? ts with
      | some inner => unwrap inner
      | none => ts := by
  rw [unwrap]
  split <;> rename_i h <;> rw [h]

theorem unwrap_bare (ts : List Token) : unwrap (bare ts) = bare (unwrap ts) := by
  fun_induction unwrap ts with
  | case1 ts inner h ih => rw [unwrap_eq, peel?_bare, h]; exact ih
  | case2 ts h => rw [unwrap_eq, peel?_bare, h]; rfl

end Expression

theorem renderTokensWith_bare {write : Token → Text} (hw : ∀ t, write t.shape = write t)
    (ts : List Token) : renderTokensWith write (bare ts) = renderTokensWith write ts := by
  have hbehind : ∀ us, renderBehind write (bare us) = renderBehind write us := by
    intro us
    induction us with
    | nil => rfl
    | cons u us ih =>
      rw [bare_cons, renderBehind, renderBehind, hw, ih]
      rfl
  cases ts with
  | nil => rfl
  | cons t ts => rw [bare_cons, renderTokensWith, renderTokensWith, hw, hbehind]

namespace Expression

theorem render_bare (source target : Dialect) (ts : List Token) :
    render source target (bare ts) = render source target ts := by
  have hwrite : ∀ t : Token, respell source target t.shape = respell source target t := fun _ => rfl
  unfold render
  rw [stripCasts_bare]
  dsimp only
  rw [length_bare, length_bare, renderTokensWith_bare hwrite, renderTokensWith_bare hwrite]

theorem defaultText_bare (ts : List Token) : defaultText (bare ts) = defaultText ts := by
  have hvalues : ∀ us : List Token, (bare us).flatMap Token.value = us.flatMap Token.value := by
    intro us
    unfold bare
    rw [List.flatMap_map]
    rfl
  match ts with
  | [] => rfl
  | [_] => rfl
  | t :: u :: ts => exact hvalues (t :: u :: ts)

theorem truthValue?_bare (ts : List Token) : truthValue? (bare ts) = truthValue? ts := by
  unfold truthValue?
  rw [stripCasts_bare, defaultText_bare]

end Expression

/-! ## Columns and constraints -/

/-- A rendered clause whose column or constraint has tokens without places. -/
def RenderedClause.bare : RenderedClause → RenderedClause
  | .column c parts => .column c.bare parts
  | .primaryKey columns text => .primaryKey columns text
  | .constraint c text => .constraint c.bare text

theorem RenderedClause.render_bare (c : RenderedClause) : c.bare.render = c.render := by
  cases c <;> rfl

namespace Direction
variable (d : Direction)

theorem drawsNext_bare (c : Column) : c.bare.drawsNext = c.drawsNext := by
  unfold Column.drawsNext Column.bare
  cases c.default with
  | none => rfl
  | some ts =>
    show (bare ts).any _ = ts.any _
    unfold bare
    rw [List.any_map]
    rfl

theorem countsUp_bare (c : Column) : c.bare.countsUp = c.countsUp := by
  unfold Column.countsUp
  rw [drawsNext_bare]
  rfl

theorem booleanDefault?_bare (c : Column) (ts : List Token) :
    booleanDefault? c.bare (bare ts) = booleanDefault? c ts := by
  unfold booleanDefault?
  rw [Expression.truthValue?_bare]
  rfl

theorem default?_bare (c : Column) : d.default? c.bare = d.default? c := by
  have hdefault : c.bare.default = c.default.map bare := rfl
  unfold default?
  rw [hdefault]
  cases c.default with
  | none => rfl
  | some ts =>
    cases ts with
    | nil => rfl
    | cons t ts =>
      have hunwrap := Expression.unwrap_bare (t :: ts)
      have hlength := length_bare (t :: ts)
      rw [bare_cons] at hunwrap hlength
      simp only [Option.map_some, bare_cons]
      rw [hunwrap, length_bare, hlength, booleanDefault?_bare, Expression.render_bare]

theorem checkPart_bare (c : Column) : d.checkPart c.bare = d.checkPart c := by
  have hcheck : c.bare.check = c.check.map bare := rfl
  unfold checkPart
  rw [hcheck]
  cases c.check with
  | none => rfl
  | some ts =>
    cases ts with
    | nil => rfl
    | cons t ts =>
      have hrender := Expression.render_bare d.source d.target (t :: ts)
      rw [bare_cons] at hrender
      simp only [Option.map_some, bare_cons, hrender]

theorem onUpdatePart_bare (c : Column) : d.onUpdatePart c.bare = d.onUpdatePart c := by
  have hupdate : c.bare.onUpdate = c.onUpdate.map bare := rfl
  unfold onUpdatePart
  rw [hupdate]
  cases c.onUpdate with
  | none => rfl
  | some ts =>
    cases ts with
    | nil => rfl
    | cons t ts =>
      have hrender := Expression.render_bare d.source d.target (t :: ts)
      rw [bare_cons] at hrender
      simp only [Option.map_some, bare_cons, hrender]

theorem extraPart_bare (c : Column) : d.extraPart c.bare = d.extraPart c := by
  have hextra : c.bare.extra = bare c.extra := rfl
  unfold extraPart
  rw [hextra, Expression.render_bare]
  cases c.extra <;> rfl

theorem plainParts_bare (c : Column) (inlineKey : Bool) :
    d.plainParts c.bare inlineKey = d.plainParts c inlineKey := by
  unfold plainParts
  rw [drawsNext_bare, default?_bare]
  rfl

theorem column_bare (key : PrimaryKey) (counts : Bool) (c : Column) :
    d.column key counts c.bare = d.column key counts c := by
  unfold column
  dsimp only
  rw [plainParts_bare, checkPart_bare, onUpdatePart_bare, extraPart_bare]
  rfl

theorem constraint_bare (table : Text) (c : Constraint) :
    d.constraint table c.bare = d.constraint table c := by
  cases c with
  | check name condition =>
    show d.constraint table (.check name (bare condition)) = _
    simp only [constraint, Expression.render_bare]
  | _ => rfl

/-! ## Statements -/

theorem ofConstraints_bare (table : Text) (key : PrimaryKey) (cs : List Constraint) :
    PrimaryKey.ofConstraints table key (cs.map Constraint.bare) =
      PrimaryKey.ofConstraints table key cs := by
  induction cs generalizing key with
  | nil => rfl
  | cons c cs ih =>
    cases c with
    | primaryKey name columns =>
      show PrimaryKey.ofConstraints table key (.primaryKey name columns :: _) = _
      unfold PrimaryKey.ofConstraints
      rw [ih, ih]
    | _ => exact ih key

theorem ofStatement_bare (s : Statement) :
    PrimaryKey.ofStatement s.bare = PrimaryKey.ofStatement s := by
  have hinline : (s.bare.columns.filter fun c => c.primaryKey).map (fun c => c.name) =
      (s.columns.filter fun c => c.primaryKey).map fun c => c.name := by
    show ((s.columns.map Column.bare).filter fun c => c.primaryKey).map (fun c => c.name) = _
    rw [List.filter_map, List.map_map]
    rfl
  have hkey : PrimaryKey.ofConstraints s.bare.table.name {} s.bare.constraints =
      PrimaryKey.ofConstraints s.table.name {} s.constraints :=
    ofConstraints_bare s.table.name {} s.constraints
  unfold PrimaryKey.ofStatement
  rw [hinline, hkey]
  rfl

theorem dropCounting_bare (cs : List Column) : dropCounting (cs.map Column.bare) = dropCounting cs := by
  induction cs with
  | nil => rfl
  | cons c cs ih =>
    rw [List.map_cons, dropCounting, dropCounting, ih]
    rfl

theorem placeCounting_bare (s : Statement) (key : PrimaryKey) :
    d.placeCounting s.bare key = d.placeCounting s key := by
  have hfilter : s.bare.columns.filter Column.countsUp =
      (s.columns.filter Column.countsUp).map Column.bare := by
    show (s.columns.map Column.bare).filter Column.countsUp = _
    rw [List.filter_map]
    exact congrArg _ (List.filter_congr fun c _ => countsUp_bare c)
  have hplace : s.bare.columns.findIdx? Column.countsUp = s.columns.findIdx? Column.countsUp := by
    show (s.columns.map Column.bare).findIdx? Column.countsUp = _
    rw [List.findIdx?_map]
    exact congrArg (fun p => s.columns.findIdx? p) (funext countsUp_bare)
  unfold placeCounting
  rw [hfilter, hplace]
  cases s.columns.filter Column.countsUp with
  | nil => rfl
  | cons c cs =>
    rw [List.map_cons]
    dsimp only
    rw [dropCounting_bare]
    rfl

theorem columnClauses_bare (key : PrimaryKey) (counting : Option Nat) (i : Nat) (cs : List Column) :
    (d.columnClauses key counting i (cs.map Column.bare)).outcome =
      (d.columnClauses key counting i cs).outcome.map (List.map RenderedClause.bare) := by
  induction cs generalizing i with
  | nil => rfl
  | cons c cs ih =>
    rw [List.map_cons, columnClauses, columnClauses, column_bare, Traced.outcome_bind,
      Traced.outcome_bind]
    cases (d.column key (counting == some i) c).outcome with
    | error e => rfl
    | ok parts =>
      show (_ >>= _ : Traced _).outcome = (_ >>= _ : Traced _).outcome.map _
      rw [Traced.outcome_bind, Traced.outcome_bind, ih]
      cases (d.columnClauses key counting (i + 1) cs).outcome <;> rfl

theorem keyClause_bare (key : Option PrimaryKey) :
    (d.keyClause key).map RenderedClause.bare = d.keyClause key := by
  cases key <;> rfl

theorem constraintClauses_cons {c : Constraint} (hc : ∀ name columns, c ≠ .primaryKey name columns)
    (table : Text) (key : Option PrimaryKey) (cs : List Constraint) :
    (d.constraintClauses table key (c :: cs)).outcome =
      (d.constraint table c).outcome.bind fun text =>
        (d.constraintClauses table key cs).outcome.map fun clauses =>
          (text.map (RenderedClause.constraint c)).toList ++ clauses := by
  rw [constraintClauses.eq_3 _ _ _ _ _ hc, Traced.outcome_bind]
  congr 1
  funext text
  rw [Traced.outcome_bind]
  cases (d.constraintClauses table key cs).outcome with
  | error e => rfl
  | ok clauses => cases text <;> rfl

theorem constraintClauses_key (name : Option Text) (columns : List Text) (table : Text)
    (key : Option PrimaryKey) (cs : List Constraint) :
    (d.constraintClauses table key (.primaryKey name columns :: cs)).outcome =
      (d.constraintClauses table none cs).outcome.map (d.keyClause key ++ ·) := by
  rw [constraintClauses, Traced.outcome_bind]
  cases (d.constraintClauses table none cs).outcome <;> rfl

theorem constraintClauses_bare (table : Text) (key : Option PrimaryKey) (cs : List Constraint) :
    (d.constraintClauses table key (cs.map Constraint.bare)).outcome =
      (d.constraintClauses table key cs).outcome.map (List.map RenderedClause.bare) := by
  induction cs generalizing key with
  | nil => exact congrArg Except.ok (keyClause_bare d key).symm
  | cons c cs ih =>
    rw [List.map_cons]
    by_cases hc : ∃ name columns, c = .primaryKey name columns
    · obtain ⟨name, columns, rfl⟩ := hc
      show (d.constraintClauses table key (.primaryKey name columns :: _)).outcome = _
      rw [constraintClauses_key, constraintClauses_key, ih]
      cases (d.constraintClauses table none cs).outcome with
      | error e => rfl
      | ok clauses => simp [Except.map, keyClause_bare]
    · have hne : ∀ name columns, c ≠ .primaryKey name columns :=
        fun name columns h => hc ⟨name, columns, h⟩
      have hne' : ∀ name columns, c.bare ≠ .primaryKey name columns := by
        intro name columns h
        cases c with
        | primaryKey => exact hne _ _ rfl
        | _ => cases h
      rw [constraintClauses_cons d hne, constraintClauses_cons d hne', constraint_bare, ih]
      cases (d.constraint table c).outcome with
      | error e => rfl
      | ok text =>
        cases (d.constraintClauses table key cs).outcome with
        | error e => rfl
        | ok clauses => cases text <;> rfl

theorem clauses_bare (s : Statement) :
    (d.clauses s.bare).outcome = (d.clauses s).outcome.map (List.map RenderedClause.bare) := by
  unfold clauses
  rw [ofStatement_bare, Traced.outcome_bind, Traced.outcome_bind]
  cases (PrimaryKey.ofStatement s).outcome with
  | error e => rfl
  | ok key =>
    show (_ >>= _ : Traced _).outcome = (_ >>= _ : Traced _).outcome.map _
    rw [placeCounting_bare, Traced.outcome_bind, Traced.outcome_bind]
    cases (d.placeCounting s key).outcome with
    | error e => rfl
    | ok p =>
      obtain ⟨counting, key⟩ := p
      have hcolumns := columnClauses_bare d key counting 0 s.columns
      have hconstraints := constraintClauses_bare d s.table.name
        (if key.tableColumns.isEmpty then none else some key) s.constraints
      show (d.columnClauses key counting 0 (s.columns.map Column.bare) >>= _ : Traced _).outcome =
        (_ >>= _ : Traced _).outcome.map _
      rw [Traced.outcome_bind, Traced.outcome_bind, hcolumns]
      cases (d.columnClauses key counting 0 s.columns).outcome with
      | error e => rfl
      | ok columns =>
        show (d.constraintClauses s.table.name (if key.tableColumns.isEmpty then none else some key)
          (s.constraints.map Constraint.bare) >>= _ : Traced _).outcome =
          (_ >>= _ : Traced _).outcome.map _
        rw [Traced.outcome_bind, Traced.outcome_bind, hconstraints]
        cases (d.constraintClauses s.table.name
          (if key.tableColumns.isEmpty then none else some key) s.constraints).outcome with
        | error e => rfl
        | ok constraints => simp [Except.map, Except.bind, pure]

theorem outcome_dropOptions (s : Statement) : (dropOptions s).outcome = .ok () := by
  unfold dropOptions
  dsimp only
  split
  · rfl
  · split <;> rfl

theorem outcome_statement (s : Statement) :
    (d.statement s).outcome =
      (d.clauses s).outcome.bind fun clauses => (d.assemble s clauses).outcome := by
  unfold statement
  rw [Traced.outcome_bind, outcome_dropOptions]
  exact Traced.outcome_bind _ _

theorem assemble_bare (s : Statement) (clauses : List RenderedClause) :
    d.assemble s.bare (clauses.map RenderedClause.bare) = d.assemble s clauses := by
  have hbody : ∀ indent : Text, (clauses.map RenderedClause.bare).map (fun c => indent ++ c.render) =
      clauses.map fun c => indent ++ c.render := by
    intro indent
    rw [List.map_map]
    exact List.map_congr_left fun c _ => congrArg (indent ++ ·) c.render_bare
  unfold assemble
  simp only [hbody]
  rfl

/-- What a statement becomes does not depend on where its tokens stand. -/
theorem statement_bare (s : Statement) : (d.statement s.bare).outcome = (d.statement s).outcome := by
  rw [outcome_statement, outcome_statement, clauses_bare]
  cases (d.clauses s).outcome with
  | error e => rfl
  | ok clauses => exact congrArg Traced.outcome (assemble_bare d s clauses)

end Direction

end TableDialects
