import TableDialects.Proofs.Reading.Shape
import TableDialects.Proofs.Token.Slice
import TableDialects.Statement

/- Reading a statement from its tokens. The reader of statements cuts the column
   section out of the source, cuts the section into clauses and scans each clause
   again. A reader that never goes back to the source, `Statement.ofTokens`, reads
   the same (`Statement.read_eq_ofTokens`), apart from the source texts that a
   statement and a refusal quote. -/
namespace TableDialects

/-! ## The tokens of the column section -/

/-- What stands before the column section of a statement, and the tokens in it. -/
structure SectionTokens where
  table : QualifiedName
  temporary : Bool
  ifNotExists : Bool
  inner : List Token

def SectionTokens.locate (ts : List Token) : Except Malformed SectionTokens :=
  match afterCreate? ts with
  | none => .error .noCreateTable
  | some rest =>
    let (temporary, rest) := takeTemporary rest
    match afterWords? ["TABLE"] rest with
    | none => .error .noCreateTable
    | some rest =>
      let (ifNotExists, rest) := takeIfNotExists rest
      match takeQualified "table name" rest with
      | .error e => .error e.cause
      | .ok (table, rest) =>
        if table.name.isEmpty then .error .noTableName
        else match rest with
          | [] => .error .noSection
          | t :: rest =>
            if t.isOpen then
              match closeGroup? 0 rest with
              | some (inner, _) => .ok ⟨table, temporary, ifNotExists, inner⟩
              | none => .error .unbalanced
            else .error .noSection

theorem closingPlace?_eq_none {depth : Nat} {ts : List Token} (h : closeGroup? depth ts = none) :
    closingPlace? depth ts = none := by
  fun_induction closeGroup? depth ts with
  | case1 => rw [closingPlace?.eq_def]
  | case2 => cases h
  | case3 depth t ts ht hnone ih => simp [closingPlace?, ht, ih hnone]
  | case4 => cases h
  | case5 => cases h
  | case6 t ts ht hc depth hnone ih => simp [closingPlace?, ht, hc, ih hnone]
  | case7 => cases h
  | case8 depth t ts ht hc hnone ih => simp [closingPlace?, ht, hc, ih hnone]

/-- The closing parenthesis that is looked up by its place is the one that ends
the group. -/
theorem closingPlace?_eq_some {depth : Nat} {ts inner behind : List Token}
    (h : closeGroup? depth ts = some (inner, behind)) :
    ∃ close, closingPlace? depth ts = some close.start ∧ ts = inner ++ close :: behind := by
  fun_induction closeGroup? depth ts generalizing inner behind with
  | case1 => cases h
  | case2 depth t ts ht inner' rest hsome ih =>
    cases h
    obtain ⟨close, hplace, rfl⟩ := ih hsome
    exact ⟨close, by simp [closingPlace?, ht, hplace], rfl⟩
  | case3 => cases h
  | case4 t ts ht hc =>
    cases h
    exact ⟨t, by simp [closingPlace?, ht, hc], rfl⟩
  | case5 t ts ht hc depth inner' rest hsome ih =>
    cases h
    obtain ⟨close, hplace, rfl⟩ := ih hsome
    exact ⟨close, by simp [closingPlace?, ht, hc, hplace], rfl⟩
  | case6 => cases h
  | case7 depth t ts ht hc inner' rest hsome ih =>
    cases h
    obtain ⟨close, hplace, rfl⟩ := ih hsome
    exact ⟨close, by simp [closingPlace?, ht, hc, hplace], rfl⟩
  | case8 => cases h

theorem afterCreate?_suffix {ts rest : List Token} (h : afterCreate? ts = some rest) :
    rest <:+ ts := by
  induction ts with
  | nil => cases h
  | cons t ts ih =>
    by_cases ht : t.isWord "CREATE" = true
    · rw [afterCreate?, if_pos ht] at h
      cases h
      exact List.suffix_cons t _
    · rw [afterCreate?, if_neg ht] at h
      exact (ih h).trans (List.suffix_cons t ts)

theorem takeTemporary_suffix (ts : List Token) : (takeTemporary ts).2 <:+ ts := by
  unfold takeTemporary
  split
  · exact afterWords?_suffix ‹_›
  · split
    · exact afterWords?_suffix ‹_›
    · exact List.suffix_refl ts

theorem takeIfNotExists_suffix (ts : List Token) : (takeIfNotExists ts).2 <:+ ts := by
  unfold takeIfNotExists
  split
  · exact afterWords?_suffix ‹_›
  · exact List.suffix_refl ts

/-- The section is found among the tokens where it is found in the source. -/
theorem Section.locate_cases (sql : Text) :
    (∃ e, Section.locate sql = .error e ∧ SectionTokens.locate (tokenize sql) = .error e) ∨
      ∃ table temporary ifNotExists before t inner u behind,
        tokenize sql = before ++ t :: (inner ++ u :: behind) ∧
        Section.locate sql = .ok ⟨table, temporary, ifNotExists, t.stop, u.start⟩ ∧
        SectionTokens.locate (tokenize sql) = .ok ⟨table, temporary, ifNotExists, inner⟩ := by
  unfold Section.locate SectionTokens.locate
  cases hcreate : afterCreate? (tokenize sql) with
  | none => exact .inl ⟨_, rfl, rfl⟩
  | some rest₁ =>
  dsimp only
  cases htable : afterWords? ["TABLE"] (takeTemporary rest₁).2 with
  | none => exact .inl ⟨_, rfl, rfl⟩
  | some rest₂ =>
  dsimp only
  cases hname : takeQualified "table name" (takeIfNotExists rest₂).2 with
  | error e => exact .inl ⟨_, rfl, rfl⟩
  | ok p =>
  obtain ⟨table, rest₃⟩ := p
  dsimp only
  by_cases hempty : table.name.isEmpty = true
  · rw [if_pos hempty, if_pos hempty]
    exact .inl ⟨_, rfl, rfl⟩
  rw [if_neg hempty, if_neg hempty]
  cases rest₃ with
  | nil => exact .inl ⟨_, rfl, rfl⟩
  | cons t rest =>
  dsimp only
  by_cases hopen : t.isOpen = true
  · rw [if_pos hopen, if_pos hopen]
    cases hgroup : closeGroup? 0 rest with
    | none =>
      rw [closingPlace?_eq_none hgroup]
      exact .inl ⟨_, rfl, rfl⟩
    | some p =>
      obtain ⟨inner, behind⟩ := p
      obtain ⟨u, hplace, rfl⟩ := closingPlace?_eq_some hgroup
      rw [hplace]
      have hname := takeQualified_suffix hname
      have hguard := hname.trans (takeIfNotExists_suffix rest₂)
      have htable := hguard.trans (afterWords?_suffix htable)
      have hcreate := (htable.trans (takeTemporary_suffix rest₁)).trans (afterCreate?_suffix hcreate)
      obtain ⟨before, hbefore⟩ := hcreate
      exact .inr ⟨table, _, _, before, t, inner, u, behind, hbefore.symm, rfl, rfl⟩
  · rw [if_neg hopen, if_neg hopen]
    exact .inl ⟨_, rfl, rfl⟩

theorem afterCreate?_shapes (ts : List Token) :
    afterCreate? (shapes ts) = (afterCreate? ts).map bare := by
  have hbare : ∀ us, afterCreate? (bare us) = (afterCreate? us).map bare := by
    intro us
    induction us with
    | nil => rfl
    | cons u us ih =>
      by_cases hu : u.isWord "CREATE" = true
      · rw [bare_cons, afterCreate?, afterCreate?, Token.isWord_shape, if_pos hu, if_pos hu]
        rfl
      · rw [bare_cons, afterCreate?, afterCreate?, Token.isWord_shape, if_neg hu, if_neg hu, ih]
  cases ts with
  | nil => rfl
  | cons t ts =>
    -- The first token is looked at and left behind in any case.
    have ht : Token.isWord { t with start := 0, spaced := false } "CREATE" = t.isWord "CREATE" := rfl
    by_cases hw : t.isWord "CREATE" = true
    · rw [shapes, afterCreate?, afterCreate?, ht, if_pos hw, if_pos hw]
      rfl
    · rw [shapes, afterCreate?, afterCreate?, ht, if_neg hw, if_neg hw, hbare]

theorem takeTemporary_bare (ts : List Token) :
    takeTemporary (bare ts) = ((takeTemporary ts).1, bare (takeTemporary ts).2) := by
  unfold takeTemporary
  simp only [afterWords?_bare]
  cases afterWords? ["TEMPORARY"] ts with
  | some rest => rfl
  | none => cases afterWords? ["TEMP"] ts <;> rfl

theorem takeIfNotExists_bare (ts : List Token) :
    takeIfNotExists (bare ts) = ((takeIfNotExists ts).1, bare (takeIfNotExists ts).2) := by
  unfold takeIfNotExists
  rw [afterWords?_bare]
  cases afterWords? ["IF", "NOT", "EXISTS"] ts <;> rfl

theorem SectionTokens.locate_shapes (ts : List Token) :
    SectionTokens.locate (shapes ts) =
      (SectionTokens.locate ts).map fun s => { s with inner := bare s.inner } := by
  unfold SectionTokens.locate
  rw [afterCreate?_shapes]
  cases afterCreate? ts with
  | none => rfl
  | some rest =>
  simp only [Option.map_some, takeTemporary_bare, afterWords?_bare]
  cases afterWords? ["TABLE"] (takeTemporary rest).2 with
  | none => rfl
  | some rest =>
  simp only [Option.map_some, takeIfNotExists_bare, takeQualified_bare]
  cases takeQualified "table name" (takeIfNotExists rest).2 with
  | error e => rfl
  | ok p =>
  obtain ⟨table, rest⟩ := p
  simp only [Reading.bare_ok, id]
  by_cases hempty : table.name.isEmpty = true
  · rw [if_pos hempty, if_pos hempty]; rfl
  rw [if_neg hempty, if_neg hempty]
  cases rest with
  | nil => rfl
  | cons t rest =>
  by_cases hopen : t.isOpen = true
  · simp only [bare_cons, Token.isOpen_shape, hopen, if_true, closeGroup?_bare]
    cases closeGroup? 0 rest <;> rfl
  · simp only [bare_cons, Token.isOpen_shape, hopen]
    rfl

/-! ## Clauses and statements -/

def Clause.ofTokens (ts : List Token) : Except Malformed Clause :=
  match ts with
  | [] => .error .emptyClause
  | ts =>
    match takeConstraint ts with
    | .error e => .error e.cause
    | .ok (some found, _) => .ok (.constraint found)
    | .ok (none, _) => (Column.read (renderTokens ts) ts).map fun c => .column c.bare

def Clause.bare : Clause → Clause
  | .column c => .column c.bare
  | .constraint c => .constraint c.bare

theorem Clause.read_eq_ofTokens (clause : Text) :
    ((Clause.read clause).mapError Malformed.plain).map Clause.bare =
      (Clause.ofTokens (TableDialects.bare (tokenize clause))).mapError Malformed.plain := by
  have hcolumn := Column.read_bare clause
  have hconstraint := takeConstraint_bare (tokenize clause)
  have hrender : renderTokens (TableDialects.bare (tokenize clause)) = renderTokens (tokenize clause) := by
    rw [← renderTokens_shapes, shapes_bare, renderTokens_shapes]
  rw [← hrender] at hcolumn
  unfold Clause.read Clause.ofTokens
  generalize tokenize clause = ts at hcolumn hconstraint
  cases ts with
  | nil => rfl
  | cons t ts =>
    rw [bare_cons] at hcolumn hconstraint ⊢
    dsimp only
    rw [hconstraint]
    cases takeConstraint (t :: ts) with
    | error e => rfl
    | ok p =>
      obtain ⟨found, rest⟩ := p
      cases found with
      | some found => rfl
      | none =>
        have hright : ∀ r : Except Malformed Column,
            (r.map fun c => Clause.column c.bare).mapError Malformed.plain =
              ((r.mapError Malformed.plain).map Column.bare).map Clause.column := by
          intro r
          cases r <;> rfl
        simp only [Reading.bare_ok, Option.map_none]
        rw [hright, ← hcolumn]
        cases Column.read clause (t :: ts) <;> rfl

namespace Statement

def clausesOfTokens : List (List Token) → Except Malformed (List Clause)
  | [] => .ok []
  | ts :: groups =>
    match Clause.ofTokens ts with
    | .error e => .error e
    | .ok c =>
      match clausesOfTokens groups with
      | .error e => .error e
      | .ok cs => .ok (c :: cs)

/-- Reads a statement from its tokens alone; what stands behind the column
section is left out. -/
def ofTokens (ts : List Token) : Except Malformed Statement :=
  match SectionTokens.locate ts with
  | .error e => .error e
  | .ok s =>
    match (splitGroups [','] s.inner).map shapes with
    | [] => .error .noClauses
    | groups =>
      match clausesOfTokens groups with
      | .error e => .error e
      | .ok cs => .ok ⟨s.table, s.temporary, s.ifNotExists, columnsOf cs, constraintsOf cs, []⟩

/-- A statement whose tokens have no places, without the texts of its source. -/
def bare (s : Statement) : Statement :=
  { s with
    columns := s.columns.map Column.bare
    constraints := s.constraints.map Constraint.bare
    options := [] }

theorem columnsOf_bare (cs : List Clause) :
    columnsOf (cs.map Clause.bare) = (columnsOf cs).map Column.bare := by
  induction cs with
  | nil => rfl
  | cons c cs ih =>
    cases c with
    | column c => exact congrArg (c.bare :: ·) ih
    | constraint c => exact ih

theorem constraintsOf_bare (cs : List Clause) :
    constraintsOf (cs.map Clause.bare) = (constraintsOf cs).map Constraint.bare := by
  induction cs with
  | nil => rfl
  | cons c cs ih =>
    cases c with
    | column c => exact ih
    | constraint c => exact congrArg (c.bare :: ·) ih

theorem readClauses_eq_ofTokens (clauses : List Text) :
    ((readClauses clauses).mapError Malformed.plain).map (List.map Clause.bare) =
      (clausesOfTokens (clauses.map fun c => TableDialects.bare (tokenize c))).mapError
        Malformed.plain := by
  induction clauses with
  | nil => rfl
  | cons clause clauses ih =>
    have hclause := Clause.read_eq_ofTokens clause
    rw [List.map_cons, readClauses, clausesOfTokens]
    cases hread : Clause.read clause with
    | error e =>
      rw [hread] at hclause
      cases htokens : Clause.ofTokens (TableDialects.bare (tokenize clause)) with
      | error e' =>
        rw [htokens] at hclause
        exact congrArg Except.error (Except.error.inj hclause)
      | ok c => rw [htokens] at hclause; cases hclause
    | ok c =>
      rw [hread] at hclause
      cases htokens : Clause.ofTokens (TableDialects.bare (tokenize clause)) with
      | error e' => rw [htokens] at hclause; cases hclause
      | ok c' =>
        rw [htokens] at hclause
        have hc : c.bare = c' := Except.ok.inj hclause
        subst hc
        dsimp only
        generalize readClauses clauses = left at ih ⊢
        generalize clausesOfTokens _ = right at ih ⊢
        cases left with
        | error e =>
          cases right with
          | error e' => exact congrArg Except.error (Except.error.inj ih)
          | ok cs' => cases ih
        | ok cs =>
          cases right with
          | error e' => cases ih
          | ok cs' =>
            have hcs : cs.map Clause.bare = cs' := Except.ok.inj ih
            subst hcs
            rfl

theorem splitGroups_shapes (separator : Text) (ts : List Token) :
    (splitGroups separator (TableDialects.bare ts)).map shapes =
      (splitGroups separator ts).map shapes := by
  rw [splitGroups_bare, List.map_map]
  exact List.map_congr_left fun g _ => shapes_bare g

/-- A statement is read from its source as it is read from its tokens. -/
theorem read_eq_ofTokens (sql : Text) :
    ((read sql).mapError Malformed.plain).map bare =
      (ofTokens (shapes (tokenize sql))).mapError Malformed.plain := by
  unfold read ofTokens
  rw [SectionTokens.locate_shapes]
  rcases Section.locate_cases sql with ⟨e, hsource, htokens⟩ |
    ⟨table, temporary, ifNotExists, before, t, inner, u, behind, hsplit, hsource, htokens⟩
  · rw [hsource, htokens]
    rfl
  · rw [hsource, htokens]
    simp only [Except.map]
    have hgroups : (splitClauses (slice sql t.stop u.start)).map
        (fun c => TableDialects.bare (tokenize c)) =
        (splitGroups [','] (TableDialects.bare inner)).map shapes := by
      rw [← tokenize_between hsplit, splitGroups_shapes]
      exact splitText_tokens [','] _
    rw [← hgroups]
    cases splitClauses (slice sql t.stop u.start) with
    | nil => rfl
    | cons clause clauses =>
      have hclauses := readClauses_eq_ofTokens (clause :: clauses)
      rw [List.map_cons] at hclauses ⊢
      dsimp only
      generalize readClauses (clause :: clauses) = left at hclauses ⊢
      generalize clausesOfTokens _ = right at hclauses ⊢
      cases left with
      | error e =>
        cases right with
        | error e' => exact congrArg Except.error (Except.error.inj hclauses)
        | ok cs' => cases hclauses
      | ok cs =>
        cases right with
        | error e' => cases hclauses
        | ok cs' =>
          have hcs : cs.map Clause.bare = cs' := Except.ok.inj hclauses
          subst hcs
          refine congrArg Except.ok ?_
          simp only [bare, columnsOf_bare, constraintsOf_bare]

end Statement

end TableDialects
