import TableDialects.Proofs.Written.Constraint

/- Statements as they are written: one clause a line between the lines of the
   head and of the end. Such a text passes the clean-up, but for the width that
   BOOLEAN may have in a string literal, and is read as the statement it was
   written from (`StatementForm.IsSound.read`). -/
namespace TableDialects

/-! ## Clauses -/

inductive ClauseForm where
  | column (f : ColumnForm)
  | constraint (c : Constraint)

namespace ClauseForm

def tokens (d : Dialect) : ClauseForm → List Token
  | .column f => f.tokens d
  | .constraint c => c.tokens d

def clause : ClauseForm → Clause
  | .column f => .column f.column
  | .constraint c => .constraint c

def widen : ClauseForm → ClauseForm
  | .column f => .column f.widen
  | .constraint c => .constraint c

/-- The clause consists of plain parts. -/
def IsSound : ClauseForm → Prop
  | .column f => f.IsSound
  | .constraint c => c.IsPlain

variable {f : ClauseForm}

theorem IsSound.widen (h : f.IsSound) : f.widen.IsSound := by
  cases f with
  | column f => exact ColumnForm.IsSound.widen h
  | constraint c => exact h

theorem widen_tokens (d : Dialect) (f : ClauseForm) :
    (f.tokens d).map Token.widen = f.widen.tokens d := by
  cases f with
  | column f => exact f.widen_tokens d
  | constraint c => exact (c.firm_tokens d).steady.widen

theorem IsSound.whole (d : Dialect) (h : f.IsSound) : Whole (f.tokens d) := by
  cases f with
  | column f => exact ColumnForm.IsSound.whole d h
  | constraint c => exact (c.firm_tokens d).whole

theorem IsSound.bare_tokens (d : Dialect) (h : f.IsSound) : bare (f.tokens d) = f.tokens d := by
  cases f with
  | column f => exact ColumnForm.IsSound.bare_tokens d h
  | constraint c => exact (c.firm_tokens d).steady.bare

theorem IsSound.legible (d : Dialect) (h : f.IsSound) : Legible (f.tokens d) := by
  cases f with
  | column f => exact ColumnForm.IsSound.legible d h
  | constraint c => exact (Constraint.IsPlain.legible d h).1

theorem IsSound.ofTokens (d : Dialect) (h : f.IsSound) :
    Clause.ofTokens (shapes (f.tokens d)) = .ok f.clause := by
  cases f with
  | column f => exact ColumnForm.IsSound.ofTokens d h
  | constraint c => exact (Constraint.IsPlain.transported d h).ofTokens

theorem IsSound.starts (d : Dialect) (h : f.IsSound) :
    ∃ t ts, f.tokens d = t :: ts ∧ t.spaced = true ∧ Line.isStart t = true := by
  have hkeyword : ∀ w ∈ constraintWords, Line.isStart (Token.keyword w) = true := by decide +kernel
  cases f with
  | column f =>
    refine ⟨_, _, rfl, rfl, ?_⟩
    have hn : isPlainName f.name = true := ColumnForm.IsSound.name h
    have hquote : (d.profile.quoteOpen != ',' && d.profile.quoteOpen != '(' &&
        !Text.sameLetter 'V' d.profile.quoteOpen) = true := by cases d <;> decide
    rw [Line.isStart, show (Token.quoted d f.name).value = d.quote f.name from rfl, (quote_plainName d hn).1]
    exact hquote
  | constraint c =>
    have hstart : ∃ w ∈ constraintWords, ∃ ts, c.tokens d = Token.keyword w :: ts := by
      cases c with
      | primaryKey name columns =>
        cases name with
        | none => exact ⟨"PRIMARY", by decide, _, rfl⟩
        | some n => exact ⟨"CONSTRAINT", by decide, _, rfl⟩
      | unique name columns =>
        rw [Constraint.tokens]
        split
        · exact ⟨"UNIQUE", by decide, _, rfl⟩
        · cases name with
          | none => exact ⟨"UNIQUE", by decide, _, rfl⟩
          | some n => exact ⟨"CONSTRAINT", by decide, _, rfl⟩
      | foreignKey name columns r =>
        cases name with
        | none => exact ⟨"FOREIGN", by decide, _, rfl⟩
        | some n => exact ⟨"CONSTRAINT", by decide, _, rfl⟩
      | index name columns type =>
        rcases type with _ | _ | _
        · cases d with
          | sqlserver => exact ⟨"INDEX", by decide, _, rfl⟩
          | _ => exact ⟨"KEY", by decide, _, rfl⟩
        · exact ⟨"FULLTEXT", by decide, _, rfl⟩
        · exact ⟨"SPATIAL", by decide, _, rfl⟩
      | check name condition => cases h
    obtain ⟨w, hw, ts, htokens⟩ := hstart
    exact ⟨_, _, htokens, rfl, hkeyword w hw⟩

end ClauseForm

/-! ## Lines of clauses -/

/-- Clauses one a line, with commas at the line ends. -/
def clauseLines (indent : Nat) : List (List Token) → List Line
  | [] => []
  | [c] => [⟨indent, c⟩]
  | c :: cs => ⟨indent, c ++ [Token.mark ',']⟩ :: clauseLines indent cs

theorem flatMap_clauseLines (indent : Nat) (cs : List (List Token)) :
    (clauseLines indent cs).flatMap Line.tokens = joinClauses cs := by
  fun_induction joinClauses cs with
  | case1 => rfl
  | case2 c => simp [clauseLines]
  | case3 c cs hne ih =>
    rw [clauseLines, List.flatMap_cons, ih]
    · simp
    · exact hne

theorem renderTokens_append {ts us : List Token} (h : ts ≠ []) :
    renderTokens (ts ++ us) = renderTokens ts ++ renderBehind Token.value us := by
  cases ts with
  | nil => exact absurd rfl h
  | cons t ts =>
    show t.value ++ renderBehind Token.value (ts ++ us) = t.value ++ renderBehind Token.value ts ++ _
    rw [renderBehind_append, List.append_assoc]

theorem linesBelow_append (ls ms : List Line) :
    linesBelow (ls ++ ms) = linesBelow ls ++ linesBelow ms := List.flatMap_append

theorem linesBelow_clauseLines (indent : Nat) {cs : List (List Token)} (hne : cs ≠ [])
    (h : ∀ c ∈ cs, c ≠ []) :
    linesBelow (clauseLines indent cs) = '\n' :: Text.join ",\n"
      (cs.map fun c => List.replicate indent ' ' ++ renderTokens c) := by
  fun_induction clauseLines indent cs with
  | case1 => exact absurd rfl hne
  | case2 c => simp [linesBelow, Line.text, Text.join]
  | case3 c cs hcs ih =>
    have hrest := ih (fun hnil => hcs hnil) fun d hd => h d (List.mem_cons_of_mem c hd)
    rw [List.map_cons, Text.join]
    · show '\n' :: Line.text ⟨indent, c ++ [Token.mark ',']⟩ ++ linesBelow (clauseLines indent cs) = _
      rw [hrest, Line.text, renderTokens_append (h c List.mem_cons_self)]
      simp [renderBehind, Token.mark]
    · intro hnil
      exact hcs (List.map_eq_nil_iff.1 hnil)

theorem readable_clauseLines (d : Dialect) (indent : Nat) {fs : List ClauseForm}
    (h : ∀ f ∈ fs, f.IsSound) :
    ∀ l ∈ clauseLines indent (fs.map (ClauseForm.tokens d)), l.IsReadable := by
  induction fs with
  | nil => exact fun l hl => nomatch hl
  | cons f fs ih =>
    have hf := h f List.mem_cons_self
    obtain ⟨t, ts, htokens, hspaced, hstart⟩ := hf.starts d
    have hcomma : Legible [Token.mark ','] ∧ Loose [Token.mark ','] :=
      ⟨⟨',', by decide, rfl⟩, fun u hu => by cases hu; decide⟩
    cases fs with
    | nil =>
      intro l hl
      cases List.mem_singleton.1 hl
      exact ⟨hf.legible d, t, ts, htokens, hspaced, hstart⟩
    | cons g gs =>
      intro l hl
      rcases List.mem_cons.1 hl with rfl | hl
      · refine ⟨(hf.legible d).append_loose hcomma.1 hcomma.2, t, ts ++ [Token.mark ','], ?_, hspaced, hstart⟩
        show f.tokens d ++ [Token.mark ','] = _
        rw [htokens]
        rfl
      · exact ih (fun g hg => h g (List.mem_cons_of_mem f hg)) l hl

theorem widen_clauseLines (d : Dialect) (indent : Nat) (fs : List ClauseForm) :
    (clauseLines indent (fs.map (ClauseForm.tokens d))).map Line.widen =
      clauseLines indent ((fs.map ClauseForm.widen).map (ClauseForm.tokens d)) := by
  induction fs with
  | nil => rfl
  | cons f fs ih =>
    cases fs with
    | nil => exact congrArg (fun ts => [Line.mk indent ts]) (f.widen_tokens d)
    | cons g gs =>
      have hline : Line.widen ⟨indent, f.tokens d ++ [Token.mark ',']⟩ =
          ⟨indent, f.widen.tokens d ++ [Token.mark ',']⟩ := by
        rw [← f.widen_tokens d, Line.widen]
        simp [Token.widen, Token.mark]
      show Line.widen ⟨indent, f.tokens d ++ [Token.mark ',']⟩ :: _ = _
      rw [hline]
      exact congrArg (_ :: ·) ih

/-! ## Statements -/

structure StatementForm where
  table : Text
  temporary : Bool
  ifNotExists : Bool
  clauses : List ClauseForm

namespace StatementForm

def headTokens (d : Dialect) (f : StatementForm) : List Token :=
  keywords ["CREATE"] ++ (keywords (if f.temporary then ["TEMPORARY"] else []) ++
    (keywords ["TABLE"] ++ (keywords (if f.ifNotExists then ["IF", "NOT", "EXISTS"] else []) ++
      [Token.quoted d f.table])))

def optionTokens : Dialect → List Token
  | .mysql => [Token.keyword "ENGINE", ⟨.op, ['='], 0, false⟩, (Token.keyword "InnoDB").tight,
      Token.keyword "DEFAULT", Token.keyword "CHARSET", ⟨.op, ['='], 0, false⟩,
      (Token.keyword "utf8mb4").tight]
  | _ => []

def endTokens (d : Dialect) : List Token :=
  (Token.mark ')').apart :: (optionTokens d ++ [Token.mark ';'])

def lines (d : Dialect) (f : StatementForm) : List Line :=
  ⟨0, f.headTokens d ++ [(Token.mark '(').apart]⟩ ::
    (clauseLines 4 (f.clauses.map (ClauseForm.tokens d)) ++ [⟨0, endTokens d⟩])

def statement (f : StatementForm) : Statement :=
  ⟨⟨none, f.table⟩, f.temporary, f.ifNotExists, Statement.columnsOf (f.clauses.map ClauseForm.clause),
    Statement.constraintsOf (f.clauses.map ClauseForm.clause), []⟩

def widen (f : StatementForm) : StatementForm := { f with clauses := f.clauses.map ClauseForm.widen }

/-- The statement has a plain name and clauses of plain parts. -/
structure IsSound (f : StatementForm) : Prop where
  table : isPlainName f.table = true
  clauses : ∀ c ∈ f.clauses, c.IsSound
  ne_nil : f.clauses ≠ []

variable {f : StatementForm}

theorem IsSound.widen (h : f.IsSound) : f.widen.IsSound := by
  refine ⟨h.table, fun c hc => ?_, fun hnil => h.ne_nil (List.map_eq_nil_iff.1 hnil)⟩
  obtain ⟨b, hb, rfl⟩ := List.mem_map.1 hc
  exact (h.clauses b hb).widen

theorem widen_lines (d : Dialect) (f : StatementForm) :
    (f.lines d).map Line.widen = f.widen.lines d := by
  have hhead : Line.widen ⟨0, f.headTokens d ++ [(Token.mark '(').apart]⟩ =
      ⟨0, f.widen.headTokens d ++ [(Token.mark '(').apart]⟩ := by
    have hsteady : Steady (f.headTokens d ++ [(Token.mark '(').apart]) := by
      have hname := (firm_labelTokens d (some f.table)).steady
      exact Steady.append ((firm_keywords _).steady.append ((firm_keywords _).steady.append
        ((firm_keywords _).steady.append ((firm_keywords _).steady.append hname))))
        (steady_cons rfl rfl steady_nil)
    exact congrArg (Line.mk 0) hsteady.widen
  have hend : Line.widen ⟨0, endTokens d⟩ = ⟨0, endTokens d⟩ := by cases d <;> rfl
  rw [lines, List.map_cons, List.map_append, widen_clauseLines, hhead, List.map_singleton, hend]
  rfl

theorem legible_headTokens (d : Dialect) (h : isPlainName f.table = true) :
    Legible (f.headTokens d ++ [(Token.mark '(').apart]) := by
  have hwords : ∀ ws : List String, (∀ w ∈ ws, isKeyword w.toList = true) →
      Legible (keywords ws) ∧ Loose (keywords ws) := by
    intro ws hws
    rw [keywords, List.map_eq_flatMap]
    refine legible_flatMap fun w hw => ⟨hws w hw, fun t ht => ?_⟩
    cases ht
    rfl
  obtain ⟨hcreate, -⟩ := hwords ["CREATE"] (by decide)
  obtain ⟨htemporary, htemporary'⟩ := hwords (if f.temporary then ["TEMPORARY"] else [])
    (by cases f.temporary <;> decide)
  obtain ⟨htable, htable'⟩ := hwords ["TABLE"] (by decide)
  obtain ⟨hexists, hexists'⟩ := hwords (if f.ifNotExists then ["IF", "NOT", "EXISTS"] else [])
    (by cases f.ifNotExists <;> decide)
  have hplain : PlainName? (some f.table) := fun n hn => Option.some.inj hn ▸ h
  obtain ⟨hname, hname'⟩ := legible_labelTokens d hplain
  have hhead : Legible (f.headTokens d) :=
    hcreate.append_loose (htemporary.append_loose (htable.append_loose (hexists.append_loose hname hname')
      (hexists'.append hname')) (htable'.append (hexists'.append hname')))
      (htemporary'.append (htable'.append (hexists'.append hname')))
  have hopen : Legible [(Token.mark '(').apart] := ⟨'(', by decide, rfl⟩
  refine hhead.append hopen fun t ht u hu => ?_
  have hlast : (f.headTokens d).getLast? = some (Token.quoted d f.table) := by
    unfold headTokens
    simp only [← List.append_assoc]
    rw [List.getLast?_concat]
  rw [hlast] at ht
  cases ht
  cases hu
  unfold Token.follows
  rw [show (Token.mark '(').apart.spaced = true from rfl, if_pos rfl, endsType_quoted]
  rfl

theorem legible_endTokens (d : Dialect) : Legible (endTokens d) := by
  have hclose : ((Token.mark ')').apart).Printed := ⟨')', by decide, rfl⟩
  have hsemicolon : (Token.mark ';').Printed := ⟨';', by decide, rfl⟩
  have hequals : (⟨.op, ['='], 0, false⟩ : Token).Printed := rfl
  have hword : ∀ w : String, isKeyword w.toList = true → (Token.keyword w).Printed := fun _ h => h
  have htight : ∀ w : String, isKeyword w.toList = true → (Token.keyword w).tight.Printed := fun _ h => h
  cases d with
  | mysql =>
    exact ⟨hclose, rfl, hword _ (by decide), rfl, hequals, rfl, htight _ (by decide), rfl,
      hword _ (by decide), rfl, hword _ (by decide), rfl, hequals, rfl, htight _ (by decide), rfl, hsemicolon⟩
  | _ => exact ⟨hclose, rfl, hsemicolon⟩

theorem IsSound.readable (d : Dialect) (h : f.IsSound) : ∀ l ∈ f.lines d, l.IsReadable := by
  intro l hl
  rcases List.mem_cons.1 hl with rfl | hl
  · exact ⟨legible_headTokens d h.table, _, _, rfl, rfl, by decide⟩
  · rcases List.mem_append.1 hl with hl | hl
    · exact readable_clauseLines d 4 h.clauses l hl
    · cases List.mem_singleton.1 hl
      exact ⟨legible_endTokens d, _, _, rfl, rfl, by decide⟩

theorem flatMap_lines (d : Dialect) (f : StatementForm) :
    (f.lines d).flatMap Line.tokens = f.headTokens d ++ ((Token.mark '(').apart ::
      (joinClauses (f.clauses.map (ClauseForm.tokens d)) ++ endTokens d)) := by
  rw [lines, List.flatMap_cons, List.flatMap_append, flatMap_clauseLines]
  simp

theorem locate_headTokens (d : Dialect) (rest : List Token) :
    SectionTokens.locate (f.headTokens d ++ rest) =
      match takeQualified "table name" (Token.quoted d f.table :: rest) with
      | .error e => .error e.cause
      | .ok (table, rest) =>
        if table.name.isEmpty then .error .noTableName
        else match rest with
          | [] => .error .noSection
          | t :: rest =>
            if t.isOpen then
              match closeGroup? 0 rest with
              | some (inner, _) => .ok ⟨table, f.temporary, f.ifNotExists, inner⟩
              | none => .error .unbalanced
            else .error .noSection := by
  unfold headTokens
  cases f.temporary <;> cases f.ifNotExists <;> rfl

theorem locate_tokens (d : Dialect) (h : isPlainName f.table = true) {inner : List Token}
    (hinner : Closed inner) (behind : List Token) :
    SectionTokens.locate (f.headTokens d ++ ((Token.mark '(').apart ::
      (inner ++ (Token.mark ')').apart :: behind))) =
        .ok ⟨⟨none, f.table⟩, f.temporary, f.ifNotExists, inner⟩ := by
  have hclose : closeGroup? 0 (inner ++ (Token.mark ')').apart :: behind) = some (inner, behind) := by
    rw [hinner, show closeGroup? 0 ((Token.mark ')').apart :: behind) = some ([], behind) from rfl,
      Option.map_some, List.append_nil]
  generalize inner ++ (Token.mark ')').apart :: behind = rest at hclose
  have hqualified : takeQualified "table name".toList
      (Token.quoted d f.table :: (Token.mark '(').apart :: rest) =
        .ok (⟨none, f.table⟩, (Token.mark '(').apart :: rest) :=
    takeQualified_tokens "table name" (d := d) (q := ⟨none, f.table⟩) (fun _ hs => by cases hs)
      (transports_of_isPlainName d h) rfl
  have hname : f.table.isEmpty = false := by
    cases hn : f.table with
    | nil => rw [hn] at h; cases h
    | cons c n => rfl
  rw [locate_headTokens, hqualified]
  dsimp only
  rw [hname, if_neg Bool.false_ne_true, if_pos (by decide), hclose]

theorem clausesOfTokens_map (d : Dialect) {fs : List ClauseForm} (h : ∀ f ∈ fs, f.IsSound) :
    Statement.clausesOfTokens ((fs.map (ClauseForm.tokens d)).map shapes) =
      .ok (fs.map ClauseForm.clause) := by
  induction fs with
  | nil => rfl
  | cons f fs ih =>
    rw [List.map_cons, List.map_cons, Statement.clausesOfTokens, (h f List.mem_cons_self).ofTokens d,
      ih fun g hg => h g (List.mem_cons_of_mem f hg)]
    rfl

/-- The tokens of a written statement are read as the statement. -/
theorem IsSound.ofTokens (d : Dialect) (h : f.IsSound) :
    Statement.ofTokens (shapes ((f.lines d).flatMap Line.tokens)) = .ok f.statement := by
  have hwhole : ∀ c ∈ f.clauses.map (ClauseForm.tokens d), Whole c ∧ c ≠ [] := by
    intro c hc
    obtain ⟨g, hg, rfl⟩ := List.mem_map.1 hc
    obtain ⟨t, ts, htokens, -⟩ := (h.clauses g hg).starts d
    exact ⟨(h.clauses g hg).whole d, htokens ▸ List.cons_ne_nil t ts⟩
  have hclosed := closed_joinClauses fun c hc => (hwhole c hc).1
  have hlocate := locate_tokens (f := f) d h.table hclosed (optionTokens d ++ [Token.mark ';'])
  have hbare : bare (joinClauses (f.clauses.map (ClauseForm.tokens d))) =
      joinClauses (f.clauses.map (ClauseForm.tokens d)) := by
    have hsteady : ∀ fs : List ClauseForm, (∀ g ∈ fs, g.IsSound) →
        bare (joinClauses (fs.map (ClauseForm.tokens d))) = joinClauses (fs.map (ClauseForm.tokens d)) := by
      intro fs hfs
      induction fs with
      | nil => rfl
      | cons g gs ih =>
        have hrest : bare ((gs.map (ClauseForm.tokens d)).flatMap fun c => Token.mark ',' :: c) =
            (gs.map (ClauseForm.tokens d)).flatMap fun c => Token.mark ',' :: c := by
          clear ih
          induction gs with
          | nil => rfl
          | cons k gs ih =>
            rw [List.map_cons, List.flatMap_cons, bare_append, ih fun m hm => hfs m (by
              rcases List.mem_cons.1 hm with rfl | hm
              · exact List.mem_cons_self
              · exact List.mem_cons_of_mem _ (List.mem_cons_of_mem _ hm)), bare_cons,
              (hfs k (List.mem_cons_of_mem _ List.mem_cons_self)).bare_tokens d]
            rfl
        rw [List.map_cons, joinClauses_cons, bare_append, hrest,
          (hfs g List.mem_cons_self).bare_tokens d]
    exact hsteady f.clauses h.clauses
  have hinner : SectionTokens.locate (shapes ((f.lines d).flatMap Line.tokens)) =
      .ok ⟨⟨none, f.table⟩, f.temporary, f.ifNotExists,
        joinClauses (f.clauses.map (ClauseForm.tokens d))⟩ := by
    rw [SectionTokens.locate_shapes, flatMap_lines]
    unfold endTokens
    rw [hlocate]
    exact congrArg (fun inner => Except.ok (SectionTokens.mk _ _ _ inner)) hbare
  have hne : (f.clauses.map (ClauseForm.tokens d)).map shapes ≠ [] := by
    intro hnil
    exact h.ne_nil (List.map_eq_nil_iff.1 (List.map_eq_nil_iff.1 hnil))
  unfold Statement.ofTokens
  rw [hinner]
  dsimp only
  rw [splitGroups_joinClauses hwhole]
  split
  · rename_i hnil
    exact absurd hnil hne
  · rw [clausesOfTokens_map d h.clauses]
    rfl

/-- A written statement, after the clean-up, is read as what it was written
from. -/
theorem IsSound.read (d : Dialect) (h : f.IsSound) :
    ∃ s, Statement.read (Cleanup.tightTypes (Cleanup.lines (linesText (f.lines d)))) = .ok s ∧
      s.bare = f.widen.statement := by
  have hfirst : ∀ g : StatementForm, ∀ l ∈ (g.lines d).head?, l.indent = 0 := by
    intro g l hl
    cases hl
    rfl
  have hclean : Cleanup.tightTypes (Cleanup.lines (linesText (f.lines d))) =
      linesText (f.widen.lines d) := by
    have hne : f.lines d ≠ [] := List.cons_ne_nil _ _
    rw [lines_linesText hne (h.readable d) (hfirst f),
      tightTypes_linesText (h.readable d), widen_lines]
  have hread := Statement.read_eq_ofTokens (linesText (f.widen.lines d))
  rw [shapes_tokenize_linesText (h.widen.readable d) (hfirst f.widen), h.widen.ofTokens d] at hread
  rw [hclean]
  cases hs : Statement.read (linesText (f.widen.lines d)) with
  | error e =>
    rw [hs] at hread
    cases hread
  | ok s =>
    rw [hs] at hread
    exact ⟨s, rfl, Except.ok.inj hread⟩

end StatementForm

end TableDialects
