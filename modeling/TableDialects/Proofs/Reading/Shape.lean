import TableDialects.Clause.Column
import TableDialects.Proofs.Token.Layout

/- Reading does not look at places. A reader sees of a token what it is, what it
   says and whether a gap stands before it, but not where it stands: from tokens
   without places (`bare`) it reads the same, without places. This is proved reader
   by reader, up to those of constraints (`takeConstraint_bare`) and of columns
   (`Column.read_bare`). Nothing is assumed of the tokens, so it holds also where a
   reader fails; of a clause that its complaint quotes only the tokens count
   (`Malformed.plain`). -/
namespace TableDialects

/-! ## Tokens -/

section
variable (t : Token)

@[simp] theorem Token.kind_shape : t.shape.kind = t.kind := rfl

@[simp] theorem Token.value_shape : t.shape.value = t.value := rfl

@[simp] theorem Token.spaced_shape : t.shape.spaced = t.spaced := rfl

@[simp] theorem Token.upper_shape : t.shape.upper = t.upper := rfl

@[simp] theorem Token.isWord_shape (w : Text) : t.shape.isWord w = t.isWord w := rfl

@[simp] theorem Token.isWordOf_shape (ws : List String) : t.shape.isWordOf ws = t.isWordOf ws := rfl

@[simp] theorem Token.isPunct_shape (p : Text) : t.shape.isPunct p = t.isPunct p := rfl

@[simp] theorem Token.isOpen_shape : t.shape.isOpen = t.isOpen := rfl

@[simp] theorem Token.isClose_shape : t.shape.isClose = t.isClose := rfl

@[simp] theorem Token.isIdentifier_shape : t.shape.isIdentifier = t.isIdentifier := rfl

@[simp] theorem Token.isArray_shape : t.shape.isArray = t.isArray := rfl

@[simp] theorem Token.name_shape : t.shape.name = t.name := rfl

@[simp] theorem Token.turn_shape : t.shape.turn = t.turn := rfl

end

/-- A reading without places: `f` takes them off the value. -/
def Reading.bare {α β : Type} (f : α → β) : Reading α → Reading β
  | .ok (a, rest) => .ok (f a, TableDialects.bare rest)
  | .error e => .error ⟨e.cause, TableDialects.bare e.rest⟩

@[simp] theorem Reading.bare_ok {α β : Type} (f : α → β) (a : α) (rest : List Token) :
    Reading.bare f (.ok (a, rest)) = .ok (f a, TableDialects.bare rest) := rfl

@[simp] theorem Reading.bare_error {α β : Type} (f : α → β) (e : Stop) :
    Reading.bare f (.error e) = .error ⟨e.cause, TableDialects.bare e.rest⟩ := rfl

theorem Reading.bare_mapValue {α β α' β' : Type} {f : α → β} {g : α' → β'} {h : α → α'} {k : β → β'}
    (hfg : ∀ a, g (h a) = k (f a)) (r : Reading α) : (r.bare h).mapValue g = (r.mapValue f).bare k := by
  cases r with
  | error e => rfl
  | ok p => exact congrArg (fun b => Except.ok (b, TableDialects.bare p.2)) (hfg p.1)

/-! ## The front of a token list -/

@[simp] theorem startsWithWords_bare (words : List Text) (ts : List Token) :
    startsWithWords words (bare ts) = startsWithWords words ts := by
  induction words generalizing ts with
  | nil => rfl
  | cons w words ih =>
    cases ts with
    | nil => rfl
    | cons t ts => simp [startsWithWords, ih]

@[simp] theorem afterWords?_bare (words : List String) (ts : List Token) :
    afterWords? words (bare ts) = (afterWords? words ts).map bare := by
  unfold afterWords?
  rw [startsWithWords_bare]
  split
  · simp [bare_drop]
  · rfl

@[simp] theorem startsOpen_bare (ts : List Token) : startsOpen (bare ts) = startsOpen ts := by
  cases ts <;> rfl

@[simp] theorem startsWithWordOf_bare (words : List String) (ts : List Token) :
    startsWithWordOf words (bare ts) = startsWithWordOf words ts := by
  cases ts <;> rfl

@[simp] theorem startsIdentifier_bare (ts : List Token) :
    startsIdentifier (bare ts) = startsIdentifier ts := by
  cases ts <;> rfl

theorem takeName_bare (what : Text) (ts : List Token) :
    takeName what (bare ts) = (takeName what ts).bare id := by
  cases ts with
  | nil => rfl
  | cons t ts =>
    by_cases h : t.isIdentifier = true <;> simp [takeName, h]

theorem takeDotted_bare (what : Text) (ts : List Token) :
    takeDotted what (bare ts) = (takeDotted what ts).bare id := by
  fun_induction takeDotted what ts with
  | case1 => rfl
  | case2 dot hdot => simp [takeDotted, hdot]
  | case3 dot hdot t ts ht names rest hrest ih => simp [takeDotted, hdot, ht, ih, hrest]
  | case4 dot hdot t ts ht e he ih => simp [takeDotted, hdot, ht, ih, he]
  | case5 dot hdot t ts ht => simp [takeDotted, hdot, ht]
  | case6 dot ts hdot =>
    rw [bare_cons, takeDotted.eq_def]
    simp [hdot]

theorem takeQualified_bare (what : Text) (ts : List Token) :
    takeQualified what (bare ts) = (takeQualified what ts).bare id := by
  unfold takeQualified
  rw [takeName_bare]
  cases takeName what ts with
  | error e => rfl
  | ok p =>
    obtain ⟨first, rest⟩ := p
    simp only [Reading.bare_ok, id]
    rw [takeDotted_bare]
    cases takeDotted what rest <;> rfl

theorem closeGroup?_bare (depth : Nat) (ts : List Token) :
    closeGroup? depth (bare ts) = (closeGroup? depth ts).map fun p => (bare p.1, bare p.2) := by
  fun_induction closeGroup? depth ts with
  | case1 => rfl
  | case2 depth t ts ht inner rest h ih => simp [closeGroup?, ht, ih, h]
  | case3 depth t ts ht h ih => simp [closeGroup?, ht, ih, h]
  | case4 t ts ht hc => simp [closeGroup?, ht, hc]
  | case5 t ts ht hc depth inner rest h ih => simp [closeGroup?, ht, hc, ih, h]
  | case6 t ts ht hc depth h ih => simp [closeGroup?, ht, hc, ih, h]
  | case7 depth t ts ht hc inner rest h ih => simp [closeGroup?, ht, hc, ih, h]
  | case8 depth t ts ht hc h ih => simp [closeGroup?, ht, hc, ih, h]

theorem takeGroup_bare (ts : List Token) : takeGroup (bare ts) = (takeGroup ts).bare bare := by
  cases ts with
  | nil => rfl
  | cons t ts =>
    by_cases h : t.isOpen = true
    · simp only [bare_cons, takeGroup, Token.isOpen_shape, h, if_true]
      rw [closeGroup?_bare]
      cases closeGroup? 0 ts <;> rfl
    · simp [takeGroup, h]

@[simp] theorem startsOption_bare (ts : List Token) : startsOption (bare ts) = startsOption ts := by
  cases ts with
  | nil => rfl
  | cons t ts =>
    simp only [bare_cons, startsOption, Token.kind_shape, Token.upper_shape,
      startsWithWordOf_bare]

theorem expressionRest_bare (depth : Int) (ts : List Token) :
    expressionRest depth (bare ts) =
      (bare (expressionRest depth ts).1, bare (expressionRest depth ts).2) := by
  induction ts generalizing depth with
  | nil => rfl
  | cons t ts ih =>
    have hstart := startsOption_bare (t :: ts)
    rw [bare_cons] at hstart ⊢
    unfold expressionRest
    rw [hstart]
    split
    · rfl
    · rw [Token.turn_shape, ih]
      rfl

theorem takeExpression_bare (ts : List Token) :
    takeExpression (bare ts) = (takeExpression ts).bare bare := by
  cases ts with
  | nil => rfl
  | cons t ts =>
    simp only [bare_cons, takeExpression, Token.isOpen_shape]
    rw [expressionRest_bare]
    rfl

theorem groupsFrom_bare (separator : Text) (depth : Int) (ts : List Token) :
    groupsFrom separator depth (bare ts) = (groupsFrom separator depth ts).map bare := by
  induction ts generalizing depth with
  | nil => rfl
  | cons t ts ih =>
    simp only [bare_cons, groupsFrom, Token.isOpen_shape, Token.isClose_shape, Token.isPunct_shape,
      Token.turn_shape, ih]
    split
    · rfl
    · cases groupsFrom separator (depth + t.turn) ts <;> rfl

theorem splitGroups_bare (separator : Text) (ts : List Token) :
    splitGroups separator (bare ts) = (splitGroups separator ts).map bare := by
  unfold splitGroups
  rw [groupsFrom_bare, List.filter_map]
  congr 2
  funext g
  cases g <;> rfl

/-! ## References and constraints -/

theorem takeColumns_bare (ts : List Token) : takeColumns (bare ts) = (takeColumns ts).bare id := by
  unfold takeColumns
  rw [takeGroup_bare]
  refine Reading.bare_mapValue (fun inner => ?_) (takeGroup ts)
  rw [splitGroups_bare, List.filterMap_map, id]
  congr 1
  funext group
  cases group <;> rfl

theorem eventAction?_bare (event : ReferenceEvent) (ts : List Token) :
    eventAction? event (bare ts) = (eventAction? event ts).map fun p => (p.1, bare p.2) := by
  unfold eventAction?
  induction ReferenceAction.all with
  | nil => rfl
  | cons action actions ih =>
    rw [List.findSome?_cons, List.findSome?_cons, afterWords?_bare, ih]
    cases afterWords? ("ON" :: event.word :: action.words) ts <;> rfl

theorem skipWord_bare (ts : List Token) : skipWord (bare ts) = (skipWord ts).bare id := by
  cases ts <;> rfl

theorem takeReferencePart_bare (ts : List Token) :
    takeReferencePart (bare ts) = (takeReferencePart ts).bare id := by
  unfold takeReferencePart
  simp only [afterWords?_bare, eventAction?_bare, Option.isSome_map]
  split
  · cases eventAction? .delete ts <;> rfl
  split
  · cases eventAction? .update ts <;> rfl
  cases afterWords? ["MATCH"] ts with
  | some rest => exact skipWord_bare rest
  | none =>
  cases afterWords? ["NOT", "DEFERRABLE"] ts with
  | some rest => rfl
  | none =>
  cases afterWords? ["DEFERRABLE"] ts with
  | some rest => rfl
  | none =>
  cases afterWords? ["INITIALLY"] ts with
  | some rest => exact skipWord_bare rest
  | none => rfl

theorem takeActions_eq (ts : List Token) :
    takeActions ts = match takeReferencePart ts with
      | .error e => .error e
      | .ok (none, rest) => .ok ([], rest)
      | .ok (some part, rest) =>
        match takeActions rest with
        | .error e => .error e
        | .ok (actions, rest) =>
          match part with
          | .action event action => .ok ((event, action) :: actions, rest)
          | .skipped => .ok (actions, rest) := by
  rw [takeActions]
  split
  · rename_i h; rw [h]
  · rename_i h; rw [h]
  · rename_i part rest h
    simp only [h]
    cases part <;> rfl

theorem takeActions_bare (ts : List Token) : takeActions (bare ts) = (takeActions ts).bare id := by
  fun_induction takeActions ts with
  | case1 ts e h => rw [takeActions_eq, takeReferencePart_bare, h]; rfl
  | case2 ts rest h => rw [takeActions_eq, takeReferencePart_bare, h]; rfl
  | case3 ts part rest h e he ih =>
    rw [takeActions_eq, takeReferencePart_bare, h]
    simp only [Reading.bare_ok, id, ih, he]
    rfl
  | case4 ts rest actions left hmore event action h _ ih =>
    rw [takeActions_eq, takeReferencePart_bare, h]
    simp only [Reading.bare_ok, id, ih, hmore]
  | case5 ts rest actions left hmore h _ ih =>
    rw [takeActions_eq, takeReferencePart_bare, h]
    simp only [Reading.bare_ok, id, ih, hmore]

theorem takeOptionalColumns_bare (ts : List Token) :
    takeOptionalColumns (bare ts) = (takeOptionalColumns ts).bare id := by
  unfold takeOptionalColumns
  rw [startsOpen_bare]
  split
  · exact takeColumns_bare ts
  · rfl

theorem takeReference_bare (ts : List Token) :
    takeReference (bare ts) = (takeReference ts).bare id := by
  unfold takeReference
  rw [takeQualified_bare]
  cases takeQualified "referenced table" ts with
  | error e => rfl
  | ok p =>
    obtain ⟨target, rest⟩ := p
    simp only [Reading.bare_ok, id]
    rw [takeOptionalColumns_bare]
    cases takeOptionalColumns rest with
    | error e => rfl
    | ok p =>
      obtain ⟨columns, rest⟩ := p
      simp only [Reading.bare_ok, id]
      rw [takeActions_bare]
      cases takeActions rest <;> rfl

def Constraint.bare : Constraint → Constraint
  | .check name condition => .check name (TableDialects.bare condition)
  | c => c

theorem skipIndexOptions_bare (ts : List Token) :
    skipIndexOptions (bare ts) = bare (skipIndexOptions ts) :=
  bare_dropWhile (fun _ => rfl) ts

theorem takeConstraintName_bare (ts : List Token) :
    takeConstraintName (bare ts) = ((takeConstraintName ts).1, bare (takeConstraintName ts).2) := by
  unfold takeConstraintName
  rw [afterWords?_bare]
  cases afterWords? ["CONSTRAINT"] ts with
  | none => rfl
  | some rest =>
    cases rest with
    | nil => rfl
    | cons t rest =>
      by_cases h : (t.isIdentifier && !t.isWordOf ["PRIMARY", "UNIQUE", "FOREIGN", "CHECK"]) = true
      · simp only [Option.map_some, bare_cons, Token.isIdentifier_shape, Token.isWordOf_shape, h,
          if_true, Token.name_shape]
      · simp only [Option.map_some, bare_cons, Token.isIdentifier_shape, Token.isWordOf_shape, h]
        rfl

theorem afterKeyWord?_bare (ts : List Token) :
    afterKeyWord? (bare ts) = (afterKeyWord? ts).map bare := by
  unfold afterKeyWord?
  simp only [afterWords?_bare]
  cases afterWords? ["KEY"] ts <;> rfl

theorem afterKeyWord?_getD_bare (ts : List Token) :
    (afterKeyWord? (bare ts)).getD (bare ts) = bare ((afterKeyWord? ts).getD ts) := by
  rw [afterKeyWord?_bare]
  cases afterKeyWord? ts <;> rfl

@[simp] theorem indexType?_bare (ts : List Token) : indexType? (bare ts) = indexType? ts := by
  cases ts <;> rfl

@[simp] theorem continuesIndex_bare (ts : List Token) :
    continuesIndex (bare ts) = continuesIndex ts := by
  cases ts with
  | nil => rfl
  | cons t ts =>
    simp only [bare_cons, continuesIndex, Token.isOpen_shape, Token.isIdentifier_shape,
      Token.kind_shape, Token.value_shape, startsOpen_bare, startsWithWordOf_bare]

@[simp] theorem startsIndex_bare (ts : List Token) : startsIndex (bare ts) = startsIndex ts := by
  unfold startsIndex
  rw [indexType?_bare, bare_drop, afterKeyWord?_getD_bare, continuesIndex_bare, afterKeyWord?_bare]
  cases afterKeyWord? ts <;> simp

theorem primaryKey_bare (name : Option Text) (ts : List Token) :
    primaryKey name (bare ts) = (primaryKey name ts).bare (Option.map Constraint.bare) := by
  unfold primaryKey
  have hskip : (if startsIdentifier (skipIndexOptions (bare ts)) then
      (skipIndexOptions (bare ts)).drop 1 else skipIndexOptions (bare ts)) =
      bare (if startsIdentifier (skipIndexOptions ts) then (skipIndexOptions ts).drop 1
        else skipIndexOptions ts) := by
    rw [skipIndexOptions_bare, startsIdentifier_bare, bare_drop]
    split <;> rfl
  dsimp only
  rw [hskip, takeColumns_bare]
  cases takeColumns _ <;> rfl

/-- The name in front of the columns of a unique key, and the tokens behind it. -/
def uniqueName (name : Option Text) (ts : List Token) : Option Text × List Token :=
  match ts with
  | t :: rest =>
    if t.isIdentifier && !t.isWordOf indexOptions then (some t.name, rest) else (name, ts)
  | [] => (name, ts)

theorem uniqueKey_eq (name : Option Text) (ts : List Token) :
    uniqueKey name ts =
      let p := uniqueName name ((afterKeyWord? ts).getD (skipIndexOptions ts))
      match takeColumns (skipIndexOptions p.2) with
      | .ok (columns, rest) => .ok (some (.unique p.1 columns), rest)
      | .error e => .error e := by
  unfold uniqueKey uniqueName
  cases afterKeyWord? ts <;> rfl

theorem uniqueName_bare (name : Option Text) (ts : List Token) :
    uniqueName name (bare ts) = ((uniqueName name ts).1, bare (uniqueName name ts).2) := by
  cases ts with
  | nil => rfl
  | cons t ts =>
    by_cases h : (t.isIdentifier && !t.isWordOf indexOptions) = true
    · simp only [bare_cons, uniqueName, Token.isIdentifier_shape, Token.isWordOf_shape, h, if_true,
        Token.name_shape]
    · simp only [bare_cons, uniqueName, Token.isIdentifier_shape, Token.isWordOf_shape, h]
      rfl

theorem uniqueKey_bare (name : Option Text) (ts : List Token) :
    uniqueKey name (bare ts) = (uniqueKey name ts).bare (Option.map Constraint.bare) := by
  have hkey : (afterKeyWord? (bare ts)).getD (skipIndexOptions (bare ts)) =
      bare ((afterKeyWord? ts).getD (skipIndexOptions ts)) := by
    rw [afterKeyWord?_bare, skipIndexOptions_bare]
    cases afterKeyWord? ts <;> rfl
  rw [uniqueKey_eq, uniqueKey_eq, hkey, uniqueName_bare]
  dsimp only
  rw [skipIndexOptions_bare, takeColumns_bare]
  cases takeColumns _ <;> rfl

theorem foreignKeyName_bare (name : Option Text) (ts : List Token) :
    foreignKeyName name (bare ts) = ((foreignKeyName name ts).1, bare (foreignKeyName name ts).2) := by
  cases ts with
  | nil => rfl
  | cons t ts =>
    simp only [bare_cons, foreignKeyName, Token.isIdentifier_shape, Token.name_shape]
    by_cases ht : t.isIdentifier = true
    · simp only [ht, if_true]
      by_cases hn : (name.any fun n => !n.isEmpty) = true <;> simp [hn]
    · simp [ht]

theorem foreignKey_bare (name : Option Text) (ts : List Token) :
    foreignKey name (bare ts) = (foreignKey name ts).bare (Option.map Constraint.bare) := by
  unfold foreignKey
  rw [foreignKeyName_bare]
  obtain ⟨name, ts⟩ := foreignKeyName name ts
  simp only [takeColumns_bare]
  cases takeColumns ts with
  | error e => rfl
  | ok p =>
    obtain ⟨columns, rest⟩ := p
    simp only [Reading.bare_ok, id, afterWords?_bare]
    cases afterWords? ["REFERENCES"] rest with
    | none => rfl
    | some rest =>
      simp only [Option.map_some, takeReference_bare]
      cases takeReference rest <;> rfl

theorem plainIndex_bare (ts : List Token) :
    plainIndex (bare ts) = (plainIndex ts).bare (Option.map Constraint.bare) := by
  have hdrop : (if (indexType? ts).isSome then (bare ts).drop 1 else bare ts) =
      bare (if (indexType? ts).isSome then ts.drop 1 else ts) := by
    rw [bare_drop]
    split <;> rfl
  unfold plainIndex
  simp only [indexType?_bare, hdrop, afterKeyWord?_getD_bare]
  generalize (afterKeyWord? (if (indexType? ts).isSome then ts.drop 1 else ts)).getD
    (if (indexType? ts).isSome then ts.drop 1 else ts) = us
  cases us with
  | nil => rfl
  | cons t us =>
    by_cases h : t.isIdentifier = true
    · simp only [bare_cons, Token.isIdentifier_shape, h, if_true, Token.name_shape,
        skipIndexOptions_bare, takeColumns_bare]
      cases takeColumns (skipIndexOptions us) <;> rfl
    · have hskip := skipIndexOptions_bare (t :: us)
      rw [bare_cons] at hskip
      simp only [bare_cons, Token.isIdentifier_shape, h, Bool.false_eq_true, if_false, hskip,
        takeColumns_bare]
      cases takeColumns (skipIndexOptions (t :: us)) <;> rfl

theorem afterCheck?_bare (ts : List Token) : afterCheck? (bare ts) = (afterCheck? ts).map bare := by
  unfold afterCheck?
  rw [afterWords?_bare]
  cases afterWords? ["CHECK"] ts with
  | none => rfl
  | some rest =>
    simp only [Option.map_some, startsOpen_bare]
    split <;> rfl

@[simp] theorem foundInClause_bare (ts : List Token) : foundInClause (bare ts) = foundInClause ts := by
  cases ts <;> rfl

theorem takeConstraint_bare (ts : List Token) :
    takeConstraint (bare ts) = (takeConstraint ts).bare (Option.map Constraint.bare) := by
  unfold takeConstraint
  rw [takeConstraintName_bare]
  obtain ⟨name, ts⟩ := takeConstraintName ts
  simp only [afterWords?_bare, afterCheck?_bare]
  cases afterWords? ["PRIMARY", "KEY"] ts with
  | some rest => exact primaryKey_bare name rest
  | none =>
  cases afterWords? ["UNIQUE"] ts with
  | some rest => exact uniqueKey_bare name rest
  | none =>
  cases afterWords? ["FOREIGN", "KEY"] ts with
  | some rest => exact foreignKey_bare name rest
  | none =>
  cases afterCheck? ts with
  | some rest =>
    simp only [Option.map_none, Option.map_some, takeGroup_bare]
    cases takeGroup rest <;> rfl
  | none =>
  cases name with
  | some name => simp
  | none =>
    simp only [Option.map_none, startsIndex_bare]
    split
    · exact plainIndex_bare ts
    · rfl

/-! ## Columns -/

namespace ColumnOption

def bare : ColumnOption → ColumnOption
  | .default e => .default (TableDialects.bare e)
  | .check ts => .check (TableDialects.bare ts)
  | .onUpdate e => .onUpdate (TableDialects.bare e)
  | .other ts => .other (TableDialects.bare ts)
  | o => o

theorem bare_bare (o : ColumnOption) : o.bare.bare = o.bare := by
  cases o <;> simp [bare]

def Blind (reader : List Token → Reading ColumnOption) : Prop :=
  ∀ ts, reader (TableDialects.bare ts) = (reader ts).bare bare

theorem blind_mapValue {α : Type} {reader : List Token → Reading α} {place : α → α}
    (h : ∀ ts, reader (TableDialects.bare ts) = (reader ts).bare place) (f : α → ColumnOption)
    (hf : ∀ a, f (place a) = (f a).bare) : Blind fun ts => (reader ts).mapValue f := by
  intro ts
  dsimp only
  rw [h, Reading.bare_mapValue hf]

theorem blind_skipGroup {option : ColumnOption} (h : option.bare = option) :
    Blind (skipGroup option) := by
  intro ts
  unfold skipGroup
  rw [startsOpen_bare]
  split
  · exact blind_mapValue takeGroup_bare _ (fun _ => h.symm) ts
  · rw [Reading.bare_ok, h]

theorem takeToken_bare (ts : List Token) : takeToken (TableDialects.bare ts) = (takeToken ts).bare Token.shape := by
  cases ts <;> rfl

theorem afterInlineKey_bare (ts : List Token) :
    afterInlineKey (TableDialects.bare ts) = TableDialects.bare (afterInlineKey ts) := by
  unfold afterInlineKey
  rw [startsWithWordOf_bare, bare_drop]
  split <;> exact skipIndexOptions_bare _

theorem afterWords?_getD_bare (words : List String) (ts : List Token) :
    (afterWords? words (TableDialects.bare ts)).getD (TableDialects.bare ts) =
      TableDialects.bare ((afterWords? words ts).getD ts) := by
  rw [afterWords?_bare]
  cases afterWords? words ts <;> rfl

theorem blind_table : ∀ e ∈ table, Blind e.2 := by
  intro e he
  simp only [table, List.mem_cons, List.not_mem_nil, or_false] at he
  rcases he with rfl | rfl | rfl | rfl | rfl | rfl | rfl | rfl | rfl | rfl | rfl | rfl | rfl | rfl |
    rfl | rfl
  · exact fun ts => rfl
  · exact fun ts => rfl
  · exact blind_mapValue takeExpression_bare _ fun e => rfl
  · exact fun ts => rfl
  · exact fun ts => rfl
  · exact blind_skipGroup rfl
  · intro ts
    show Except.ok (_, _) = _
    rw [afterInlineKey_bare]
    rfl
  · intro ts
    show Except.ok (_, _) = _
    rw [afterWords?_getD_bare]
    rfl
  · exact blind_mapValue takeReference_bare _ fun r => rfl
  · exact blind_mapValue takeExpression_bare _ fun e => rfl
  · exact blind_mapValue takeToken_bare (fun _ => skipped) fun t => rfl
  · exact blind_mapValue takeToken_bare ofComment fun t => rfl
  · exact blind_mapValue takeToken_bare (fun t => collate t.value) fun t => rfl
  · exact blind_mapValue takeToken_bare (fun _ => skipped) fun t => rfl
  · exact blind_mapValue takeToken_bare (fun _ => skipped) fun t => rfl
  · exact blind_mapValue (takeName_bare _) (fun _ => skipped) fun n => rfl

theorem byKeyword?_bare {table : List (List String × (List Token → Reading ColumnOption))}
    (h : ∀ e ∈ table, Blind e.2) (ts : List Token) :
    byKeyword? table (TableDialects.bare ts) = (byKeyword? table ts).map (Reading.bare bare) := by
  induction table with
  | nil => rfl
  | cons e table ih =>
    obtain ⟨words, reader⟩ := e
    unfold byKeyword?
    rw [afterWords?_bare]
    cases afterWords? words ts with
    | some rest => exact congrArg some (h (words, reader) List.mem_cons_self rest)
    | none => exact ih fun e he => h e (List.mem_cons_of_mem _ he)

/-- The tokens kept of a computed value: those of `all` in front of `rest`. -/
theorem kept_bare (all rest : List Token) :
    (TableDialects.bare all).take ((TableDialects.bare all).length - (TableDialects.bare rest).length) =
      TableDialects.bare (all.take (all.length - rest.length)) := by
  rw [length_bare, length_bare, bare_take]

theorem afterGenerated_bare (ts : List Token) :
    afterGenerated (TableDialects.bare ts) = TableDialects.bare (afterGenerated ts) := by
  unfold afterGenerated
  rw [afterWords?_getD_bare, afterWords?_bare]
  cases afterWords? ["ALWAYS"] ts <;> rfl

theorem computed_bare (all rest : List Token) :
    computed (TableDialects.bare all) (TableDialects.bare rest) = (computed all rest).bare bare := by
  unfold computed
  rw [afterWords?_bare, afterWords?_bare]
  cases afterWords? ["AS", "IDENTITY"] rest with
  | some rest => exact blind_skipGroup rfl rest
  | none =>
  cases afterWords? ["AS"] rest with
  | none => simp only [Option.map_none, kept_bare]; rfl
  | some rest =>
    simp only [Option.map_none, Option.map_some, startsOpen_bare]
    split
    · rw [takeGroup_bare]
      cases takeGroup rest with
      | error e => rfl
      | ok p =>
        obtain ⟨inner, rest⟩ := p
        simp only [Reading.bare_ok, startsWithWordOf_bare, bare_drop]
        split <;> simp only [kept_bare] <;> rfl
    · rw [kept_bare]; rfl

theorem generated_bare (all ts : List Token) :
    generated (TableDialects.bare all) (TableDialects.bare ts) = (generated all ts).bare bare := by
  rw [generated, generated, afterGenerated_bare, computed_bare]

theorem read_bare (t : Token) (ts : List Token) :
    read t.shape (TableDialects.bare ts) = (read t ts).bare bare := by
  have hall := bare_cons t ts
  unfold read
  rw [Token.isWord_shape, ← hall, afterCheck?_bare, byKeyword?_bare blind_table]
  split
  · exact generated_bare (t :: ts) ts
  · cases afterCheck? (t :: ts) with
    | some rest => exact blind_mapValue takeGroup_bare _ (fun inner => rfl) rest
    | none => cases byKeyword? table (t :: ts) <;> rfl

theorem readAll_cons (t : Token) (ts : List Token) :
    readAll (t :: ts) = match read t ts with
      | .error e => .error e.cause
      | .ok (o, left) =>
        match readAll left with
        | .error e => .error e
        | .ok os => .ok (o :: os) := by
  rw [readAll]
  split
  · rename_i h; rw [h]
  · rename_i h; exact h ▸ rfl

theorem readAll_bare (ts : List Token) :
    readAll (TableDialects.bare ts) = (readAll ts).map (List.map bare) := by
  fun_induction readAll ts with
  | case1 => simp [readAll]; rfl
  | case2 t ts e h => rw [bare_cons, readAll_cons, read_bare, h]; rfl
  | case3 t ts o left h e he ih =>
    rw [bare_cons, readAll_cons, read_bare, h]
    simp only [Reading.bare_ok, ih, he]
    rfl
  | case4 t ts o left h os hos ih =>
    rw [bare_cons, readAll_cons, read_bare, h]
    simp only [Reading.bare_ok, ih, hos]
    rfl

end ColumnOption

/-- A cause with the clause it quotes written out from its tokens. -/
def Malformed.plain : Malformed → Malformed
  | .noColumnName clause => .noColumnName (renderTokens (tokenize clause))
  | e => e

namespace Column

/-- A column whose tokens have no places, without the text of its options. -/
def bare (c : Column) : Column :=
  { c with
    tail := []
    default := c.default.map TableDialects.bare
    onUpdate := c.onUpdate.map TableDialects.bare
    check := c.check.map TableDialects.bare
    extra := TableDialects.bare c.extra }

theorem takeSequence_bare (candidates : List (List String)) (ts : List Token) :
    takeSequence candidates (TableDialects.bare ts) =
      ((takeSequence candidates ts).1, TableDialects.bare (takeSequence candidates ts).2) := by
  induction candidates with
  | nil => rfl
  | cons words candidates ih =>
    unfold takeSequence
    rw [afterWords?_bare]
    cases afterWords? words ts with
    | some rest => rfl
    | none => exact ih

theorem takeModifiers_bare {c c' : Column} (hc : c' = c.bare) (ts : List Token) :
    takeModifiers c' (TableDialects.bare ts) =
      ((takeModifiers c ts).1.bare, TableDialects.bare (takeModifiers c ts).2) := by
  subst hc
  induction ts generalizing c with
  | nil => rfl
  | cons t ts ih =>
    unfold takeModifiers
    rw [bare_cons]
    dsimp only
    rw [Token.isWordOf_shape, Token.isArray_shape]
    by_cases hw : t.isWordOf typeModifiers = true
    · rw [if_pos hw, if_pos hw]
      exact ih (c := { c with unsigned := c.unsigned || t.upper == "UNSIGNED".toList })
    · rw [if_neg hw, if_neg hw]
      by_cases ha : t.isArray = true
      · rw [if_pos ha, if_pos ha]
        exact ih (c := { c with isArray := true })
      · rw [if_neg ha, if_neg ha]
        rfl

@[simp] theorem startsType_bare (t : Token) (ts : List Token) :
    startsType t.shape (TableDialects.bare ts) = startsType t ts := by
  unfold startsType
  rw [startsWithWords_bare]
  rfl

theorem takeTypeWords_bare (t : Token) (ts : List Token) :
    takeTypeWords t.shape (TableDialects.bare ts) =
      ((takeTypeWords t ts).1, TableDialects.bare (takeTypeWords t ts).2) := by
  by_cases h : (t.kind == .ident) = true
  · simp only [takeTypeWords, Token.kind_shape, h, if_true, Token.value_shape]
  · simp only [takeTypeWords, Token.kind_shape, h, Token.value_shape, takeSequence_bare]
    rfl

theorem paramsText_bare (ts : List Token) : paramsText (TableDialects.bare ts) = paramsText ts := by
  unfold paramsText TableDialects.bare
  rw [List.flatMap_map]
  rfl

theorem takeParams_bare (words : List Text) (ts : List Token) :
    takeParams words (TableDialects.bare ts) = (takeParams words ts).bare id := by
  unfold takeParams
  rw [startsOpen_bare]
  split
  · rw [takeGroup_bare]
    cases takeGroup ts with
    | error e => rfl
    | ok p =>
      obtain ⟨inner, rest⟩ := p
      simp only [Reading.bare_ok, paramsText_bare, takeSequence_bare]
      split <;> rfl
  · rfl

theorem takeType_bare (name : Text) (ts : List Token) :
    takeType name (TableDialects.bare ts) = (takeType name ts).bare bare := by
  cases ts with
  | nil => rfl
  | cons t ts =>
    unfold takeType
    rw [bare_cons]
    dsimp only
    rw [startsType_bare, takeTypeWords_bare]
    split
    · rw [takeParams_bare]
      cases takeParams (takeTypeWords t ts).1 (takeTypeWords t ts).2 with
      | error e => rfl
      | ok p =>
        obtain ⟨⟨params, suffix⟩, rest⟩ := p
        refine congrArg Except.ok (takeModifiers_bare ?_ rest)
        rfl
    · rfl

theorem apply_bare (c : Column) (o : ColumnOption) : (c.apply o).bare = c.bare.apply o.bare := by
  cases o with
  | other ts => simp [apply, bare, ColumnOption.bare]
  | _ => rfl

theorem foldl_apply_bare (os : List ColumnOption) (c : Column) :
    (os.foldl apply c).bare = (os.map ColumnOption.bare).foldl apply c.bare := by
  induction os generalizing c with
  | nil => rfl
  | cons o os ih => rw [List.foldl_cons, List.map_cons, List.foldl_cons, ih, apply_bare]

/-- Of a column only its tokens count, and of a refused clause only its tokens
are quoted. -/
theorem read_bare (clause : Text) :
    ((read clause (tokenize clause)).mapError Malformed.plain).map bare =
      ((read (renderTokens (tokenize clause)) (TableDialects.bare (tokenize clause))).mapError
        Malformed.plain).map bare := by
  have hquote : Malformed.plain (.noColumnName clause) =
      Malformed.plain (.noColumnName (renderTokens (tokenize clause))) :=
    congrArg Malformed.noColumnName (renderTokens_tokenize_renderTokens clause).symm
  generalize renderTokens (tokenize clause) = written at hquote ⊢
  cases tokenize clause with
  | nil => exact congrArg Except.error hquote
  | cons t ts =>
    unfold read
    rw [bare_cons]
    dsimp only
    rw [Token.isIdentifier_shape, Token.name_shape]
    by_cases ht : t.isIdentifier = true
    · rw [if_pos ht, if_pos ht, takeType_bare]
      cases takeType t.name ts with
      | error e => rfl
      | ok p =>
        obtain ⟨column, rest⟩ := p
        simp only [Reading.bare_ok, ColumnOption.readAll_bare]
        cases ColumnOption.readAll rest with
        | error e => rfl
        | ok os =>
          refine congrArg Except.ok ?_
          simp only [foldl_apply_bare, List.map_map]
          have hoptions : os.map (ColumnOption.bare ∘ ColumnOption.bare) = os.map ColumnOption.bare :=
            List.map_congr_left fun o _ => o.bare_bare
          rw [hoptions]
          simp [bare, Function.comp_def]
    · rw [if_neg ht, if_neg ht]
      exact congrArg Except.error hquote

end Column

end TableDialects
