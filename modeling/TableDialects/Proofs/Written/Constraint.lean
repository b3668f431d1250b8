import TableDialects.Proofs.Written.Column

/- Table-level constraints as they are written: keys, foreign keys and indexes. The
   text of a written constraint has the tokens it was written from, whatever its
   names are (`Constraint.bare_tokenize_tokens`), and where the dialect
   transports the names it is read as itself (`Constraint.IsTransported.read_text`).
   Constraints over plain names also pass the clean-up
   (`Constraint.IsPlain.legible`). -/
namespace TableDialects

def PlainNames (ns : List Text) : Prop := ∀ n ∈ ns, isPlainName n = true

def PlainName? (n : Option Text) : Prop := ∀ m ∈ n, isPlainName m = true

instance (ns : List Text) : Decidable (PlainNames ns) :=
  inferInstanceAs (Decidable (∀ n ∈ ns, isPlainName n = true))

instance (n : Option Text) : Decidable (PlainName? n) :=
  match n with
  | none => isTrue fun _ hm => nomatch hm
  | some m =>
    if h : isPlainName m = true then isTrue fun _ hm => Option.some.inj hm ▸ h
    else isFalse fun hall => h (hall m rfl)

def Transported (d : Dialect) (ns : List Text) : Prop := ∀ n ∈ ns, d.transports n = true

def Transported? (d : Dialect) (n : Option Text) : Prop := ∀ m ∈ n, d.transports m = true

instance (d : Dialect) (ns : List Text) : Decidable (Transported d ns) :=
  inferInstanceAs (Decidable (∀ n ∈ ns, d.transports n = true))

instance (d : Dialect) (n : Option Text) : Decidable (Transported? d n) :=
  match n with
  | none => isTrue fun _ hm => nomatch hm
  | some m =>
    if h : d.transports m = true then isTrue fun _ hm => Option.some.inj hm ▸ h
    else isFalse fun hall => h (hall m rfl)

theorem PlainNames.transported (d : Dialect) {ns : List Text} (h : PlainNames ns) : Transported d ns :=
  fun n hn => transports_of_isPlainName d (h n hn)

theorem PlainName?.transported (d : Dialect) {n : Option Text} (h : PlainName? n) : Transported? d n :=
  fun m hm => transports_of_isPlainName d (h m hm)

structure Reference.IsTransported (d : Dialect) (r : Reference) : Prop where
  schema : Transported? d r.target.schema
  name : d.transports r.target.name = true
  columns : Transported d r.columns

/-- The constraint is a key, a foreign key or an index with columns, and the
dialect transports its names. -/
def Constraint.IsTransported (d : Dialect) : Constraint → Prop
  | .primaryKey name columns => Transported? d name ∧ Transported d columns ∧ columns ≠ []
  | .unique name columns => Transported? d name ∧ Transported d columns ∧ columns ≠ []
  | .foreignKey name columns r =>
    Transported? d name ∧ Transported d columns ∧ columns ≠ [] ∧ r.IsTransported d
  | .index name columns _ => Transported? d name ∧ Transported d columns ∧ columns ≠ []
  | .check _ _ => False

/-- The names of the reference are plain, and its table is not qualified. -/
structure Reference.IsPlain (r : Reference) : Prop where
  schema : r.target.schema = none
  name : isPlainName r.target.name = true
  columns : PlainNames r.columns

/-- The constraint is a key, a foreign key or an index with columns, and its
names are plain. -/
def Constraint.IsPlain : Constraint → Prop
  | .primaryKey name columns => PlainName? name ∧ PlainNames columns ∧ columns ≠ []
  | .unique name columns => PlainName? name ∧ PlainNames columns ∧ columns ≠ []
  | .foreignKey name columns r => PlainName? name ∧ PlainNames columns ∧ columns ≠ [] ∧ r.IsPlain
  | .index name columns _ => PlainName? name ∧ PlainNames columns ∧ columns ≠ []
  | .check _ _ => False

theorem Reference.IsPlain.transported (d : Dialect) {r : Reference} (h : r.IsPlain) :
    r.IsTransported d :=
  ⟨by rw [h.schema]; exact fun _ hs => (nomatch hs), transports_of_isPlainName d h.name,
    h.columns.transported d⟩

theorem Constraint.IsPlain.transported (d : Dialect) {c : Constraint} (h : c.IsPlain) :
    c.IsTransported d := by
  cases c with
  | foreignKey name columns r =>
    exact ⟨h.1.transported d, h.2.1.transported d, h.2.2.1, h.2.2.2.transported d⟩
  | check name condition => exact h
  | _ => exact ⟨h.1.transported d, h.2.1.transported d, h.2.2⟩

/-! ## Tokens -/

def keywords (ws : List String) : List Token := ws.map Token.keyword

def labelTokens (d : Dialect) (name : Option Text) : List Token := (name.map (Token.quoted d)).toList

def startTokens (d : Dialect) (name : Option Text) : List Token :=
  match name with
  | some n => [Token.keyword "CONSTRAINT", Token.quoted d n]
  | none => []

def actionTokens (actions : List (ReferenceEvent × ReferenceAction)) : List Token :=
  actions.flatMap fun a => keywords ("ON" :: a.1.word :: a.2.words)

def referenceTokens (d : Dialect) (r : Reference) : List Token :=
  Token.keyword "REFERENCES" :: (qualifiedTokens d r.target ++
    ((if r.columns.isEmpty then [] else nameGroup d r.columns) ++ actionTokens r.actions))

def indexKeyword : Dialect → String
  | .sqlserver => "INDEX"
  | _ => "KEY"

def Constraint.tokens (d : Dialect) : Constraint → List Token
  | .primaryKey name columns =>
    startTokens d name ++ (keywords ["PRIMARY", "KEY"] ++ nameGroup d columns)
  | .unique name columns =>
    if d = .mysql then keywords ["UNIQUE", "KEY"] ++ (labelTokens d name ++ nameGroup d columns)
    else startTokens d name ++ (keywords ["UNIQUE"] ++ nameGroup d columns)
  | .foreignKey name columns r =>
    startTokens d name ++ (keywords ["FOREIGN", "KEY"] ++ (nameGroup d columns ++ referenceTokens d r))
  | .index name columns type =>
    keywords (type.map IndexType.word).toList ++
      (keywords [indexKeyword d] ++ (labelTokens d name ++ nameGroup d columns))
  | .check _ _ => []

/-- The tokens stay together, and the clean-up keeps them. -/
structure Firm (ts : List Token) : Prop where
  whole : Whole ts
  steady : Steady ts

theorem firm_nil : Firm [] := ⟨whole_nil, steady_nil⟩

theorem Firm.append {ts us : List Token} (ht : Firm ts) (hu : Firm us) : Firm (ts ++ us) :=
  ⟨ht.whole.append hu.whole, ht.steady.append hu.steady⟩

theorem firm_keywords (ws : List String) : Firm (keywords ws) := by
  induction ws with
  | nil => exact firm_nil
  | cons w ws ih =>
    have hw : Firm [Token.keyword w] :=
      ⟨whole_token (fun h => nomatch h), steady_cons rfl rfl steady_nil⟩
    exact hw.append ih

theorem firm_labelTokens (d : Dialect) (name : Option Text) : Firm (labelTokens d name) := by
  cases name with
  | none => exact firm_nil
  | some n => exact ⟨whole_token (fun h => nomatch h), steady_cons rfl rfl steady_nil⟩

theorem startTokens_eq (d : Dialect) (name : Option Text) :
    startTokens d name = keywords (name.map fun _ => "CONSTRAINT").toList ++ labelTokens d name := by
  cases name <;> rfl

theorem firm_startTokens (d : Dialect) (name : Option Text) : Firm (startTokens d name) := by
  rw [startTokens_eq]
  exact (firm_keywords _).append (firm_labelTokens d name)

theorem firm_nameGroup (d : Dialect) (ns : List Text) : Firm (nameGroup d ns) :=
  ⟨whole_nameGroup d ns, steady_nameGroup d ns⟩

theorem firm_actionTokens (actions : List (ReferenceEvent × ReferenceAction)) :
    Firm (actionTokens actions) := by
  induction actions with
  | nil => exact firm_nil
  | cons a actions ih => exact (firm_keywords _).append ih

theorem firm_qualifiedTokens (d : Dialect) (q : QualifiedName) : Firm (qualifiedTokens d q) := by
  obtain ⟨schema, name⟩ := q
  have hdot : Firm [Token.mark '.'] := by
    refine ⟨⟨closed_token (by decide) (by decide), fun us => ?_⟩, steady_cons rfl rfl steady_nil⟩
    exact groupsFrom_cons us (.inl (by decide))
  cases schema with
  | none => exact firm_labelTokens d (some name)
  | some s =>
    have hname : Firm [(Token.quoted d name).tight] :=
      ⟨whole_token (fun h => nomatch h), steady_cons rfl rfl steady_nil⟩
    exact (firm_labelTokens d (some s)).append (hdot.append hname)

theorem firm_referenceTokens (d : Dialect) (r : Reference) : Firm (referenceTokens d r) := by
  have hcolumns : Firm (if r.columns.isEmpty then [] else nameGroup d r.columns) := by
    split
    · exact firm_nil
    · exact firm_nameGroup d r.columns
  exact (firm_keywords ["REFERENCES"]).append ((firm_qualifiedTokens d r.target).append
    (hcolumns.append (firm_actionTokens r.actions)))

namespace Constraint

theorem firm_tokens (d : Dialect) (c : Constraint) : Firm (c.tokens d) := by
  cases c with
  | primaryKey name columns =>
    exact (firm_startTokens d name).append ((firm_keywords _).append (firm_nameGroup d columns))
  | unique name columns =>
    rw [tokens]
    split
    · exact (firm_keywords _).append ((firm_labelTokens d name).append (firm_nameGroup d columns))
    · exact (firm_startTokens d name).append ((firm_keywords _).append (firm_nameGroup d columns))
  | foreignKey name columns r =>
    exact (firm_startTokens d name).append ((firm_keywords _).append
      ((firm_nameGroup d columns).append (firm_referenceTokens d r)))
  | index name columns type =>
    exact (firm_keywords _).append ((firm_keywords _).append
      ((firm_labelTokens d name).append (firm_nameGroup d columns)))
  | check name condition => exact firm_nil

end Constraint

/-! ## Legible tokens -/

/-- A parenthesis may follow the token. -/
def TakesGroup (ts : List Token) : Prop := ∀ t ∈ ts.getLast?, t.endsType = false

theorem Legible.append_group {ts : List Token} {d : Dialect} {ns : List Text} (h : Legible ts)
    (hlast : TakesGroup ts) (hns : PlainNames ns) : Legible (ts ++ nameGroup d ns) := by
  refine h.append (legible_nameGroup d hns) fun t ht u hu => ?_
  cases hu
  unfold Token.follows
  rw [show (Token.mark '(').apart.spaced = true from rfl, if_pos rfl, hlast t ht]
  rfl

/-- Keywords that the readers of constraints know. -/
def constraintWords : List String :=
  ["CONSTRAINT", "PRIMARY", "KEY", "UNIQUE", "FOREIGN", "INDEX", "FULLTEXT", "SPATIAL", "REFERENCES",
    "ON", "DELETE", "UPDATE", "CASCADE", "RESTRICT", "NO", "ACTION", "SET", "NULL", "DEFAULT"]

theorem constraintWords_keyword : ∀ w ∈ constraintWords,
    isKeyword w.toList = true ∧ (Token.keyword w).endsType = false := by decide +kernel

theorem legible_keywords {ws : List String} (h : ∀ w ∈ ws, w ∈ constraintWords) :
    Legible (keywords ws) ∧ Loose (keywords ws) := by
  rw [keywords, List.map_eq_flatMap]
  refine legible_flatMap fun w hw => ⟨(constraintWords_keyword w (h w hw)).1, fun t ht => ?_⟩
  cases ht
  rfl

theorem legible_labelTokens (d : Dialect) {name : Option Text} (h : PlainName? name) :
    Legible (labelTokens d name) ∧ Loose (labelTokens d name) := by
  cases name with
  | none => exact ⟨trivial, fun t ht => nomatch ht⟩
  | some n =>
    refine ⟨printed_quoted d (h n rfl), fun t ht => ?_⟩
    cases ht
    rfl

theorem endsType_quoted (d : Dialect) (n : Text) : (Token.quoted d n).endsType = false := by
  have hspells : (Token.quoted d n).spells = fun _ => false := rfl
  unfold Token.endsType
  rw [hspells]
  decide

theorem takesGroup_label (d : Dialect) {ws : List String} (h : ∀ w ∈ ws, w ∈ constraintWords)
    (name : Option Text) : TakesGroup (keywords ws ++ labelTokens d name) := by
  intro t ht
  cases name with
  | some n =>
    rw [show labelTokens d (some n) = [Token.quoted d n] from rfl, List.getLast?_concat] at ht
    cases ht
    exact endsType_quoted d n
  | none =>
    rw [show labelTokens d none = [] from rfl, List.append_nil] at ht
    obtain ⟨w, hw, rfl⟩ := List.mem_map.1 (List.mem_of_getLast? ht)
    exact (constraintWords_keyword w (h w hw)).2

theorem Loose.of_ne_nil {ts us : List Token} (ht : Loose ts) (hne : ts ≠ []) : Loose (ts ++ us) := by
  cases ts with
  | nil => exact absurd rfl hne
  | cons t ts => exact ht

theorem legible_keyed (d : Dialect) {ws : List String} (h : ∀ w ∈ ws, w ∈ constraintWords)
    (hne : ws ≠ []) {name : Option Text} (hname : PlainName? name) {ns : List Text}
    (hns : PlainNames ns) :
    Legible (keywords ws ++ (labelTokens d name ++ nameGroup d ns)) ∧
      Loose (keywords ws ++ (labelTokens d name ++ nameGroup d ns)) := by
  obtain ⟨hwords, hloose⟩ := legible_keywords h
  obtain ⟨hlabel, hlabelLoose⟩ := legible_labelTokens d hname
  constructor
  · rw [← List.append_assoc]
    exact (hwords.append_loose hlabel hlabelLoose).append_group (takesGroup_label d h name) hns
  · refine hloose.of_ne_nil ?_
    cases ws with
    | nil => exact absurd rfl hne
    | cons w ws => exact List.cons_ne_nil _ _

theorem legible_startTokens (d : Dialect) {name : Option Text} (h : PlainName? name) :
    Legible (startTokens d name) ∧ Loose (startTokens d name) := by
  obtain ⟨hlabel, hloose⟩ := legible_labelTokens d h
  have hknown : ∀ w ∈ (name.map fun _ => "CONSTRAINT").toList, w ∈ constraintWords := by
    cases name <;> simp [constraintWords]
  obtain ⟨hwords, hwordsLoose⟩ := legible_keywords hknown
  rw [startTokens_eq]
  exact ⟨hwords.append_loose hlabel hloose, hwordsLoose.append hloose⟩

theorem actionWords_known (a : ReferenceEvent × ReferenceAction) :
    ∀ w ∈ "ON" :: a.1.word :: a.2.words, w ∈ constraintWords := by
  obtain ⟨event, action⟩ := a
  cases event <;> cases action <;> decide

theorem legible_actionTokens (actions : List (ReferenceEvent × ReferenceAction)) :
    Legible (actionTokens actions) ∧ Loose (actionTokens actions) := by
  exact legible_flatMap fun a _ => legible_keywords (actionWords_known a)

theorem legible_referenceTokens (d : Dialect) {r : Reference} (h : r.IsPlain) :
    Legible (referenceTokens d r) ∧ Loose (referenceTokens d r) := by
  have htarget : qualifiedTokens d r.target = labelTokens d (some r.target.name) := by
    rw [qualifiedTokens, h.schema]
    rfl
  obtain ⟨hactions, hloose⟩ := legible_actionTokens r.actions
  have hname : PlainName? (some r.target.name) := fun n hn => Option.some.inj hn ▸ h.name
  have hwords : ∀ w ∈ ["REFERENCES"], w ∈ constraintWords := by decide
  obtain ⟨hkeyed, hkeyedLoose⟩ := legible_keyed d hwords (List.cons_ne_nil _ _) hname h.columns
  have hshort : Legible (keywords ["REFERENCES"] ++ labelTokens d (some r.target.name)) :=
    (legible_keywords hwords).1.append_loose (legible_labelTokens d hname).1 (legible_labelTokens d hname).2
  unfold referenceTokens
  rw [htarget]
  refine ⟨?_, fun t ht => ?_⟩
  · split
    · exact hshort.append_loose hactions hloose
    · rw [← List.append_assoc (labelTokens d (some r.target.name))]
      exact hkeyed.append_loose hactions hloose
  · cases ht
    rfl

namespace Constraint

theorem IsPlain.legible (d : Dialect) {c : Constraint} (h : c.IsPlain) :
    Legible (c.tokens d) ∧ Loose (c.tokens d) := by
  -- A keyword in front of columns, with the name of the constraint before it or behind.
  have hlabelled : ∀ {ws : List String} {name : Option Text} {ns : List Text},
      (∀ w ∈ ws, w ∈ constraintWords) → ws ≠ [] → PlainName? name → PlainNames ns →
      Legible (startTokens d name ++ (keywords ws ++ nameGroup d ns)) ∧
        Loose (startTokens d name ++ (keywords ws ++ nameGroup d ns)) := by
    intro ws name ns hws hne hname hns
    obtain ⟨hstart, hloose⟩ := legible_startTokens d hname
    have hnone : PlainName? none := fun _ h => nomatch h
    obtain ⟨hkeyed, hkeyedLoose⟩ := legible_keyed d hws hne hnone hns
    exact ⟨hstart.append_loose hkeyed hkeyedLoose, hloose.append hkeyedLoose⟩
  cases c with
  | primaryKey name columns =>
    exact hlabelled (by decide) (List.cons_ne_nil _ _) h.1 h.2.1
  | unique name columns =>
    rw [tokens]
    split
    · exact legible_keyed d (by decide) (List.cons_ne_nil _ _) h.1 h.2.1
    · exact hlabelled (by decide) (List.cons_ne_nil _ _) h.1 h.2.1
  | foreignKey name columns r =>
    have hwords : ∀ w ∈ ["FOREIGN", "KEY"], w ∈ constraintWords := by decide
    obtain ⟨hkeyed, hloose⟩ := hlabelled hwords (List.cons_ne_nil _ _) h.1 h.2.1
    obtain ⟨hreference, hreferenceLoose⟩ := legible_referenceTokens d h.2.2.2
    have hassoc : tokens d (.foreignKey name columns r) =
        (startTokens d name ++ (keywords ["FOREIGN", "KEY"] ++ nameGroup d columns)) ++
          referenceTokens d r := by
      simp [tokens]
    rw [hassoc]
    exact ⟨hkeyed.append_loose hreference hreferenceLoose, hloose.append hreferenceLoose⟩
  | index name columns type =>
    have hkind : ∀ w ∈ (type.map IndexType.word).toList, w ∈ constraintWords := by
      rcases type with _ | _ | _ <;> decide
    have hword : ∀ w ∈ [indexKeyword d], w ∈ constraintWords := by cases d <;> decide
    obtain ⟨hwords, hwordsLoose⟩ := legible_keywords hkind
    obtain ⟨hkeyed, hloose⟩ := legible_keyed d hword (List.cons_ne_nil _ _) h.1 h.2.1
    exact ⟨hwords.append_loose hkeyed hloose, hwordsLoose.append hloose⟩
  | check name condition => cases h

end Constraint

/-! ## Reading constraints -/

theorem eventAction?_keywords (event : ReferenceEvent) (action : ReferenceAction) (rest : List Token) :
    takeReferencePart (keywords ("ON" :: event.word :: action.words) ++ rest) =
      .ok (some (.action event action), rest) := by
  cases event <;> cases action <;> rfl

theorem takeActions_actionTokens (actions : List (ReferenceEvent × ReferenceAction)) :
    takeActions (actionTokens actions) = .ok (actions, []) := by
  induction actions with
  | nil =>
    rw [takeActions]
    split
    · rename_i e heq
      cases heq
    · rename_i rest heq
      cases heq
      rfl
    · rename_i part rest heq
      cases heq
  | cons a actions ih =>
    have hpart := eventAction?_keywords a.1 a.2 (actionTokens actions)
    rw [show actionTokens (a :: actions) = keywords ("ON" :: a.1.word :: a.2.words) ++ actionTokens actions
      from rfl, takeActions]
    split
    · rename_i e heq
      rw [hpart] at heq
      cases heq
    · rename_i rest heq
      rw [hpart] at heq
      cases heq
    · rename_i part rest heq
      rw [hpart] at heq
      cases heq
      rw [ih]

theorem takeReference_referenceTokens {d : Dialect} {r : Reference} (h : r.IsTransported d) :
    takeReference ((referenceTokens d r).drop 1) = .ok (r, []) := by
  obtain ⟨target, columns, actions⟩ := r
  generalize htail : (if columns.isEmpty then [] else nameGroup d columns) ++ actionTokens actions = tail
  have hdot : startsWithPunct ['.'] tail = false ∧ (columns = [] → startsOpen tail = false) := by
    subst htail
    cases columns with
    | nil =>
      cases actions with
      | nil => exact ⟨rfl, fun _ => rfl⟩
      | cons a actions => exact ⟨rfl, fun _ => rfl⟩
    | cons n ns => exact ⟨rfl, fun h => nomatch h⟩
  have hqualified := takeQualified_tokens "referenced table" h.schema h.name hdot.1
  have hcolumns : takeOptionalColumns tail = .ok (columns, actionTokens actions) := by
    cases hc : columns with
    | nil =>
      rw [takeOptionalColumns, hdot.2 hc, if_neg Bool.false_ne_true, ← htail, hc]
      rfl
    | cons n ns =>
      rw [← htail, hc, List.isEmpty_cons, if_neg Bool.false_ne_true, takeOptionalColumns]
      rw [show startsOpen (nameGroup d (n :: ns) ++ actionTokens actions) = true from rfl, if_pos rfl]
      exact takeColumns_nameGroup (hc ▸ h.columns) _
  show takeReference (qualifiedTokens d target ++ ((if columns.isEmpty then [] else nameGroup d columns) ++
    actionTokens actions)) = _
  rw [htail]
  unfold takeReference
  rw [hqualified]
  dsimp only
  rw [hcolumns]
  dsimp only
  rw [takeActions_actionTokens]

namespace Constraint

def takeNamed (name : Option Text) (ts : List Token) : Reading (Option Constraint) :=
  match afterWords? ["PRIMARY", "KEY"] ts with
  | some rest => TableDialects.primaryKey name rest
  | none => match afterWords? ["UNIQUE"] ts with
    | some rest => uniqueKey name rest
    | none => match afterWords? ["FOREIGN", "KEY"] ts with
      | some rest => TableDialects.foreignKey name rest
      | none => match afterCheck? ts with
        | some rest =>
          match takeGroup rest with
          | .ok (condition, rest) => .ok (some (.check name condition), rest)
          | .error e => .error e
        | none => match name with
          | some name => .error ⟨.unknownConstraint name (foundInClause ts), ts⟩
          | none => if startsIndex ts then plainIndex ts else .ok (none, ts)

theorem takeConstraint_eq (ts : List Token) :
    takeConstraint ts = takeNamed (takeConstraintName ts).1 (takeConstraintName ts).2 := rfl

/-- The tokens of a clause, whose first one has nothing before it. -/
def front : List Token → List Token
  | [] => []
  | t :: ts => t.tight :: ts

theorem shapes_steady {ts : List Token} (h : Steady ts) : shapes ts = front ts := by
  cases ts with
  | nil => rfl
  | cons t ts =>
    obtain ⟨-, hshape⟩ := h t List.mem_cons_self
    have htail : Steady ts := fun u hu => h u (List.mem_cons_of_mem t hu)
    rw [shapes, htail.bare, front, ← hshape]
    rfl

/-- The name behind CONSTRAINT is taken, and what follows is read. -/
theorem takeConstraint_start {d : Dialect} {name : Option Text} (hname : Transported? d name) {w : String}
    (hw : (Token.keyword w).isWord "CONSTRAINT".toList = false) (ts : List Token) :
    ∃ spaced, takeConstraint (front (startTokens d name ++ Token.keyword w :: ts)) =
      takeNamed name (⟨.word, w.toList, 0, spaced⟩ :: ts) := by
  rw [takeConstraint_eq]
  cases name with
  | none =>
    refine ⟨false, ?_⟩
    have hnone : takeConstraintName ((Token.keyword w).tight :: ts) =
        (none, (Token.keyword w).tight :: ts) := by
      have hafter : afterWords? ["CONSTRAINT"] ((Token.keyword w).tight :: ts) = none := by
        unfold afterWords?
        rw [show startsWithWords (["CONSTRAINT"].map String.toList) ((Token.keyword w).tight :: ts) = false by
          show ((Token.keyword w).isWord "CONSTRAINT".toList && _) = false
          rw [hw]
          rfl]
        rfl
      unfold takeConstraintName
      rw [hafter]
    show takeNamed (takeConstraintName ((Token.keyword w).tight :: ts)).1
      (takeConstraintName ((Token.keyword w).tight :: ts)).2 = _
    rw [hnone]
    rfl
  | some n =>
    refine ⟨true, ?_⟩
    have hn := hname n rfl
    have hsome : ∀ us, takeConstraintName ((Token.keyword "CONSTRAINT").tight :: Token.quoted d n :: us) =
        (some n, us) := by
      intro us
      show (if (Token.quoted d n).isIdentifier && !(Token.quoted d n).isWordOf _ then
        (some (Token.quoted d n).name, us) else (none, Token.quoted d n :: us)) = _
      rw [isIdentifier_quoted hn, name_quoted hn]
      rfl
    show takeNamed (takeConstraintName ((Token.keyword "CONSTRAINT").tight :: Token.quoted d n :: _)).1
      (takeConstraintName ((Token.keyword "CONSTRAINT").tight :: Token.quoted d n :: _)).2 = _
    rw [hsome]
    rfl

theorem takeColumns_group {d : Dialect} {ns : List Text} (h : Transported d ns) :
    takeColumns (nameGroup d ns) = .ok (ns, []) := by
  have := takeColumns_nameGroup h []
  rwa [List.append_nil] at this

theorem takeColumns_behind {d : Dialect} {ns : List Text} (h : Transported d ns) :
    takeColumns (skipIndexOptions (nameGroup d ns)) = .ok (ns, []) :=
  takeColumns_group h

theorem primaryKey_group {d : Dialect} (name : Option Text) {ns : List Text} (hns : Transported d ns) :
    TableDialects.primaryKey name (nameGroup d ns) = .ok (some (.primaryKey name ns), []) := by
  have hstart : startsIdentifier (skipIndexOptions (nameGroup d ns)) = false := rfl
  simp [TableDialects.primaryKey, hstart, takeColumns_behind hns]

theorem uniqueKey_named {ts rest left : List Token} {t : Token} {ns : List Text}
    (hts : (afterKeyWord? ts).getD (skipIndexOptions ts) = t :: rest) (ht : t.isIdentifier = true)
    (hoption : t.isWordOf indexOptions = false)
    (hcolumns : takeColumns (skipIndexOptions rest) = .ok (ns, left)) (name : Option Text) :
    uniqueKey name ts = .ok (some (.unique (some t.name) ns), left) := by
  cases hkey : afterKeyWord? ts <;> rw [hkey] at hts <;> simp at hts <;>
    simp [uniqueKey, hkey, hts, ht, hoption, hcolumns]

theorem uniqueKey_unnamed {ts rest left : List Token} {t : Token} {ns : List Text}
    (hts : (afterKeyWord? ts).getD (skipIndexOptions ts) = t :: rest) (ht : t.isIdentifier = false)
    (hcolumns : takeColumns (skipIndexOptions (t :: rest)) = .ok (ns, left)) (name : Option Text) :
    uniqueKey name ts = .ok (some (.unique name ns), left) := by
  cases hkey : afterKeyWord? ts <;> rw [hkey] at hts <;> simp at hts <;>
    simp [uniqueKey, hkey, hts, ht, hcolumns]

theorem uniqueKey_label {d : Dialect} {name : Option Text} (hname : Transported? d name) {ns : List Text}
    (hns : Transported d ns) :
    uniqueKey none (Token.keyword "KEY" :: (labelTokens d name ++ nameGroup d ns)) =
      .ok (some (.unique name ns), []) := by
  cases name with
  | none => exact uniqueKey_unnamed (t := (Token.mark '(').apart) rfl rfl (takeColumns_behind hns) none
  | some n =>
    have hn := hname n rfl
    have hread : uniqueKey none (Token.keyword "KEY" :: (labelTokens d (some n) ++ nameGroup d ns)) = _ :=
      uniqueKey_named rfl (isIdentifier_quoted hn) rfl (takeColumns_behind hns) none
    rwa [name_quoted hn] at hread

theorem plainIndex_named {ts us rest left : List Token} {t : Token} {ns : List Text}
    {type : Option IndexType} (htype : indexType? ts = type)
    (hus : (if type.isSome then ts.drop 1 else ts) = us) (hts : (afterKeyWord? us).getD us = t :: rest)
    (ht : t.isIdentifier = true) (hcolumns : takeColumns (skipIndexOptions rest) = .ok (ns, left)) :
    plainIndex ts = .ok (some (.index (some t.name) ns type), left) := by
  simp only [plainIndex, htype, hus, hts, ht, if_true, hcolumns]

theorem plainIndex_unnamed {ts us rest left : List Token} {t : Token} {ns : List Text}
    {type : Option IndexType} (htype : indexType? ts = type)
    (hus : (if type.isSome then ts.drop 1 else ts) = us) (hts : (afterKeyWord? us).getD us = t :: rest)
    (ht : t.isIdentifier = false) (hcolumns : takeColumns (skipIndexOptions (t :: rest)) = .ok (ns, left)) :
    plainIndex ts = .ok (some (.index none ns type), left) := by
  simp only [plainIndex, htype, hus, hts, ht, Bool.false_eq_true, if_false, hcolumns]

theorem takeNamed_index {d : Dialect} {name : Option Text} (hname : Transported? d name) {ns : List Text}
    (hns : Transported d ns) (type : Option IndexType) :
    takeNamed none (front (tokens d (.index name ns type))) = .ok (some (.index name ns type), []) := by
  have hstarts : startsIndex (front (tokens d (.index name ns type))) =
      continuesIndex (labelTokens d name ++ nameGroup d ns) := by
    rcases type with _ | _ | _ <;> cases d <;> rfl
  have hcontinues : continuesIndex (labelTokens d name ++ nameGroup d ns) = true := by
    cases name with
    | none => rfl
    | some n =>
      show (if (Token.quoted d n).isOpen then true else if !(Token.quoted d n).isIdentifier then false else _) = _
      rw [isIdentifier_quoted (hname n rfl)]
      rfl
  have hnamed : takeNamed none (front (tokens d (.index name ns type))) =
      if startsIndex (front (tokens d (.index name ns type))) then
        plainIndex (front (tokens d (.index name ns type)))
      else .ok (none, front (tokens d (.index name ns type))) := by
    rcases type with _ | _ | _ <;> cases d <;> rfl
  have htype : indexType? (front (tokens d (.index name ns type))) = type := by
    rcases type with _ | _ | _ <;> cases d <;> rfl
  obtain ⟨us, hus, hts⟩ : ∃ us, (if type.isSome then (front (tokens d (.index name ns type))).drop 1
      else front (tokens d (.index name ns type))) = us ∧
      (afterKeyWord? us).getD us = labelTokens d name ++ nameGroup d ns :=
    ⟨_, rfl, by rcases type with _ | _ | _ <;> cases d <;> rfl⟩
  rw [hnamed, hstarts, hcontinues, if_pos rfl]
  cases name with
  | none => exact plainIndex_unnamed htype hus hts rfl (takeColumns_behind hns)
  | some n =>
    have hn := hname n rfl
    have hread := plainIndex_named htype hus hts (isIdentifier_quoted hn) (takeColumns_behind hns)
    rwa [name_quoted hn] at hread

theorem foreignKey_group {d : Dialect} {ns : List Text} (hns : Transported d ns) {r : Reference}
    (hr : r.IsTransported d) (name : Option Text) :
    TableDialects.foreignKey name (nameGroup d ns ++ referenceTokens d r) =
      .ok (some (.foreignKey name ns r), []) := by
  have hname : foreignKeyName name (nameGroup d ns ++ referenceTokens d r) =
      (name, nameGroup d ns ++ referenceTokens d r) := rfl
  have hafter : afterWords? ["REFERENCES"] (referenceTokens d r) =
      some ((referenceTokens d r).drop 1) := rfl
  rw [TableDialects.foreignKey, hname]
  dsimp only
  rw [takeColumns_nameGroup hns]
  dsimp only
  rw [hafter]
  dsimp only
  rw [takeReference_referenceTokens hr]

theorem IsTransported.read {d : Dialect} {c : Constraint} (h : c.IsTransported d) :
    takeConstraint (front (c.tokens d)) = .ok (some c, []) := by
  cases c with
  | primaryKey name columns =>
    obtain ⟨spaced, hstart⟩ := takeConstraint_start h.1 (w := "PRIMARY") (by decide)
      (Token.keyword "KEY" :: nameGroup d columns)
    exact hstart.trans (primaryKey_group name h.2.1)
  | unique name columns =>
    rw [tokens]
    split
    · exact uniqueKey_label h.1 h.2.1
    · obtain ⟨spaced, hstart⟩ := takeConstraint_start h.1 (w := "UNIQUE") (by decide)
        (nameGroup d columns)
      have hread : uniqueKey name (nameGroup d columns) = _ :=
        uniqueKey_unnamed (t := (Token.mark '(').apart) rfl rfl (takeColumns_behind h.2.1) name
      exact hstart.trans hread
  | foreignKey name columns r =>
    obtain ⟨spaced, hstart⟩ := takeConstraint_start h.1 (w := "FOREIGN") (by decide)
      (Token.keyword "KEY" :: (nameGroup d columns ++ referenceTokens d r))
    exact hstart.trans (foreignKey_group h.2.1 h.2.2.2 name)
  | index name columns type =>
    have hnone : takeConstraint (front (tokens d (.index name columns type))) =
        takeNamed none (front (tokens d (.index name columns type))) := by
      rcases type with _ | _ | _ <;> cases d <;> rfl
    exact hnone.trans (takeNamed_index h.1 h.2.1 type)
  | check name condition => cases h

theorem IsTransported.ofTokens {d : Dialect} {c : Constraint} (h : c.IsTransported d) :
    Clause.ofTokens (shapes (c.tokens d)) = .ok (.constraint c) := by
  have hread := h.read
  rw [shapes_steady (firm_tokens d c).steady]
  cases hts : front (c.tokens d) with
  | nil =>
    rw [hts] at hread
    cases hread
  | cons t ts =>
    rw [hts] at hread
    unfold Clause.ofTokens
    dsimp only
    rw [hread]

end Constraint

/-! ## Constraints are read back -/

theorem readBack_keywords {ws : List String} (h : ∀ w ∈ ws, w ∈ constraintWords) :
    ReadBack (keywords ws) := by
  refine ⟨fun t ht => ?_, fun r hr => (legible_keywords h).1.readsAll hr⟩
  obtain ⟨w, -, rfl⟩ := List.mem_map.1 (List.mem_of_mem_head? ht)
  rfl

theorem readBack_labelTokens (d : Dialect) (name : Option Text) : ReadBack (labelTokens d name) := by
  cases name with
  | none => exact readBack_nil
  | some n => exact readBack_quoted d n

theorem readBack_startTokens (d : Dialect) (name : Option Text) : ReadBack (startTokens d name) := by
  cases name with
  | none => exact readBack_nil
  | some n =>
    have hword : ReadBack (keywords ["CONSTRAINT"]) := readBack_keywords (by decide)
    exact hword.append (readBack_quoted d n)

theorem readBack_actionTokens (actions : List (ReferenceEvent × ReferenceAction)) :
    ReadBack (actionTokens actions) := by
  induction actions with
  | nil => exact readBack_nil
  | cons a actions ih => exact (readBack_keywords (actionWords_known a)).append ih

theorem readBack_referenceTokens (d : Dialect) (r : Reference) : ReadBack (referenceTokens d r) := by
  have hcolumns : ReadBack (if r.columns.isEmpty then [] else nameGroup d r.columns) := by
    split
    · exact readBack_nil
    · exact readBack_nameGroup d r.columns
  have hword : ReadBack (keywords ["REFERENCES"]) := readBack_keywords (by decide)
  exact hword.append ((readBack_qualifiedTokens d r.target).append
    (hcolumns.append (readBack_actionTokens r.actions)))

namespace Constraint

theorem readBack_tokens (d : Dialect) (c : Constraint) : ReadBack (c.tokens d) := by
  have hwords : ∀ {ws : List String} {us : List Token}, (∀ w ∈ ws, w ∈ constraintWords) → ReadBack us →
      ReadBack (keywords ws ++ us) := fun hws hus => (readBack_keywords hws).append hus
  cases c with
  | primaryKey name columns =>
    exact (readBack_startTokens d name).append (hwords (by decide) (readBack_nameGroup d columns))
  | unique name columns =>
    rw [tokens]
    split
    · exact hwords (by decide) ((readBack_labelTokens d name).append (readBack_nameGroup d columns))
    · exact (readBack_startTokens d name).append (hwords (by decide) (readBack_nameGroup d columns))
  | foreignKey name columns r =>
    exact (readBack_startTokens d name).append (hwords (by decide)
      ((readBack_nameGroup d columns).append (readBack_referenceTokens d r)))
  | index name columns type =>
    have hkey := (readBack_labelTokens d name).append (readBack_nameGroup d columns)
    refine hwords ?_ (hwords ?_ hkey)
    · rcases type with - | - | - <;> decide
    · cases d <;> decide
  | check name condition => exact readBack_nil

/-- The text of a constraint has the tokens that it was written from, whatever
stands in its names. -/
theorem bare_tokenize_tokens (d : Dialect) (c : Constraint) :
    TableDialects.bare (tokenize (renderTokens (c.tokens d))) = shapes (c.tokens d) :=
  bare_tokenize_renderTokens ((readBack_tokens d c).reads [] breaks_nil)

theorem IsTransported.read_text {d : Dialect} {c : Constraint} (h : c.IsTransported d) :
    Clause.read (renderTokens (c.tokens d)) = .ok (.constraint c) := by
  have hread := Clause.read_eq_ofTokens (renderTokens (c.tokens d))
  rw [bare_tokenize_tokens, h.ofTokens] at hread
  -- Only the condition of a check has places, which reading from tokens leaves out.
  cases hclause : Clause.read (renderTokens (c.tokens d)) with
  | error e =>
    rw [hclause] at hread
    cases hread
  | ok clause =>
    rw [hclause] at hread
    have hbare : clause.bare = .constraint c := Except.ok.inj hread
    cases clause with
    | column column => cases hbare
    | constraint c' =>
      have hc : c'.bare = c := Clause.constraint.inj hbare
      cases c' with
      | check name condition =>
        rw [← hc] at h
        exact h.elim
      | _ =>
        rw [← hc]
        rfl

end Constraint
end TableDialects
