import TableDialects.Proofs.Reading.Options
import TableDialects.Proofs.Written.Constraint

/- Keys of a table as they may be written. `SpelledKey` says which tokens stand for
   a primary key, a unique key or a foreign key: with or without a name behind
   CONSTRAINT, an index name in front of the columns, the columns of the table that
   is referred to, and actions. All of these are read as the key that they spell,
   but one (`Clause.read_key`): a foreign key that has both names is refused at its
   index name, which is left for the reader of the columns. -/
namespace TableDialects

/-! ## Names -/

/-- The token is a quoted identifier that names something. -/
structure Token.IsQuoted (t : Token) : Prop where
  kind : t.kind = .ident
  isIdentifier : t.isIdentifier = true
  name_ne_nil : t.name ≠ []

/-- Only in brackets a quoted identifier may be none, as an array suffix. -/
theorem isQuoted_of_head {t : Token} {q : Char} (hkind : t.kind = .ident) (hq : t.value.head? = some q)
    (hbracket : q ≠ '[') (hname : t.name ≠ []) : t.IsQuoted := by
  have hsuffix : isArraySuffix t.value = false := by
    unfold isArraySuffix
    split
    · rename_i rest hvalue
      rw [hvalue] at hq
      exact absurd (Option.some.inj hq).symm hbracket
    · rfl
  refine ⟨hkind, ?_, hname⟩
  rw [Token.isIdentifier, hkind, hsuffix]
  rfl

namespace Token.IsQuoted
variable {t : Token}

theorem isPunct (h : t.IsQuoted) (p : Text) : t.isPunct p = false := by
  rw [Token.isPunct, h.kind]
  rfl

theorem isWordOf (h : t.IsQuoted) (words : List String) : t.isWordOf words = false := by
  rw [Token.isWordOf, h.kind]
  rfl

theorem turn (h : t.IsQuoted) : t.turn = 0 := turn_of_kind (by rw [h.kind]; decide)

end Token.IsQuoted

/-- Quoted names with commas between them. -/
inductive NameList : List Text → List Token → Prop
  | one {t : Token} (ht : t.IsQuoted) : NameList [t.name] [t]
  | more {t comma : Token} {ns : List Text} {ts : List Token} (ht : t.IsQuoted)
    (hcomma : comma.isPunct [','] = true) (h : NameList ns ts) : NameList (t.name :: ns) (t :: comma :: ts)

/-- Quoted names in parentheses; there may be none. -/
def NameGroup (ns : List Text) (group : List Token) : Prop :=
  ∃ o c inner, group = o :: (inner ++ [c]) ∧ o.isOpen = true ∧ c.isClose = true ∧
    (NameList ns inner ∨ ns = [] ∧ inner = [])

theorem turn_comma {t : Token} (h : t.isPunct [','] = true) : t.turn = 0 := by
  rw [Token.turn, Token.isOpen, Token.isClose, isPunct_unique h (by decide), isPunct_unique h (by decide)]
  rfl

theorem NameList.balanced {ns : List Text} {ts : List Token} (h : NameList ns ts) : Balanced ts := by
  induction h with
  | one ht =>
    refine ⟨?_, ?_⟩
    · simp [staysOpen, ht.turn]
    · simp [depthAfter, ht.turn]
  | more ht hcomma h ih =>
    refine ⟨?_, ?_⟩
    · simp [staysOpen, ht.turn, turn_comma hcomma, ih.1]
    · rw [depthAfter_cons, depthAfter_cons, ht.turn, turn_comma hcomma]
      exact ih.2

theorem NameList.groupsFrom {ns : List Text} {ts : List Token} (h : NameList ns ts) :
    ∃ us : List Token, TableDialects.groupsFrom [','] 0 ts = us.map (fun t => [t]) ∧ us.map Token.name = ns ∧
      ∀ t ∈ us, t.IsQuoted := by
  induction h with
  | @one t ht =>
    refine ⟨[t], ?_, rfl, List.forall_mem_singleton.2 ht⟩
    simp [TableDialects.groupsFrom, ht.isPunct]
  | @more t comma ns ts ht hcomma h ih =>
    obtain ⟨us, hgroups, hnames, hus⟩ := ih
    refine ⟨t :: us, ?_, congrArg _ hnames, List.forall_mem_cons.2 ⟨ht, hus⟩⟩
    have hmark : (!comma.isOpen && !comma.isClose && comma.isPunct [','] && (0 : Int) == 0) = true := by
      rw [Token.isOpen, Token.isClose, isPunct_unique hcomma (by decide), isPunct_unique hcomma (by decide),
        hcomma]
      rfl
    rw [TableDialects.groupsFrom, ht.isPunct [','], ht.turn, Bool.and_false, Bool.false_and,
      if_neg Bool.false_ne_true, Int.add_zero, TableDialects.groupsFrom, if_pos hmark, hgroups]
    rfl

theorem filterMap_names {us : List Token} (h : ∀ t ∈ us, t.IsQuoted) :
    us.filterMap (fun t => if t.isIdentifier then some t.name else none) = us.map Token.name := by
  induction us with
  | nil => rfl
  | cons t us ih =>
    obtain ⟨ht, hus⟩ := List.forall_mem_cons.1 h
    rw [List.filterMap_cons, if_pos ht.isIdentifier, ih hus]
    rfl

theorem NameList.names {ns : List Text} {ts : List Token} (h : NameList ns ts ∨ ns = [] ∧ ts = []) :
    Balanced ts ∧ ∃ us : List Token, splitGroups [','] ts = us.map (fun t => [t]) ∧ us.map Token.name = ns ∧
      ∀ t ∈ us, t.IsQuoted := by
  rcases h with h | ⟨rfl, rfl⟩
  · obtain ⟨us, hgroups, hnames, hus⟩ := h.groupsFrom
    refine ⟨h.balanced, us, ?_, hnames, hus⟩
    rw [splitGroups, hgroups, List.filter_eq_self]
    intro g hg
    obtain ⟨t, -, rfl⟩ := List.mem_map.1 hg
    rfl
  · exact ⟨⟨rfl, rfl⟩, [], rfl, rfl, List.forall_mem_nil _⟩

theorem NameGroup.takeColumns {ns : List Text} {group : List Token} (h : NameGroup ns group)
    (rest : List Token) : TableDialects.takeColumns (group ++ rest) = .ok (ns, rest) := by
  obtain ⟨o, c, inner, rfl, ho, hc, hlist⟩ := h
  obtain ⟨hbalanced, us, hsplit, rfl, hus⟩ := NameList.names hlist
  have hgroup : IsGroup inner (o :: (inner ++ [c])) := ⟨o, c, rfl, ho, hc, hbalanced⟩
  rw [TableDialects.takeColumns, hgroup.takeGroup, Reading.mapValue_ok, hsplit, List.filterMap_map]
  refine congrArg (fun ns => Except.ok (ns, rest)) ?_
  exact filterMap_names hus

theorem NameGroup.startsOpen {ns : List Text} {group : List Token} (h : NameGroup ns group) (rest : List Token) :
    TableDialects.startsOpen (group ++ rest) = true := by
  obtain ⟨o, c, inner, rfl, ho, -⟩ := h
  exact ho

/-! ## Forms of a key -/

/-- What kind of key a form spells. -/
inductive KeyKind where
  | primary
  | unique
  | foreign (reference : Reference)

/-- A key as it is written: the name behind CONSTRAINT, the index name in front of
the columns, and the columns. -/
structure KeyForm where
  kind : KeyKind
  name : Option Token
  index : Option Token
  columns : List Text

namespace KeyForm

/-- The constraint that a form stands for. The index name of a unique key counts
more than its name, that of a foreign key less, and that of a primary key nothing. -/
def constraint (f : KeyForm) : Constraint :=
  match f.kind with
  | .primary => .primaryKey (f.name.map Token.name) f.columns
  | .unique => .unique ((f.index <|> f.name).map Token.name) f.columns
  | .foreign r => .foreignKey ((f.name <|> f.index).map Token.name) f.columns r

/-- The token at which a form is refused: the index name of a foreign key that has a
name. -/
def refused? (f : KeyForm) : Option Token :=
  match f.kind with
  | .foreign _ => if f.name.isSome then f.index else none
  | _ => none

end KeyForm

/-- The name of a constraint, behind its keyword or not there. -/
inductive NamedBy : Option Token → List Token → Prop
  | unnamed : NamedBy none []
  | named {w n : Token} (hw : w.isWord "CONSTRAINT" = true) (hn : n.IsQuoted) : NamedBy (some n) [w, n]

/-- The target of a foreign key: a table, with its columns or without, and actions. -/
inductive SpelledReference : Reference → List Token → Prop
  | table {t : Token} {actions : List (ReferenceEvent × ReferenceAction)} {ts : List Token} (ht : t.IsQuoted)
    (hactions : SpelledActions actions ts) : SpelledReference ⟨⟨none, t.name⟩, [], actions⟩ (t :: ts)
  | columns {t : Token} {ns : List Text} {group : List Token}
    {actions : List (ReferenceEvent × ReferenceAction)} {ts : List Token} (ht : t.IsQuoted)
    (hgroup : NameGroup ns group) (hactions : SpelledActions actions ts) :
    SpelledReference ⟨⟨none, t.name⟩, ns, actions⟩ (t :: (group ++ ts))

inductive SpelledKey : KeyForm → List Token → Prop
  | primary {name index : Option Token} {start front group : List Token} {ns : List Text}
    (hname : NamedBy name start) (hfront : Spells ["PRIMARY", "KEY"] front)
    (hindex : ∀ i ∈ index, i.IsQuoted) (hgroup : NameGroup ns group) :
    SpelledKey ⟨.primary, name, index, ns⟩ (start ++ (front ++ (index.toList ++ group)))
  | unique {name index : Option Token} {start front key group : List Token} {words : List String}
    {ns : List Text} (hname : NamedBy name start) (hfront : Spells ["UNIQUE"] front)
    (hwords : words ∈ [[], ["KEY"], ["INDEX"]]) (hkey : Spells words key)
    (hindex : ∀ i ∈ index, i.IsQuoted) (hgroup : NameGroup ns group) :
    SpelledKey ⟨.unique, name, index, ns⟩ (start ++ (front ++ (key ++ (index.toList ++ group))))
  | foreign {name index : Option Token} {start front group refers ts : List Token} {ns : List Text}
    {r : Reference} (hname : NamedBy name start) (hfront : Spells ["FOREIGN", "KEY"] front)
    (hindex : ∀ i ∈ index, i.IsQuoted) (hgroup : NameGroup ns group)
    (hrefers : Spells ["REFERENCES"] refers) (hreference : SpelledReference r ts) :
    SpelledKey ⟨.foreign r, name, index, ns⟩
      (start ++ (front ++ (index.toList ++ (group ++ (refers ++ ts)))))

/-! ## Reading keys -/

theorem NamedBy.takeConstraint {name : Option Token} {start front : List Token} (h : NamedBy name start)
    {words : List String} (hfront : Spells words front) (hwords : differ words ["CONSTRAINT"] = true)
    (rest : List Token) :
    TableDialects.takeConstraint (start ++ (front ++ rest)) =
      Constraint.takeNamed (name.map Token.name) (front ++ rest) := by
  have hname : takeConstraintName (start ++ (front ++ rest)) = (name.map Token.name, front ++ rest) := by
    unfold takeConstraintName
    cases h with
    | unnamed =>
      rw [List.nil_append, afterWords?_differ hfront hwords]
      rfl
    | @named w n hw hn =>
      have hspells : Spells ["CONSTRAINT"] [w] := ⟨hw, trivial⟩
      rw [show [w, n] ++ (front ++ rest) = [w] ++ (n :: (front ++ rest)) from rfl,
        afterWords?_spelled hspells]
      dsimp only
      rw [hn.isIdentifier, hn.isWordOf]
      rfl
  rw [Constraint.takeConstraint_eq, hname]

/-- Where columns or a quoted index name come next, no index option does. -/
theorem skipIndexOptions_eq {t : Token} (ht : t.kind ≠ .word) (rest : List Token) :
    skipIndexOptions (t :: rest) = t :: rest := by
  refine List.dropWhile_cons_of_neg ?_
  rw [Token.isWordOf, beq_eq_false_iff_ne.2 ht]
  exact Bool.false_ne_true

theorem kind_of_isPunct {t : Token} {p : Text} (h : t.isPunct p = true) : t.kind = .punct := by
  rw [Token.isPunct, Bool.and_eq_true, beq_iff_eq] at h
  exact h.1

theorem isIdentifier_of_punct {t : Token} (h : t.kind = .punct) : t.isIdentifier = false := by
  rw [Token.isIdentifier, h]
  rfl

theorem NameGroup.cons {ns : List Text} {group : List Token} (h : NameGroup ns group) :
    ∃ o more, group = o :: more ∧ o.kind = .punct := by
  obtain ⟨o, c, inner, rfl, ho, -⟩ := h
  exact ⟨o, _, rfl, kind_of_isPunct ho⟩

theorem primaryKey_spelled (name : Option Text) {index : Option Token} (hindex : ∀ i ∈ index, i.IsQuoted)
    {ns : List Text} {group : List Token} (hgroup : NameGroup ns group) :
    primaryKey name (index.toList ++ group) = .ok (some (.primaryKey name ns), []) := by
  have hcolumns := hgroup.takeColumns []
  obtain ⟨o, more, rfl, ho⟩ := hgroup.cons
  rw [List.append_nil] at hcolumns
  unfold primaryKey
  cases index with
  | none =>
    dsimp only [Option.toList, List.nil_append]
    rw [skipIndexOptions_eq (by rw [ho]; decide), startsIdentifier, isIdentifier_of_punct ho,
      if_neg Bool.false_ne_true, hcolumns]
  | some i =>
    have hi := hindex i rfl
    dsimp only [Option.toList, List.cons_append, List.nil_append]
    rw [skipIndexOptions_eq (by rw [hi.kind]; decide), startsIdentifier, if_pos hi.isIdentifier,
      List.drop_one, List.tail_cons, hcolumns]

theorem afterKeyWord?_spelled {words : List String} (hwords : words ∈ [[], ["KEY"], ["INDEX"]])
    {key : List Token} (hkey : Spells words key) {t : Token} (ht : t.kind ≠ .word) (rest : List Token) :
    (afterKeyWord? (key ++ t :: rest)).getD (skipIndexOptions (key ++ t :: rest)) = t :: rest := by
  unfold afterKeyWord?
  simp only [List.mem_cons, List.not_mem_nil, or_false] at hwords
  rcases hwords with rfl | rfl | rfl
  · have hnone : ∀ w, afterWords? [w] (t :: rest) = none := by
      intro w
      rw [afterWords?, List.map_cons, startsWithWords, Token.isWord, beq_eq_false_iff_ne.2 ht]
      rfl
    obtain rfl := hkey.nil
    rw [List.nil_append, hnone, hnone, skipIndexOptions_eq ht]
    rfl
  · rw [afterWords?_spelled hkey]
    rfl
  · rw [afterWords?_differ hkey rfl, afterWords?_spelled hkey]
    rfl

theorem uniqueKey_spelled (name : Option Text) {index : Option Token} (hindex : ∀ i ∈ index, i.IsQuoted)
    {words : List String} (hwords : words ∈ [[], ["KEY"], ["INDEX"]]) {key : List Token}
    (hkey : Spells words key) {ns : List Text} {group : List Token} (hgroup : NameGroup ns group) :
    uniqueKey name (key ++ (index.toList ++ group)) =
      .ok (some (.unique (index.map Token.name <|> name) ns), []) := by
  have hcolumns := hgroup.takeColumns []
  obtain ⟨o, more, rfl, ho⟩ := hgroup.cons
  have hmark : o.kind ≠ .word := by rw [ho]; decide
  rw [List.append_nil, ← skipIndexOptions_eq hmark] at hcolumns
  cases index with
  | none =>
    exact Constraint.uniqueKey_unnamed (afterKeyWord?_spelled hwords hkey hmark more)
      (isIdentifier_of_punct ho) hcolumns name
  | some i =>
    have hi := hindex i rfl
    have hword : i.kind ≠ .word := by rw [hi.kind]; decide
    exact Constraint.uniqueKey_named (afterKeyWord?_spelled hwords hkey hword (o :: more)) hi.isIdentifier
      (hi.isWordOf _) hcolumns name

theorem SpelledReference.takeReference {r : Reference} {ts : List Token} (h : SpelledReference r ts) :
    TableDialects.takeReference ts = .ok (r, []) := by
  have hnone : takeReferencePart [] = .ok (none, []) := rfl
  cases h with
  | @table t actions ts ht hactions =>
    have hcolumns : takeOptionalColumns [] = .ok ([], []) := rfl
    have hread := takeReference_spelled (.last ht.isIdentifier) hcolumns hactions optionNext_nil hnone
    rw [List.append_nil] at hread
    exact hread
  | @columns t ns group actions ts ht hgroup hactions =>
    have hcolumns : takeOptionalColumns group = .ok (ns, []) := by
      have htake := hgroup.takeColumns []
      have hopen := hgroup.startsOpen []
      rw [List.append_nil] at htake hopen
      rw [takeOptionalColumns, if_pos hopen, htake]
    have hread := takeReference_spelled (.last ht.isIdentifier) hcolumns hactions optionNext_nil hnone
    rw [List.append_nil] at hread
    exact hread

/-- Of the two names a foreign key takes one. If it has both, the index name is left
in front of the columns. -/
theorem foreignKeyName_spelled {name index : Option Token} (hname : ∀ n ∈ name, n.IsQuoted)
    (hindex : ∀ i ∈ index, i.IsQuoted) {ts : List Token} (hts : startsIdentifier ts = false) :
    foreignKeyName (name.map Token.name) (index.toList ++ ts) =
      ((name <|> index).map Token.name, (if name.isSome then index else none).toList ++ ts) := by
  cases index with
  | none =>
    have hnone : ∀ found, foreignKeyName found ts = (found, ts) := by
      intro found
      cases ts with
      | nil => rfl
      | cons t ts => exact if_neg (Bool.eq_false_iff.1 hts)
    cases name <;> exact hnone _
  | some i =>
    have hi : i.isIdentifier = true := (hindex i rfl).isIdentifier
    cases name with
    | none => exact if_pos hi
    | some n =>
      have hfull : (some n.name).any (fun m => !m.isEmpty) = true := by
        simpa using (hname n rfl).name_ne_nil
      exact (if_pos hi).trans (if_pos hfull)

/-- A foreign key is read behind its name, but refused if an index name is left. -/
theorem foreignKey_spelled {name index : Option Token} (hname : ∀ n ∈ name, n.IsQuoted)
    (hindex : ∀ i ∈ index, i.IsQuoted) {ns : List Text} {group : List Token} (hgroup : NameGroup ns group)
    {refers ts : List Token} (hrefers : Spells ["REFERENCES"] refers) {r : Reference}
    (hreference : SpelledReference r ts) :
    (foreignKey (name.map Token.name) (index.toList ++ (group ++ (refers ++ ts)))).mapError Stop.cause =
      match (if name.isSome then index else none) with
      | some i => .error (.expectedOpen i.value)
      | none => .ok (some (.foreignKey ((name <|> index).map Token.name) ns r), []) := by
  have hstarts : startsIdentifier (group ++ (refers ++ ts)) = false := by
    obtain ⟨o, more, rfl, ho⟩ := hgroup.cons
    exact isIdentifier_of_punct ho
  rw [foreignKey, foreignKeyName_spelled hname hindex hstarts]
  dsimp only
  cases hleft : (if name.isSome then index else none) with
  | none =>
    rw [Option.toList_none, List.nil_append, hgroup.takeColumns]
    dsimp only
    rw [afterWords?_spelled hrefers]
    dsimp only
    rw [hreference.takeReference]
    rfl
  | some i =>
    have hi : i.IsQuoted := by
      split at hleft
      · exact hindex i hleft
      · cases hleft
    have hopen : i.isOpen = false := hi.isPunct ['(']
    rw [Option.toList_some, List.singleton_append, takeColumns, takeGroup, hopen]
    rfl

theorem NamedBy.isQuoted {name : Option Token} {start : List Token} (h : NamedBy name start) :
    ∀ n ∈ name, n.IsQuoted := by
  cases h with
  | unnamed => exact fun n hn => by cases hn
  | named hw hn =>
    intro n hin
    cases hin
    exact hn

/-- The tokens of a key are read as the constraint that they spell, but for a foreign
key with a name and an index name. -/
theorem SpelledKey.takeConstraint {f : KeyForm} {ts : List Token} (h : SpelledKey f ts) :
    (TableDialects.takeConstraint ts).mapError Stop.cause =
      match f.refused? with
      | some i => .error (.expectedOpen i.value)
      | none => .ok (some f.constraint, []) := by
  cases h with
  | @primary name index start front group ns hname hfront hindex hgroup =>
    rw [hname.takeConstraint hfront rfl]
    unfold Constraint.takeNamed
    rw [afterWords?_spelled hfront]
    dsimp only
    rw [primaryKey_spelled _ hindex hgroup]
    rfl
  | @unique name index start front key group words ns hname hfront hwords hkey hindex hgroup =>
    rw [hname.takeConstraint hfront rfl]
    unfold Constraint.takeNamed
    rw [afterWords?_differ hfront rfl, afterWords?_spelled hfront]
    dsimp only
    rw [uniqueKey_spelled _ hindex hwords hkey hgroup]
    cases index <;> rfl
  | @foreign name index start front group refers ts ns r hname hfront hindex hgroup hrefers hreference =>
    rw [hname.takeConstraint hfront rfl]
    unfold Constraint.takeNamed
    rw [afterWords?_differ hfront rfl, afterWords?_differ hfront rfl, afterWords?_spelled hfront]
    exact foreignKey_spelled hname.isQuoted hindex hgroup hrefers hreference

theorem SpelledKey.ne_nil {f : KeyForm} {ts : List Token} (h : SpelledKey f ts) : ts ≠ [] := by
  have hfull : ∀ {w : String} {words : List String} {start front rest : List Token},
      Spells (w :: words) front → start ++ (front ++ rest) ≠ [] := by
    intro w words start front rest hfront
    obtain ⟨t, more, rfl, -⟩ := hfront.cons
    simp
  cases h with
  | primary hname hfront => exact hfull hfront
  | unique hname hfront => exact hfull hfront
  | foreign hname hfront => exact hfull hfront

namespace Clause

/-- A clause that spells a primary, unique or foreign key, with or without its
optional parts, is read as the constraint with exactly these columns, table, columns
of the table and actions. Only a foreign key with a name behind CONSTRAINT and an
index name is refused: the index name is found where the columns should open. -/
theorem read_key {f : KeyForm} {s : Text} (h : SpelledKey f (tokenize s)) :
    Clause.read s = match f.refused? with
      | some i => .error (.expectedOpen i.value)
      | none => .ok (.constraint f.constraint) := by
  have hread := h.takeConstraint
  have hne := h.ne_nil
  unfold Clause.read
  generalize tokenize s = ts at hread hne
  cases ts with
  | nil => exact absurd rfl hne
  | cons t ts =>
    dsimp only
    cases hrefused : f.refused? with
    | none =>
      rw [hrefused] at hread
      cases htake : takeConstraint (t :: ts) with
      | error e => rw [htake] at hread; cases hread
      | ok p =>
        rw [htake] at hread
        cases hread
        rfl
    | some i =>
      rw [hrefused] at hread
      cases htake : takeConstraint (t :: ts) with
      | ok p => rw [htake] at hread; cases hread
      | error e =>
        rw [htake] at hread
        exact congrArg Except.error (Except.error.inj hread)

/-- A foreign key with an index name and all that may follow it is read, and one with
both names is not. -/
theorem read_key_names :
    Clause.read "FOREIGN KEY `i` (`a`,\"b\") REFERENCES `t` (`c`) ON DELETE SET NULL" =
        .ok (.constraint (.foreignKey (some "i".toList) ["a".toList, "b".toList]
          ⟨⟨none, "t".toList⟩, ["c".toList], [(.delete, .setNull)]⟩)) ∧
      Clause.read "CONSTRAINT `n` FOREIGN KEY `i` (`a`) REFERENCES `t`" =
        .error (.expectedOpen "`i`".toList) := by
  have htokens : tokenize "FOREIGN KEY `i` (`a`,\"b\") REFERENCES `t` (`c`) ON DELETE SET NULL" =
      [] ++ ([⟨.word, "FOREIGN", 0, false⟩, ⟨.word, "KEY", 8, true⟩] ++ ([⟨.ident, "`i`", 12, true⟩] ++
        ([⟨.punct, "(", 16, true⟩, ⟨.ident, "`a`", 17, false⟩, ⟨.punct, ",", 20, false⟩,
          ⟨.ident, "\"b\"", 21, false⟩, ⟨.punct, ")", 24, false⟩] ++ ([⟨.word, "REFERENCES", 26, true⟩] ++
            ⟨.ident, "`t`", 37, true⟩ ::
              ([⟨.punct, "(", 41, true⟩, ⟨.ident, "`c`", 42, false⟩, ⟨.punct, ")", 45, false⟩] ++
                ([⟨.word, "ON", 47, true⟩, ⟨.word, "DELETE", 50, true⟩, ⟨.word, "SET", 57, true⟩,
                  ⟨.word, "NULL", 61, true⟩] ++ [])))))) := by
    decide +kernel
  have htokens' : tokenize "CONSTRAINT `n` FOREIGN KEY `i` (`a`) REFERENCES `t`" =
      [⟨.word, "CONSTRAINT", 0, false⟩, ⟨.ident, "`n`", 11, true⟩] ++
        ([⟨.word, "FOREIGN", 15, true⟩, ⟨.word, "KEY", 23, true⟩] ++ ([⟨.ident, "`i`", 27, true⟩] ++
          ([⟨.punct, "(", 31, true⟩, ⟨.ident, "`a`", 32, false⟩, ⟨.punct, ")", 35, false⟩] ++
            ([⟨.word, "REFERENCES", 37, true⟩] ++ [⟨.ident, "`t`", 48, true⟩])))) := by
    decide +kernel
  have hquoted : ∀ (value : Text) (place : Nat) (spaced : Bool),
      value.head? = some '`' ∨ value.head? = some '"' → unquoteIdentifier value ≠ [] →
      (⟨.ident, value, place, spaced⟩ : Token).IsQuoted := by
    rintro value place spaced (hq | hq) hname
    · exact isQuoted_of_head rfl hq (by decide) hname
    · exact isQuoted_of_head rfl hq (by decide) hname
  have hactions : SpelledActions [(.delete, .setNull)] ([⟨.word, "ON", 47, true⟩, ⟨.word, "DELETE", 50, true⟩,
      ⟨.word, "SET", 57, true⟩, ⟨.word, "NULL", 61, true⟩] ++ []) := .cons ⟨rfl, rfl, rfl, rfl, trivial⟩ .nil
  have hkey : SpelledKey ⟨.foreign ⟨⟨none, "t".toList⟩, ["c".toList], [(.delete, .setNull)]⟩, none,
      some ⟨.ident, "`i`", 12, true⟩, ["a".toList, "b".toList]⟩
      (tokenize "FOREIGN KEY `i` (`a`,\"b\") REFERENCES `t` (`c`) ON DELETE SET NULL") := by
    rw [htokens]
    refine .foreign .unnamed ⟨rfl, rfl, trivial⟩ ?_ ⟨_, _, [_, _, _], rfl, rfl, rfl, ?_⟩ ⟨rfl, trivial⟩ ?_
    · rintro i hi
      cases hi
      exact hquoted _ _ _ (.inl rfl) (by decide)
    · exact .inl <| .more (hquoted "`a`" 17 false (.inl rfl) (by decide)) rfl
        (.one (hquoted "\"b\"" 21 false (.inr rfl) (by decide)))
    · exact .columns (hquoted "`t`" 37 true (.inl rfl) (by decide))
        ⟨_, _, [_], rfl, rfl, rfl, .inl (.one (hquoted "`c`" 42 false (.inl rfl) (by decide)))⟩ hactions
  have hboth : SpelledKey ⟨.foreign ⟨⟨none, "t".toList⟩, [], []⟩, some ⟨.ident, "`n`", 11, true⟩,
      some ⟨.ident, "`i`", 27, true⟩, ["a".toList]⟩
      (tokenize "CONSTRAINT `n` FOREIGN KEY `i` (`a`) REFERENCES `t`") := by
    rw [htokens']
    refine .foreign (.named rfl (hquoted _ _ _ (.inl rfl) (by decide))) ⟨rfl, rfl, trivial⟩ ?_
      ⟨_, _, [_], rfl, rfl, rfl, ?_⟩ ⟨rfl, trivial⟩ ?_
    · rintro i hi
      cases hi
      exact hquoted _ _ _ (.inl rfl) (by decide)
    · exact .inl <| .one (hquoted "`a`" 32 false (.inl rfl) (by decide))
    · exact .table (hquoted "`t`" 48 true (.inl rfl) (by decide)) .nil
  exact ⟨read_key hkey, read_key hboth⟩

end Clause

end TableDialects
