import TableDialects.Malformed
import TableDialects.Token.Basic

/- Reading from the front of a token list. A reader answers with what it read
   and the tokens it left; a reader that fails says why and which tokens were
   left when it gave up.

   Correspondence (program ↔ model):
     `expect_identifier`          ↔ `takeName`
     `take_qualified_name`        ↔ `takeQualified`
     `take_parenthesized`         ↔ `takeGroup`
     `take_expression`            ↔ `takeExpression`
     `_starts_option`             ↔ `startsOption`
     `accept_words`, `peek_words` ↔ `afterWords?`, `startsWithWords`

   What is proved here: a reader leaves an end of the tokens that it was given
   (`IsBehind`), which is why the readers of whole clauses terminate. -/
namespace TableDialects

/-- A failed reading: the cause, and the tokens not yet consumed. -/
structure Stop where
  cause : Malformed
  rest : List Token
  deriving Repr

/-- The outcome of reading: a value and the tokens left. -/
abbrev Reading (α : Type) := Except Stop (α × List Token)

def Reading.mapValue {α β : Type} (f : α → β) (r : Reading α) : Reading β := r.map fun p => (f p.1, p.2)

/-- The text a message shows for the token that should have been another one. -/
def foundText : List Token → Text
  | [] => "end of statement"
  | t :: _ => t.value

def takeToken : List Token → Reading Token
  | [] => .error ⟨.unexpectedEnd, []⟩
  | t :: rest => .ok (t, rest)

def startsWithWords : (words : List Text) → List Token → Bool
  | [], _ => true
  | _ :: _, [] => false
  | w :: words, t :: rest => t.isWord w && startsWithWords words rest

/-- The tokens behind the keywords, if they start with them. -/
def afterWords? (words : List String) (ts : List Token) : Option (List Token) :=
  if startsWithWords (words.map String.toList) ts then some (ts.drop words.length) else none

/-- Whether the tokens start with the punctuation mark. -/
def startsWithPunct (p : Text) : List Token → Bool
  | [] => false
  | t :: _ => t.isPunct p

/-- Whether the tokens start with an opening parenthesis. -/
def startsOpen (ts : List Token) : Bool := startsWithPunct ['('] ts

def startsWithWordOf (words : List String) : List Token → Bool
  | [] => false
  | t :: _ => t.isWordOf words

def startsIdentifier : List Token → Bool
  | [] => false
  | t :: _ => t.isIdentifier

/-- Takes the name of `what`. -/
def takeName (what : Text) : List Token → Reading Text
  | t :: rest =>
    if t.isIdentifier then .ok (t.name, rest) else .error ⟨.expectedName what t.value, t :: rest⟩
  | [] => .error ⟨.expectedName what (foundText []), []⟩

def takeDotted (what : Text) : List Token → Reading (List Text)
  | [] => .ok ([], [])
  | dot :: rest =>
    if dot.isPunct ['.'] then
      match rest with
      | [] => .error ⟨.expectedName what (foundText []), []⟩
      | t :: rest =>
        if t.isIdentifier then
          match takeDotted what rest with
          | .ok (names, rest) => .ok (t.name :: names, rest)
          | .error e => .error e
        else .error ⟨.expectedName what t.value, t :: rest⟩
    else .ok ([], dot :: rest)

structure QualifiedName where
  schema : Option Text
  name : Text
  deriving DecidableEq, Repr

/-- The last of the parts is the name; the others, joined by dots, are the
schema unless they are empty. -/
def QualifiedName.ofParts (first : Text) (more : List Text) : QualifiedName :=
  let parts := first :: more
  let schema := Text.join ['.'] parts.dropLast
  ⟨if schema.isEmpty then none else some schema, parts.getLastD first⟩

/-- Takes a name that dots may qualify. -/
def takeQualified (what : Text) (ts : List Token) : Reading QualifiedName :=
  match takeName what ts with
  | .error e => .error e
  | .ok (first, rest) =>
    match takeDotted what rest with
    | .error e => .error e
    | .ok (more, rest) => .ok (.ofParts first more, rest)

/-- The tokens up to the parenthesis that closes `depth + 1` open ones, without
it, and the tokens behind it. -/
def closeGroup? : (depth : Nat) → List Token → Option (List Token × List Token)
  | _, [] => none
  | depth, t :: rest =>
    if t.isOpen then
      match closeGroup? (depth + 1) rest with
      | some (inner, rest) => some (t :: inner, rest)
      | none => none
    else if t.isClose then
      match depth with
      | 0 => some ([], rest)
      | depth + 1 =>
        match closeGroup? depth rest with
        | some (inner, rest) => some (t :: inner, rest)
        | none => none
    else
      match closeGroup? depth rest with
      | some (inner, rest) => some (t :: inner, rest)
      | none => none

/-- Takes a group in parentheses and answers with the tokens inside. -/
def takeGroup (ts : List Token) : Reading (List Token) :=
  match ts with
  | [] => .error ⟨.expectedOpen (foundText []), []⟩
  | t :: rest =>
    if t.isOpen then
      match closeGroup? 0 rest with
      | some (inner, rest) => .ok (inner, rest)
      | none => .error ⟨.unbalanced, []⟩
    else .error ⟨.expectedOpen t.value, t :: rest⟩

def optionWords : List String := [
  "NOT", "NULL", "DEFAULT", "PRIMARY", "UNIQUE", "CHECK", "REFERENCES",
  "AUTO_INCREMENT", "AUTOINCREMENT", "IDENTITY", "COMMENT", "COLLATE",
  "CHARACTER", "CHARSET", "GENERATED", "CONSTRAINT"]

/-- Whether the tokens start a column option: ON only before UPDATE, DELETE or
CONFLICT, and CHARACTER only before SET. -/
def startsOption : List Token → Bool
  | [] => false
  | t :: rest =>
    if t.kind != .word then false
    else if t.upper == "ON".toList then startsWithWordOf ["UPDATE", "DELETE", "CONFLICT"] rest
    else if t.upper == "CHARACTER".toList then startsWithWordOf ["SET"] rest
    else optionWords.any fun w => t.upper == w.toList

/-- The tokens up to the next option at depth zero, counted from `depth`. -/
def expressionRest (depth : Int) : List Token → List Token × List Token
  | [] => ([], [])
  | t :: rest =>
    if depth == 0 && startsOption (t :: rest) then ([], t :: rest)
    else
      let (more, left) := expressionRest (depth + t.turn) rest
      (t :: more, left)

/-- Takes an expression: one token at least, then all up to the next option at
depth zero. -/
def takeExpression : List Token → Reading (List Token)
  | [] => .error ⟨.unexpectedEnd, []⟩
  | t :: rest =>
    let (more, left) := expressionRest (if t.isOpen then 1 else 0) rest
    .ok (t :: more, left)

/-! ## What reading leaves -/

theorem afterWords?_eq_some {words : List String} {ts rest : List Token}
    (h : afterWords? words ts = some rest) : rest = ts.drop words.length := by
  unfold afterWords? at h
  split at h
  · exact (Option.some.inj h).symm
  · cases h

theorem startsWithWords_length {words : List Text} {ts : List Token}
    (h : startsWithWords words ts = true) : words.length ≤ ts.length := by
  fun_induction startsWithWords words ts <;> grind

theorem afterWords?_length {words : List String} {ts rest : List Token}
    (h : afterWords? words ts = some rest) : rest.length + words.length = ts.length := by
  unfold afterWords? at h
  split at h
  · next hw =>
    have := startsWithWords_length hw
    simp only [List.length_map] at this
    simp only [Option.some.injEq] at h
    subst h
    simp only [List.length_drop]
    omega
  · cases h

theorem afterWords?_suffix {words : List String} {ts rest : List Token}
    (h : afterWords? words ts = some rest) : rest <:+ ts := by
  rw [afterWords?_eq_some h]
  exact List.drop_suffix _ _

/-- The tokens left are an end of the tokens, without the first one at least. -/
def IsBehind (rest ts : List Token) : Prop := rest <:+ ts ∧ rest.length < ts.length

theorem IsBehind.of_suffix {rest mid ts : List Token} (h : IsBehind mid ts) (hrest : rest <:+ mid) :
    IsBehind rest ts := ⟨hrest.trans h.1, Nat.lt_of_le_of_lt hrest.length_le h.2⟩

theorem afterWords?_isBehind {words : List String} {ts rest : List Token}
    (h : afterWords? words ts = some rest) (hne : 0 < words.length) : IsBehind rest ts := by
  have hlength := afterWords?_length h
  exact ⟨afterWords?_suffix h, by omega⟩

@[simp] theorem Reading.mapValue_ok {α β : Type} (f : α → β) (a : α) (rest : List Token) :
    Reading.mapValue f (.ok (a, rest)) = .ok (f a, rest) := rfl

theorem Reading.of_mapValue_ok {α β : Type} {f : α → β} {r : Reading α} {b : β} {rest : List Token}
    (h : r.mapValue f = .ok (b, rest)) : ∃ a, r = .ok (a, rest) ∧ f a = b := by
  cases r with
  | error e => cases h
  | ok p =>
    cases h
    exact ⟨p.1, rfl, rfl⟩

theorem takeToken_suffix {ts rest : List Token} {t : Token} (h : takeToken ts = .ok (t, rest)) :
    rest <:+ ts := by
  cases ts with
  | nil => cases h
  | cons u ts =>
    cases h
    exact List.suffix_cons _ _

theorem takeName_suffix {what : Text} {ts rest : List Token} {n : Text} (h : takeName what ts = .ok (n, rest)) :
    rest <:+ ts := by
  cases ts with
  | nil => cases h
  | cons u ts =>
    rw [takeName] at h
    split at h
    · cases h
      exact List.suffix_cons _ _
    · cases h

theorem takeDotted_suffix {what : Text} {ts rest : List Token} {names : List Text}
    (h : takeDotted what ts = .ok (names, rest)) : rest <:+ ts := by
  fun_induction takeDotted what ts generalizing names rest with
  | case1 => cases h; exact List.suffix_refl _
  | case2 => cases h
  | case3 dot hdot t ts ht names' rest' hrest ih =>
    cases h
    exact (ih hrest).trans ((List.suffix_cons t ts).trans (List.suffix_cons dot _))
  | case4 => cases h
  | case5 => cases h
  | case6 => cases h; exact List.suffix_refl _

theorem takeQualified_suffix {what : Text} {ts rest : List Token} {q : QualifiedName}
    (h : takeQualified what ts = .ok (q, rest)) : rest <:+ ts := by
  unfold takeQualified at h
  split at h
  · cases h
  · rename_i hname
    split at h
    · cases h
    · cases h
      exact (takeDotted_suffix ‹_›).trans (takeName_suffix hname)

theorem closeGroup?_suffix {depth : Nat} {ts inner rest : List Token}
    (h : closeGroup? depth ts = some (inner, rest)) : rest <:+ ts := by
  fun_induction closeGroup? depth ts generalizing inner rest with
  | case1 => cases h
  | case2 depth t ts ht inner' rest' hsome ih =>
    cases h
    exact (ih hsome).trans (List.suffix_cons t ts)
  | case3 => cases h
  | case4 t ts ht hc =>
    cases h
    exact List.suffix_cons t _
  | case5 t ts ht hc depth inner' rest' hsome ih =>
    cases h
    exact (ih hsome).trans (List.suffix_cons t ts)
  | case6 => cases h
  | case7 depth t ts ht hc inner' rest' hsome ih =>
    cases h
    exact (ih hsome).trans (List.suffix_cons t ts)
  | case8 => cases h

theorem takeGroup_suffix {ts inner rest : List Token} (h : takeGroup ts = .ok (inner, rest)) : rest <:+ ts := by
  unfold takeGroup at h
  split at h
  · cases h
  · split at h
    · split at h
      · cases h
        exact (closeGroup?_suffix ‹_›).trans (List.suffix_cons _ _)
      · cases h
    · cases h

theorem expressionRest_append (depth : Int) (ts : List Token) :
    (expressionRest depth ts).1 ++ (expressionRest depth ts).2 = ts := by
  fun_induction expressionRest depth ts with
  | case1 => rfl
  | case2 => rfl
  | case3 depth t ts hstart more left hmore ih =>
    rw [hmore] at ih
    rw [List.cons_append, ih]

theorem takeExpression_append {ts e rest : List Token} (h : takeExpression ts = .ok (e, rest)) :
    e ++ rest = ts := by
  cases ts with
  | nil => cases h
  | cons t ts =>
    have hsplit := expressionRest_append (if t.isOpen then 1 else 0) ts
    cases h
    rw [List.cons_append, hsplit]

theorem takeExpression_suffix {ts e rest : List Token} (h : takeExpression ts = .ok (e, rest)) :
    rest <:+ ts := ⟨e, takeExpression_append h⟩

end TableDialects
