import TableDialects.Token.Groups
import TableDialects.Token.Read

/- What a foreign key points to: a table, its columns, and what happens to a
   row when the row it points to is deleted or changed.

   Correspondence (program ↔ model):
     `ReferenceClause`     ↔ `Reference`
     `REFERENTIAL_ACTIONS` ↔ `ReferenceAction`
     `_parse_column_list`  ↔ `takeColumns`
     `_parse_reference`    ↔ `takeReference` -/
namespace TableDialects

/-- What happens to the row pointed to. -/
inductive ReferenceEvent where
  | delete
  | update
  deriving DecidableEq, Repr

/-- What then happens to the row that points to it. -/
inductive ReferenceAction where
  | cascade
  | restrict
  | noAction
  | setNull
  | setDefault
  deriving DecidableEq, Repr

namespace ReferenceEvent

def word : ReferenceEvent → String
  | .delete => "DELETE"
  | .update => "UPDATE"

end ReferenceEvent

namespace ReferenceAction

def words : ReferenceAction → List String
  | .cascade => ["CASCADE"]
  | .restrict => ["RESTRICT"]
  | .noAction => ["NO", "ACTION"]
  | .setNull => ["SET", "NULL"]
  | .setDefault => ["SET", "DEFAULT"]

/-- All actions, in the order in which they are tried. -/
def all : List ReferenceAction := [.cascade, .restrict, .noAction, .setNull, .setDefault]

def text (a : ReferenceAction) : Text := Text.join [' '] (a.words.map String.toList)

end ReferenceAction

/-- The target of a foreign key. -/
structure Reference where
  target : QualifiedName
  columns : List Text
  actions : List (ReferenceEvent × ReferenceAction)
  deriving DecidableEq, Repr

/-- Takes a list of columns in parentheses: of each part its first token, if
that names something. -/
def takeColumns (ts : List Token) : Reading (List Text) :=
  (takeGroup ts).mapValue fun inner =>
    (splitGroups [','] inner).filterMap fun group =>
      match group with
      | t :: _ => if t.isIdentifier then some t.name else none
      | [] => none

/-- The event and action that the tokens start with, and the tokens behind. -/
def eventAction? (event : ReferenceEvent) (ts : List Token) :
    Option ((ReferenceEvent × ReferenceAction) × List Token) :=
  ReferenceAction.all.findSome? fun action =>
    match afterWords? ("ON" :: event.word :: action.words) ts with
    | some rest => some ((event, action), rest)
    | none => none

/-- One part of what may follow the columns of a reference. -/
inductive ReferencePart where
  /-- An action on an event. -/
  | action (event : ReferenceEvent) (action : ReferenceAction)
  /-- A part that is read and left out, such as MATCH FULL. -/
  | skipped

/-- Takes one word behind keywords that are left out. -/
def skipWord (ts : List Token) : Reading (Option ReferencePart) :=
  (takeToken ts).mapValue fun _ => some .skipped

def takeReferencePart (ts : List Token) : Reading (Option ReferencePart) :=
  if (afterWords? ["ON", "DELETE"] ts).isSome then
    match eventAction? .delete ts with
    | some ((event, action), rest) => .ok (some (.action event action), rest)
    | none => .ok (none, ts)
  else if (afterWords? ["ON", "UPDATE"] ts).isSome then
    match eventAction? .update ts with
    | some ((event, action), rest) => .ok (some (.action event action), rest)
    | none => .ok (none, ts)
  else match afterWords? ["MATCH"] ts with
  | some rest => skipWord rest
  | none => match afterWords? ["NOT", "DEFERRABLE"] ts with
    | some rest => .ok (some .skipped, rest)
    | none => match afterWords? ["DEFERRABLE"] ts with
      | some rest => .ok (some .skipped, rest)
      | none => match afterWords? ["INITIALLY"] ts with
        | some rest => skipWord rest
        | none => .ok (none, ts)

theorem skipWord_suffix {ts rest : List Token} {p : Option ReferencePart} (h : skipWord ts = .ok (p, rest)) :
    rest <:+ ts := by
  obtain ⟨t, ht, -⟩ := Reading.of_mapValue_ok h
  exact takeToken_suffix ht

theorem eventAction?_isBehind {event : ReferenceEvent} {ts rest : List Token}
    {p : ReferenceEvent × ReferenceAction} (h : eventAction? event ts = some (p, rest)) : IsBehind rest ts := by
  obtain ⟨action, -, ha⟩ := List.exists_of_findSome?_eq_some h
  split at ha
  · cases ha
    exact afterWords?_isBehind ‹_› (by simp)
  · cases ha

theorem eventPart_left {event : ReferenceEvent} {ts rest : List Token} {p : Option ReferencePart}
    (h : (match eventAction? event ts with
      | some ((event, action), rest) => .ok (some (.action event action), rest)
      | none => .ok (none, ts) : Reading (Option ReferencePart)) = .ok (p, rest)) :
    (p = none ∧ rest = ts) ∨ IsBehind rest ts := by
  split at h
  · cases h
    exact .inr (eventAction?_isBehind ‹_›)
  · cases h
    exact .inl ⟨rfl, rfl⟩

/-- A part of a reference takes a token at least, and no part takes none. -/
theorem takeReferencePart_left {ts rest : List Token} {p : Option ReferencePart}
    (h : takeReferencePart ts = .ok (p, rest)) : (p = none ∧ rest = ts) ∨ IsBehind rest ts := by
  unfold takeReferencePart at h
  split at h
  · exact eventPart_left h
  split at h
  · exact eventPart_left h
  split at h
  · exact .inr ((afterWords?_isBehind ‹_› (by simp)).of_suffix (skipWord_suffix h))
  split at h
  · cases h
    exact .inr (afterWords?_isBehind ‹_› (by simp))
  split at h
  · cases h
    exact .inr (afterWords?_isBehind ‹_› (by simp))
  split at h
  · exact .inr ((afterWords?_isBehind ‹_› (by simp)).of_suffix (skipWord_suffix h))
  · cases h
    exact .inl ⟨rfl, rfl⟩

theorem takeReferencePart_suffix {ts rest : List Token} {p : Option ReferencePart}
    (h : takeReferencePart ts = .ok (p, rest)) : rest <:+ ts := by
  rcases takeReferencePart_left h with ⟨-, rfl⟩ | hbehind
  · exact List.suffix_refl rest
  · exact hbehind.1

theorem takeReferencePart_length {ts rest : List Token} {p : ReferencePart}
    (h : takeReferencePart ts = .ok (some p, rest)) : rest.length < ts.length := by
  rcases takeReferencePart_left h with ⟨hnone, -⟩ | hbehind
  · cases hnone
  · exact hbehind.2

/-- Takes the actions of a reference, as long as a part follows. -/
def takeActions (ts : List Token) : Reading (List (ReferenceEvent × ReferenceAction)) :=
  match _ : takeReferencePart ts with
  | .error e => .error e
  | .ok (none, rest) => .ok ([], rest)
  | .ok (some part, rest) =>
    match takeActions rest with
    | .error e => .error e
    | .ok (actions, rest) =>
      match part with
      | .action event action => .ok ((event, action) :: actions, rest)
      | .skipped => .ok (actions, rest)
termination_by ts.length
decreasing_by exact takeReferencePart_length ‹_›

/-- Takes a list of columns if a parenthesis opens one. -/
def takeOptionalColumns (ts : List Token) : Reading (List Text) :=
  if startsOpen ts then takeColumns ts else .ok ([], ts)

/-- Takes the target of a foreign key. -/
def takeReference (ts : List Token) : Reading Reference :=
  match takeQualified "referenced table" ts with
  | .error e => .error e
  | .ok (target, rest) =>
    match takeOptionalColumns rest with
    | .error e => .error e
    | .ok (columns, rest) =>
      match takeActions rest with
      | .error e => .error e
      | .ok (actions, rest) => .ok (⟨target, columns, actions⟩, rest)

theorem takeActions_suffix {ts rest : List Token} {as : List (ReferenceEvent × ReferenceAction)}
    (h : takeActions ts = .ok (as, rest)) : rest <:+ ts := by
  fun_induction takeActions ts generalizing as rest with
  | case1 => cases h
  | case2 ts left hpart =>
    cases h
    exact takeReferencePart_suffix hpart
  | case3 => cases h
  | case4 ts left actions behind hmore event action hpart _ ih =>
    cases h
    exact (ih hmore).trans (takeReferencePart_suffix hpart)
  | case5 ts left actions behind hmore hpart _ ih =>
    cases h
    exact (ih hmore).trans (takeReferencePart_suffix hpart)

theorem takeOptionalColumns_suffix {ts rest : List Token} {ns : List Text}
    (h : takeOptionalColumns ts = .ok (ns, rest)) : rest <:+ ts := by
  unfold takeOptionalColumns at h
  split at h
  · obtain ⟨inner, hgroup, -⟩ := Reading.of_mapValue_ok h
    exact takeGroup_suffix hgroup
  · cases h
    exact List.suffix_refl _

theorem takeReference_suffix {ts rest : List Token} {r : Reference} (h : takeReference ts = .ok (r, rest)) :
    rest <:+ ts := by
  unfold takeReference at h
  split at h
  · cases h
  · rename_i hname
    split at h
    · cases h
    · rename_i hcolumns
      split at h
      · cases h
      · rename_i hactions
        cases h
        exact (takeActions_suffix hactions).trans ((takeOptionalColumns_suffix hcolumns).trans
          (takeQualified_suffix hname))

end TableDialects
