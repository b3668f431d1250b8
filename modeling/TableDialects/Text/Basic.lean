/- A text is its list of characters. Every scanner, parser and printer of the
   library works on this view, so that a law about a text is a law about a
   list. Positions and lengths count characters. -/
namespace TableDialects

/-- A text: its characters in order. -/
abbrev Text := List Char

/-- A string literal may stand where a text is expected. -/
instance : Coe String Text := ⟨String.toList⟩

namespace Text

/-- What holds of every character of a text is decided along the text. -/
instance (priority := high) decidableForallMem (s : Text) (p : Char → Prop) [DecidablePred p] :
    Decidable (∀ c ∈ s, p c) := List.decidableBAll p s

/-- The same of a character that may be missing. -/
instance (priority := high) decidableForallMemOption (c? : Option Char) (p : Char → Prop) [DecidablePred p] :
    Decidable (∀ c ∈ c?, p c) := Option.decidableForallMem c?

/-- The text without the leading characters that satisfy `p`. -/
def trimStart (p : Char → Bool) (s : Text) : Text := s.dropWhile p

/-- The text without the trailing characters that satisfy `p`. -/
def trimEnd (p : Char → Bool) (s : Text) : Text := (s.reverse.dropWhile p).reverse

/-- The text without the characters at its two ends that satisfy `p`. -/
def trim (p : Char → Bool) (s : Text) : Text := trimEnd p (trimStart p s)

/-- The parts in order, `separator` between neighbours. -/
def join (separator : Text) : List Text → Text
  | [] => []
  | [s] => s
  | s :: rest => s ++ separator ++ join separator rest

/-- What follows `lead` in `s`, if `s` starts with it. -/
def after? : (lead s : Text) → Option Text
  | [], s => some s
  | _ :: _, [] => none
  | l :: lead, c :: s => if l = c then after? lead s else none

theorem after?_eq_some {lead s rest : Text} (h : after? lead s = some rest) : s = lead ++ rest := by
  induction lead generalizing s with
  | nil => exact (Option.some.inj h)
  | cons l lead ih =>
    cases s with
    | nil => cases h
    | cons c s =>
      rw [after?] at h
      split at h
      · rename_i hlc
        rw [ih h, hlc]
        rfl
      · cases h

theorem after?_append (lead s : Text) : after? lead (lead ++ s) = some s := by
  induction lead with
  | nil => rfl
  | cons c lead ih =>
    rw [List.cons_append, after?, if_pos rfl]
    exact ih

theorem after?_length {lead s rest : Text} (h : after? lead s = some rest) :
    s.length = lead.length + rest.length := by
  rw [after?_eq_some h, List.length_append]

/-- The text with every occurrence of `old` replaced by `new`, found from left
to right without overlap. An empty `old` occurs nowhere. -/
def replaceAll (old new : Text) (s : Text) : Text :=
  if _ : 0 < old.length then
    match _ : after? old s with
    | some rest => new ++ replaceAll old new rest
    | none =>
      match s with
      | [] => []
      | c :: rest => c :: replaceAll old new rest
  else s
termination_by s.length
decreasing_by
  · have := after?_length ‹_›
    omega
  · exact Nat.lt_succ_self _

/-- Whether `part` occurs in `s`. -/
def hasPart (part : Text) : Text → Bool
  | [] => part.isEmpty
  | c :: s => (after? part (c :: s)).isSome || hasPart part s

/-- The text before and behind the first occurrence of `separator`. An empty one
occurs nowhere. -/
def splitFirst? (separator : Text) : Text → Option (Text × Text)
  | [] => none
  | c :: s =>
    match after? separator (c :: s) with
    | some rest => if separator.isEmpty then none else some ([], rest)
    | none =>
      match splitFirst? separator s with
      | some (before, behind) => some (c :: before, behind)
      | none => none

/-- The pieces of the text between occurrences of `separator`. -/
def splitOn (separator : Char) : Text → List Text
  | [] => [[]]
  | c :: s =>
    if c = separator then [] :: splitOn separator s
    else match splitOn separator s with
      | [] => [[c]]
      | piece :: rest => (c :: piece) :: rest

/-- Line ends written with a carriage return become single line feeds. -/
def unixLines : Text → Text
  | [] => []
  | '\r' :: '\n' :: s => '\n' :: unixLines s
  | c :: s => (if c = '\r' then '\n' else c) :: unixLines s

/-- Whether `s` lies at the end of a text or before its one last line feed. -/
def atLastLineEnd (s : Text) : Bool := s == [] || s == ['\n']

def ofNat (n : Nat) : Text := Nat.toDigits 10 n

/-- The decimal digits of an integer, a minus sign before a negative one. -/
def ofInt : Int → Text
  | .ofNat n => ofNat n
  | .negSucc n => '-' :: ofNat (n + 1)

end Text
end TableDialects
