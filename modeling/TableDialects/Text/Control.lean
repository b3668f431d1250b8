import TableDialects.Text.Basic

/- Control sequences, by which a text steers a terminal: an escape character and
   an opening bracket, then parameters, then intermediates, then one final
   character. Text that goes to no terminal is printed without them. -/
namespace TableDialects.Text

/-- Whether a character can stand among the parameters of a control sequence. -/
def isControlParameter (c : Char) : Bool := '0' ≤ c && c ≤ '?'

/-- Whether a character can stand between the parameters and the end of a control
sequence. -/
def isControlIntermediate (c : Char) : Bool := ' ' ≤ c && c ≤ '/'

def isControlFinal (c : Char) : Bool := '@' ≤ c && c ≤ '~'

/-- What follows the control sequence that the text starts with. -/
def afterControl? : Text → Option Text
  | '\x1b' :: '[' :: s =>
    match (s.dropWhile isControlParameter).dropWhile isControlIntermediate with
    | c :: rest => if isControlFinal c then some rest else none
    | [] => none
  | _ => none

theorem afterControl?_length {s rest : Text} (h : afterControl? s = some rest) :
    rest.length < s.length := by
  unfold afterControl? at h
  split at h
  · rename_i s
    split at h
    · rename_i c behind e
      split at h
      · cases h
        have inner := (List.dropWhile_suffix isControlParameter (l := s)).length_le
        have outer := (List.dropWhile_suffix isControlIntermediate
          (l := s.dropWhile isControlParameter)).length_le
        rw [e] at outer
        simp only [List.length_cons] at outer ⊢
        omega
      · cases h
    · cases h
  · cases h

/-- The text without its control sequences, found from left to right. What comes
together where one stood is not searched again. -/
def withoutControls (s : Text) : Text :=
  match _ : afterControl? s with
  | some rest => withoutControls rest
  | none =>
    match s with
    | [] => []
    | c :: rest => c :: withoutControls rest
termination_by s.length
decreasing_by
  · exact afterControl?_length ‹_›
  · exact Nat.lt_succ_self _

end TableDialects.Text
