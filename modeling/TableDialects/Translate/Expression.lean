import TableDialects.Text.Word
import TableDialects.Token.Read
import TableDialects.Trace

/- Expressions in defaults, checks and other places, as token lists. Casts
   behind a double colon are cut out with their types, redundant parentheses
   around a literal or a call are peeled off, and tokens are respelled for the
   target dialect.

   Correspondence (program ↔ model):
     `_strip_casts`              ↔ `stripCasts`
     `_unwrap`                   ↔ `unwrap`
     `_render_token`             ↔ `respell`
     `_render_expression`        ↔ `render`
     `_boolean_value`            ↔ `truthValue?`
     `CURRENT_TIMESTAMP_PATTERN` ↔ `isTimeCall`

   What is proved here: what is left of a cast is an end of its tokens, by which
   `stripCasts` and `unwrap` terminate. -/
namespace TableDialects.Expression

/-- Words that may continue the type of a cast behind its first word. -/
def castWords : List String := ["VARYING", "PRECISION", "WITH", "WITHOUT", "TIME", "ZONE"]

/-- Whether the token is a double colon. -/
def isCast (t : Token) : Bool := t.kind == .op && t.value == "::".toList

def afterTypeName : List Token → List Token
  | [] => []
  | t :: rest => if t.isIdentifier then rest.dropWhile (fun t => t.isWordOf castWords) else t :: rest

/-- The tokens behind the parenthesis that closes `depth` open ones; none if it
is missing. -/
def afterClose : (depth : Nat) → List Token → List Token
  | _, [] => []
  | depth, t :: rest =>
    if t.isOpen then afterClose (depth + 1) rest
    else if t.isClose then
      match depth with
      | 0 => rest
      | 1 => rest
      | depth + 2 => afterClose (depth + 1) rest
    else afterClose depth rest

/-- The tokens behind the parameters of a cast. -/
def afterParams : List Token → List Token
  | [] => []
  | t :: rest => if t.isOpen then afterClose 1 rest else t :: rest

/-- The tokens behind an empty array suffix. -/
def afterArray : List Token → List Token
  | [] => []
  | t :: rest => if t.kind == .ident && t.value == "[]".toList then rest else t :: rest

def afterCastType (ts : List Token) : List Token := afterArray (afterParams (afterTypeName ts))

theorem afterTypeName_suffix (ts : List Token) : afterTypeName ts <:+ ts := by
  unfold afterTypeName
  split
  · exact List.suffix_refl _
  · split
    · exact (List.dropWhile_suffix _).trans (List.suffix_cons _ _)
    · exact List.suffix_refl _

theorem afterClose_suffix (depth : Nat) (ts : List Token) : afterClose depth ts <:+ ts := by
  fun_induction afterClose depth ts with
  | case1 => exact List.suffix_refl _
  | case2 depth t ts ho ih => exact ih.trans (List.suffix_cons t ts)
  | case3 t ts ho hc => exact List.suffix_cons t ts
  | case4 t ts ho hc => exact List.suffix_cons t ts
  | case5 t ts ho hc depth ih => exact ih.trans (List.suffix_cons t ts)
  | case6 depth t ts ho hc ih => exact ih.trans (List.suffix_cons t ts)

theorem afterParams_suffix (ts : List Token) : afterParams ts <:+ ts := by
  unfold afterParams
  split
  · exact List.suffix_refl _
  · split
    · exact (afterClose_suffix 1 _).trans (List.suffix_cons _ _)
    · exact List.suffix_refl _

theorem afterArray_suffix (ts : List Token) : afterArray ts <:+ ts := by
  unfold afterArray
  split
  · exact List.suffix_refl _
  · split
    · exact List.suffix_cons _ _
    · exact List.suffix_refl _

theorem afterCastType_suffix (ts : List Token) : afterCastType ts <:+ ts :=
  (afterArray_suffix _).trans ((afterParams_suffix _).trans (afterTypeName_suffix ts))

def stripCasts : List Token → List Token
  | [] => []
  | t :: rest => if isCast t then stripCasts (afterCastType rest) else t :: stripCasts rest
termination_by ts => ts.length
decreasing_by
  · exact Nat.lt_succ_of_le (afterCastType_suffix rest).length_le
  · exact Nat.lt_succ_self _

/-- Whether the parentheses, `depth` of which are open, are all closed before
the last token. -/
def closesEarly : (depth : Nat) → List Token → Bool
  | _, [] => false
  | _, [_] => false
  | depth, t :: u :: rest =>
    let depth := if t.isOpen then depth + 1 else if t.isClose then depth - 1 else depth
    depth == 0 || closesEarly depth (u :: rest)

/-- Whether the tokens are a literal, a signed one, or start and end as a
call. -/
def isSimple (inner : List Token) : Bool :=
  match inner with
  | [_] => true
  | [sign, _] => sign.value == ['-'] || sign.value == ['+']
  | f :: p :: _ :: _ => f.isIdentifier && p.isOpen && inner.getLast?.any Token.isClose
  | [] => false

/-- The tokens inside the outermost parentheses, if these may be peeled off:
they match, and what they hold is simple or starts with a parenthesis again. -/
def peel? (ts : List Token) : Option (List Token) :=
  match ts with
  | first :: second :: third :: rest =>
    let inner := (second :: third :: rest).dropLast
    if first.isOpen && ts.getLast?.any Token.isClose && !closesEarly 0 ts
        && (isSimple inner || second.isOpen) then some inner
    else none
  | _ => none

theorem peel?_length {ts inner : List Token} (h : peel? ts = some inner) :
    inner.length < ts.length := by
  unfold peel? at h
  split at h
  · dsimp only at h
    split at h
    · simp only [Option.some.injEq] at h
      subst h
      simp only [List.length_dropLast, List.length_cons]
      omega
    · cases h
  · cases h

/-- The tokens without redundant parentheses around them. -/
def unwrap (ts : List Token) : List Token :=
  match _ : peel? ts with
  | some inner => unwrap inner
  | none => ts
termination_by ts.length
decreasing_by exact peel?_length ‹_›

/-- A token as the target dialect spells it: identifiers in its quotes, except
that MySQL reads double quotes as a string, and national strings with their N
only for SQL Server. -/
def respell (source target : Dialect) (t : Token) : Text :=
  match t.kind with
  | .ident =>
    if source == .mysql && t.value.head? == some '"' then
      '\'' :: Text.double '\'' (unquoteIdentifier t.value) ++ ['\'']
    else target.quote (unquoteIdentifier t.value)
  | .string =>
    if (t.value.head? == some 'N' || t.value.head? == some 'n') && target != .sqlserver then
      t.value.drop 1
    else t.value
  | _ => t.value

def render (source target : Dialect) (ts : List Token) : Traced Text := do
  if target.profile.casts then return renderTokensWith (respell source target) ts
  else
    let stripped := stripCasts ts
    Traced.recordIf (stripped.length != ts.length) .castsRemoved
    return renderTokensWith (respell source target) stripped

def trueDefaults : List String := ["1", "TRUE", "T", "Y", "YES", "ON", "B'1'"]

def falseDefaults : List String := ["0", "FALSE", "F", "N", "NO", "OFF", "B'0'"]

/-- The text of a default that may be a truth value: of a string what it stands
for, else the tokens without gaps. -/
def defaultText (ts : List Token) : Text :=
  match ts with
  | [t] => if t.kind == .string then stringValue t.value else t.value
  | ts => ts.flatMap Token.value

def truthValue? (ts : List Token) : Option Bool :=
  let s := Text.upper (Text.strip (defaultText (stripCasts ts)))
  if trueDefaults.any fun t => t.toList == s then some true
  else if falseDefaults.any fun t => t.toList == s then some false
  else none

def timeCalls : List String := [
  "NOW()", "GETDATE()", "GETUTCDATE()", "SYSDATETIME()", "LOCALTIMESTAMP", "CURRENT_TIMESTAMP",
  "DATETIME('NOW')", "DATETIME('NOW','LOCALTIME')"]

/-- Whether the text is digits, or nothing, in parentheses. -/
def isPrecisionCall (s : Text) : Bool :=
  match s with
  | '(' :: s => s.dropWhile Text.isDigit == [')']
  | _ => false

/-- Whether the text, which has no white space, gives the current time. -/
def isTimeCall (s : Text) : Bool :=
  timeCalls.any (fun call => Text.afterWord? call s == some [])
    || (Text.afterWord? "CURRENT_TIMESTAMP" s).any isPrecisionCall

end TableDialects.Expression
