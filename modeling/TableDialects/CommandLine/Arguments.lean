import TableDialects.Dialect.Basic
import TableDialects.Text.Case

/- Arguments of a command line. Every option takes a value: behind its long name,
   in the next argument or behind an equals sign, or behind its letter, in the
   next argument or in the same one. Only the call for help takes none. What
   belongs to no option is kept apart. -/
namespace TableDialects
namespace CommandLine

inductive ValueKind where
  | text
  /-- A file that can be read. -/
  | file
  /-- One of the names of a dialect. -/
  | dialect
  deriving DecidableEq, Repr

/-- An option: its names, its value and what it is for. -/
structure OptionSpec where
  long : String
  letter : Option Char
  value : ValueKind
  purpose : String
  required : Bool := false

/-- The values given for options, in order. -/
abbrev Given := List (String × Text)

structure Arguments where
  given : Given := []
  /-- The arguments that belong to no option. -/
  extra : List Text := []
  /-- Whether help is called for. -/
  help : Bool := false

def longOption? (options : List OptionSpec) (name : Text) : Option OptionSpec :=
  options.find? fun o => o.long.toList == name

def letterOption? (options : List OptionSpec) (c : Char) : Option OptionSpec :=
  options.find? fun o => o.letter == some c

/-- The option that an argument names, with the value that the argument holds
itself. -/
def named? (options : List OptionSpec) : Text → Option (OptionSpec × Option Text)
  | '-' :: '-' :: rest =>
    let name := rest.takeWhile (· != '=')
    match longOption? options name with
    | none => none
    | some o => some (o, (rest.drop name.length).tail?)
  | '-' :: c :: rest =>
    match letterOption? options c with
    | none => none
    | some o => some (o, if rest.isEmpty then none else some rest)
  | _ => none

/-- Whether an argument has the form of an option: a dash and more. -/
def isOption : Text → Bool
  | '-' :: _ :: _ => true
  | _ => false

def optionsEnd : Text := "--"

/-- The argument that calls for help. -/
def helpOption : Text := "--help"

/-- Reads the arguments, if all options among them are known and have their
values. -/
def read (options : List OptionSpec) : List Text → Option Arguments
  | [] => some {}
  | arg :: args =>
    if arg == optionsEnd then some { extra := args }
    else if !isOption arg then
      match read options args with
      | none => none
      | some a => some { a with extra := arg :: a.extra }
    else if arg == helpOption then
      match read options args with
      | none => none
      | some a => some { a with help := true }
    else
      match named? options arg with
      | none => none
      | some (o, some value) =>
        match read options args with
        | none => none
        | some a => some { a with given := (o.long, value) :: a.given }
      | some (o, none) =>
        match args with
        | [] => none
        | value :: args =>
          match read options args with
          | none => none
          | some a => some { a with given := (o.long, value) :: a.given }

def values (given : Given) (long : String) : List Text :=
  (given.filter fun g => g.1 == long).map (·.2)

/-- The value of an option: the last one counts. -/
def value? (given : Given) (long : String) : Option Text := (values given long).getLast?

/-- The dialect that a value chooses, letter case apart. -/
def choice? (value : Text) : Option Dialect :=
  (Dialect.aliases.find? fun a => Text.fold a.1 == Text.fold value).map (·.2)

def choices? : List Text → Option (List Dialect)
  | [] => some []
  | value :: values =>
    match choice? value, choices? values with
    | some d, some ds => some (d :: ds)
    | _, _ => none

end CommandLine
end TableDialects
