import TableDialects.Translate.Statement

/- A translator that is given one statement after the other and can be asked for
   the changes of the last one.

   Correspondence (program ↔ model):
     a `CreateTableTranslator` that is used again ↔ `Translator`
     `translate`                                  ↔ `step` -/
namespace TableDialects

/-- A translator with the changes that its last statement needed. -/
structure Translator where
  direction : Direction
  applied : List Change := []

namespace Translator

def label (t : Translator) : Text := directionLabel t.direction.source t.direction.target

/-- Notes changes, each that was not noted before. -/
def note (t : Translator) (changes : List Change) : Translator :=
  { t with applied := changes.foldl addNew t.applied }

/-- Translates one statement; what was noted before is forgotten first. -/
def step (t : Translator) (sql : Text) : Translator × Traced Text :=
  let run := t.direction.translate sql
  ({ t with applied := [] }.note run.changes, run)

/-- Translates statements in turn and lists each outcome with the changes that
the translator then reports. -/
def steps (t : Translator) : List Text → List (Traced Text × List Change)
  | [] => []
  | sql :: more =>
    let (t, run) := t.step sql
    (run, t.applied) :: steps t more

end Translator
end TableDialects
