import Klingon.Syllable
import Klingon.Text.Line
import Klingon.Tool.Surroundings

/-!
# The syllable tool

Prints words with their syllables or letters. The words are the operands, or else the words of the
input.
-/

namespace Klingon.SyllablesTool

def help : Text := endLines
  [ "yajwiz-syllables: Split Klingon words into syllables.",
    "",
    "Usage: yajwiz-syllables [--letters] [WORD...]",
    "",
    "If WORD arguments are given, splits each word.",
    "Otherwise reads words from stdin (one per line).",
    "Parts are printed separated by '-'.",
    "",
    "Options:",
    "  --letters               Split into letters instead of syllables",
    "  -h, --help              Print this help" ]

/-- The parts of a word. -/
def parts (letters : Bool) (word : Text) : List Text :=
  if letters then (Letter.ofText word).map Letter.spelling else Syllable.ofText word

/-- What the tool prints for words. -/
def render (letters : Bool) (words : List Text) : Text :=
  endLines <| words.map fun word => word ++ "\t" ++ List.intercalate "-" (parts letters word)

variable {m : Type → Type} [Monad m]

def run (s : Surroundings m) (args : List Text) : ExceptT Text m Outcome := do
  if Arguments.asksForHelp args then return { output := help }
  let letters := Arguments.isGiven "--letters" "--letters" args
  match Arguments.operands args with
  | [] =>
    match ← s.input with
    | .ok input => return { output := render letters (input.lines.flatMap Text.blankSeparated) }
    | .error fault => return { errors := endLines ["error reading stdin: " ++ fault.message] }
  | words => return { output := render letters words }

end Klingon.SyllablesTool
