import Klingon.Conllu
import Klingon.Text.Line
import Klingon.Tool.Dictionary

/-!
# The CoNLL-U tool

Prints the lines of a file or of its input in the CoNLL-U format. Every line is a text of its own
and ends with an empty line.
-/

namespace Klingon.ConlluTool

def help : Text := endLines
  [ "yajwiz-conllu: Render Klingon text as CoNLL-U.",
    "",
    "Usage: yajwiz-conllu [-d DICT_PATH] [FILE]",
    "",
    "Reads FILE, or stdin when FILE is missing or '-'.",
    "",
    "Options:",
    "  -d, --dict-path PATH   qawHaq.json or the directory containing it",
    "  -h, --help              Print this help" ]

/-- The rows of a line and the empty line after it, unless it ends with one. -/
def renderLine (analyzer : Analyzer) (line : Text) : Text :=
  let rows := Conllu.render analyzer line
  if rows.getLast? = some '\n' then rows ++ "\n" else rows ++ "\n\n"

/-- What the tool prints for an input. -/
def render (analyzer : Analyzer) (input : Text) : Text :=
  ((input.lines.map Text.trimmed).filter fun line => !line.isEmpty).flatMap (renderLine analyzer)

variable {m : Type → Type} [Monad m]

def run (s : Surroundings m) (args : List Text) : ExceptT Text m Outcome := do
  let (chosen, args) ← Dictionary.takeChoice args
  if Arguments.asksForHelp args then return { output := help }
  let input ←
    match (Arguments.operands args).head? with
    | none => s.demandInput
    | some path => if path = "-" then s.demandInput else s.demand path
  let session ← Dictionary.openSession s chosen
  return { output := render session.analyzer input }

end Klingon.ConlluTool
