import Klingon.Text.Quoted
import Klingon.Token
import Klingon.Tool.Surroundings

/-!
# The token tool

Prints the tokens of its input, each with its kind, its offset and its text in quotes, or only the
words.
-/

namespace Klingon.TokenizeTool

def help : Text := endLines
  [ "yajwiz-tokenize: Tokenize Klingon text.",
    "",
    "Usage: yajwiz-tokenize [OPTIONS]",
    "",
    "Reads text from stdin, prints tokens with types:",
    "  WORD   <offset>  <text>",
    "  SPACE  <offset>  <text>",
    "  PUNCT  <offset>  <text>",
    "",
    "Options:",
    "  --words                 Print only words, one per line",
    "  -h, --help              Print this help" ]

def tokenLine (token : Token) : Text :=
  token.kind.symbol.alignLeft 6 ++ " " ++ (Text.decimal token.offset).alignRight 5 ++ "  " ++
    token.text.quoted

/-- What the tool prints for an input. -/
def render (wordsOnly : Bool) (input : Text) : Text :=
  let tokens := Token.ofText input
  endLines <| if wordsOnly then (tokens.filter Token.isWord).map (·.text) else tokens.map tokenLine

variable {m : Type → Type} [Monad m]

def run (s : Surroundings m) (args : List Text) : ExceptT Text m Outcome := do
  if Arguments.asksForHelp args then return { output := help }
  let input ← s.demandInput
  return { output := render (Arguments.isGiven "--words" "--words" args) input }

end Klingon.TokenizeTool
