import Klingon.Tool.Analyze
import Klingon.Tool.Check
import Klingon.Tool.Conllu
import Klingon.Tool.Syllables
import Klingon.Tool.Tokenize

/-!
# The tools

Five command-line tools, each by its name.
-/

namespace Klingon

inductive Tool where
  | analyze
  | conllu
  | gc
  | syllables
  | tokenize
  deriving DecidableEq, Repr

namespace Tool

def all : List Tool := [analyze, conllu, gc, syllables, tokenize]

def name : Tool → Text
  | analyze => "analyze"
  | conllu => "conllu"
  | gc => "gc"
  | syllables => "syllables"
  | tokenize => "tokenize"

def ofName? (name : Text) : Option Tool :=
  all.find? (·.name = name)

/-- Runs a tool with the given arguments. -/
def run {m : Type → Type} [Monad m] (tool : Tool) (s : Surroundings m) (args : List Text) :
    m Outcome := do
  let result ←
    match tool with
    | analyze => AnalyzeTool.run s args
    | conllu => ConlluTool.run s args
    | gc => CheckTool.run s args
    | syllables => SyllablesTool.run s args
    | tokenize => TokenizeTool.run s args
  return Outcome.ofResult result

end Tool

end Klingon
