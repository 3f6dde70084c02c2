import Klingon.Analysis.Record
import Klingon.Text.Line
import Klingon.Tool.Dictionary

/-!
# The analysis tool

Prints the analyses of words, which are its operands or else the lines of its input: indented text,
or one JSON object for each word.
-/

namespace Klingon.AnalyzeTool

def help : Text := endLines
  [ "yajwiz-analyze: Morphological analysis of Klingon words.",
    "",
    "Usage: yajwiz-analyze [-d DICT_PATH] [--json] [WORD...]",
    "",
    "If WORD arguments are given, analyzes each word.",
    "Otherwise reads words from stdin (one per line).",
    "",
    "Options:",
    "  -d, --dict-path PATH   qawHaq.json or the directory containing it",
    "  --json                  Print one JSON object per word",
    "  -h, --help              Print this help" ]

/-- The lines that show an analysis with its number. -/
def analysisLines (number : Nat) (analysis : Analysis) : List Text :=
  [ "  Analysis " ++ Text.decimal number ++ ":",
    "    LEMMA=" ++ analysis.headword,
    "    ID=" ++ analysis.entryId,
    "    POS=" ++ analysis.combined,
    "    PARTS=" ++ List.intercalate " " analysis.parts ] ++
  (analysis.ungrammatical.map ("    UNGRAMMATICAL=".toList ++ ·)).toList ++
  (analysis.features.map fun features =>
    "    BITS=".toList ++ List.intercalate "," features.bits).toList

/-- The lines that show a word and its analyses. -/
def wordLines (word : Text) (analyses : List Analysis) : List Text :=
  if analyses = [] then [word ++ ": (no analysis)"]
  else
    (word ++ ":") ::
      (analyses.zipIdx 1).flatMap fun (analysis, number) => analysisLines number analysis

/-- The JSON object that shows a word and its analyses. -/
def wordRecord (word : Text) (analyses : List Analysis) : Text :=
  Json.Writer.object
    [ ("analyses", Json.Writer.array (analyses.map Analysis.record)),
      ("word", Json.Writer.string word) ]

/-- The words in the lines of an input. -/
def wordsOfLines (input : Text) : List Text :=
  (input.lines.map Text.trimmed).filter fun word => !word.isEmpty

/-- What the tool prints for words. -/
def render (analyzer : Analyzer) (json : Bool) (words : List Text) : Text :=
  endLines <| words.flatMap fun word =>
    let analyses := analyzer.analyze word
    if json then [wordRecord word analyses] else wordLines word analyses

variable {m : Type → Type} [Monad m]

def run (s : Surroundings m) (args : List Text) : ExceptT Text m Outcome := do
  let (chosen, args) ← Dictionary.takeChoice args
  if Arguments.asksForHelp args then return { output := help }
  let session ← Dictionary.openSession s chosen
  let json := Arguments.isGiven "--json" "--json" args
  match Arguments.operands args with
  | [] =>
    match ← s.input with
    | .ok input => return { output := render session.analyzer json (wordsOfLines input) }
    | .error fault => return { errors := endLines ["error reading stdin: " ++ fault.message] }
  | words => return { output := render session.analyzer json words }

end Klingon.AnalyzeTool
