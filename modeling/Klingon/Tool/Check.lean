import Klingon.Text.Line
import Klingon.Tool.Dictionary
import Klingon.Tool.Report

/-!
# The grammar checker

Checks the lines of a file or of its input, each as a text of its own, and reports the faults. It
can also check the rules against their own examples.
-/

namespace Klingon.CheckTool

def help : Text := endLines
  [ "yajwiz-gc: Klingon grammar checker.",
    "",
    "Usage: yajwiz-gc [-d DICT_PATH] [OPTIONS] [FILE]",
    "",
    "Checks each line of FILE (or stdin) and prints the errors found.",
    "",
    "Options:",
    "  -d, --dict-path PATH   qawHaq.json or the directory containing it",
    "  --rules FILE            Replace the built-in rules with a JSON rule file",
    "  -I, --ignore-unknown    Do not report unknown words",
    "  -w, --words WORDS       Comma-separated words never reported as unknown",
    "  -W, --words-file FILE   File with one such word per line",
    "  --verify                Check every rule against its own examples",
    "  -h, --help              Print this help" ]

/-- The nonempty words among some pieces of text. -/
def wordsOf (pieces : List Text) : List Text :=
  (pieces.map Text.trimmed).filter fun word => !word.isEmpty

/-- The faults of the lines, each with the number and the text of its line. -/
def faults (session : Session) (input : Text) : List (Nat × Text × Diagnostic) :=
  (input.lines.zipIdx 1).flatMap fun (line, number) =>
    let text := line.trimmed
    if text.isEmpty then [] else (session.check text).map fun found => (number, text, found)

/-- What the tool prints for an input. -/
def render (session : Session) (input : Text) : Text :=
  let found := faults session input
  found.flatMap (fun (number, line, diagnostic) => Report.fault number line diagnostic) ++
    endLines ["Found " ++ Text.decimal found.length ++ " errors"]

def failureLine (failure : ExampleFailure) : Text :=
  failure.rule ++ ": expected " ++ (if failure.positive then "an error" else "no error") ++
    " in \"" ++ failure.text ++ "\""

/-- The outcome of checking the rules against their examples. -/
def verify (session : Session) : Outcome :=
  let failures := session.verify
  { code := if failures = [] then 0 else 1
    output := endLines <| failures.map failureLine ++
      ["Verified " ++ Text.decimal session.rules.length ++ " rules, " ++
        Text.decimal failures.length ++ " failing examples"] }

variable {m : Type → Type} [Monad m]

/-- The rules in a file. -/
def readRules (s : Surroundings m) (path : Text) : ExceptT Text m (List RuleDefinition) := do
  match ← s.read path with
  | .ok content =>
    match RuleDefinition.ofDocument? content with
    | some definitions => return definitions
    | none => throw (path ++ ": not a list of rules")
  | .error .isADirectory => throw (path ++ ": " ++ ReadFault.isADirectory.message)
  | .error fault => throw ("failed to read " ++ path ++ ": " ++ fault.message)

/-- The words in a file; a directory has none. -/
def readWords (s : Surroundings m) (path : Text) : ExceptT Text m (List Text) := do
  match ← s.read path with
  | .ok content => return wordsOf content.lines
  | .error .isADirectory => return []
  | .error fault => throw ("failed to read " ++ path ++ ": " ++ fault.message)

/-- Changes the session as the options say and gives the arguments that are left. -/
def applyOptions (s : Surroundings m) (session : Session) (args : List Text) :
    ExceptT Text m (Session × List Text) := do
  let (rules, args) ← Surroundings.extractOption "--rules" "--rules" args
  let (words, args) ← Surroundings.extractOption "-w" "--words" args
  let (wordsFile, args) ← Surroundings.extractOption "-W" "--words-file" args
  let mut session := session
  if let some path := rules then
    session := session.setRules (← readRules s path)
  if Arguments.isGiven "-I" "--ignore-unknown" args then
    session := session.after (.reportUnknown false)
  if let some list := words then
    session := session.after (.addKnown (wordsOf (list.splitOn ',')))
  if let some path := wordsFile then
    session := session.after (.addKnown (← readWords s path))
  return (session, args)

/-- What is printed when the input breaks off: the faults found so far, and why it broke off. -/
def broken (session : Session) (fault : ReadFault) : Outcome :=
  { output := render session [], errors := endLines ["error reading input: " ++ fault.message] }

/-- The outcome of checking the input of the tool. -/
def checkInput (s : Surroundings m) (session : Session) : ExceptT Text m Outcome := do
  match ← s.input with
  | .ok input => return { output := render session input }
  | .error fault => return broken session fault

/-- The outcome of checking a file. -/
def checkFile (s : Surroundings m) (session : Session) (path : Text) :
    ExceptT Text m Outcome := do
  match ← s.read path with
  | .ok input => return { output := render session input }
  | .error .isADirectory => return broken session .isADirectory
  | .error fault => throw ("failed to read " ++ path ++ ": " ++ fault.message)

def run (s : Surroundings m) (args : List Text) : ExceptT Text m Outcome := do
  let (chosen, args) ← Dictionary.takeChoice args
  if Arguments.asksForHelp args then return { output := help }
  let session ← Dictionary.openSession s chosen
  let (session, args) ← applyOptions s session args
  if Arguments.isGiven "--verify" "--verify" args then return verify session
  match (Arguments.operands args).head? with
  | none => checkInput s session
  | some path => if path = "-" then checkInput s session else checkFile s session path

end Klingon.CheckTool
