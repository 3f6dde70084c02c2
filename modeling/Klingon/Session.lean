import Klingon.Lexicon.Source
import Klingon.Proofreading
import Klingon.Rule.Document

/-!
# Sessions

A session holds an analyzer for the current lexicon, the rules and the options of proofreading.
Commands change it; a command that fails leaves it as it is. An analyzer is a value, so one that
was taken from a session keeps its answers.
-/

namespace Klingon

structure Session where
  analyzer : Analyzer
  rules : List Rule := Rule.builtin
  options : ProofreadingOptions := {}

inductive SessionError where
  | notAnExport
  | notRules
  | pattern (error : PatternError)
  deriving DecidableEq, Repr

/-- What changes a session. -/
inductive SessionCommand where
  | update (source : LexiconSource)
  | setRules (definitions : List RuleDefinition)
  | loadRules (document : Text)
  | addRule (definition : RuleDefinition)
  | reportUnknown (value : Bool)
  | addKnown (words : List Text)

namespace Session

/-- A session on a lexicon, with the built-in rules. -/
def ofLexicon (lexicon : Lexicon) : Session :=
  { analyzer := .ofLexicon lexicon }

def setRules (session : Session) (definitions : List RuleDefinition) : Session :=
  { session with rules := Rule.ofDefinitions definitions }

def run (session : Session) : SessionCommand → Except SessionError Session
  | .update source =>
    match source.load? with
    | none => .error .notAnExport
    | some lexicon => .ok { session with analyzer := .ofLexicon lexicon }
  | .setRules definitions => .ok (session.setRules definitions)
  | .loadRules document =>
    match RuleDefinition.ofDocument? document with
    | none => .error .notRules
    | some definitions => .ok (session.setRules definitions)
  | .addRule definition =>
    match Rule.ofDefinition definition with
    | .error fault => .error (.pattern fault)
    | .ok rule => .ok { session with rules := session.rules ++ [rule] }
  | .reportUnknown value =>
    .ok { session with options := { session.options with reportUnknown := value } }
  | .addKnown words => .ok { session with options := session.options.addKnown words }

/-- The session after a command; a failing command changes nothing. -/
def after (session : Session) (command : SessionCommand) : Session :=
  match session.run command with
  | .ok next => next
  | .error _ => session

/-- What proofreading finds in a text. -/
def check (session : Session) (text : Text) : List Diagnostic :=
  diagnose session.options session.rules (session.analyzer.tokens text)

/-- The examples on which the rules are wrong. -/
def verify (session : Session) : List ExampleFailure :=
  session.rules.flatMap (Rule.failures session.analyzer)

end Session

end Klingon
