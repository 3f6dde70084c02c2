import Klingon.Diagnostic
import Klingon.Encoding
import Klingon.Pattern
import Klingon.Rule.Wording

/-!
# Grammar rules

A rule looks for its pattern in the tokens of a text, blanks left out, and reports the leftmost
match. The fault stands where the group named error does, if that group took a token, and where
the whole match does otherwise.
-/

namespace Klingon

/-- A rule as it is written, with texts in which it should find a fault and texts in which it
should not. -/
structure RuleDefinition where
  name : Text
  pattern : Text
  message : Text
  replacement : Option Text := none
  positiveExamples : List Text := []
  negativeExamples : List Text := []
  deriving DecidableEq, Repr

/-- A rule whose pattern has been read. -/
structure Rule where
  definition : RuleDefinition
  pattern : Pattern

namespace Rule

def name (rule : Rule) : Text :=
  rule.definition.name

def ofDefinition (definition : RuleDefinition) : Except PatternError Rule := do
  let pattern ← Pattern.ofText definition.pattern
  return { definition, pattern }

/-- The rules of the definitions whose patterns can be read. -/
def ofDefinitions (definitions : List RuleDefinition) : List Rule :=
  definitions.filterMap fun definition => (ofDefinition definition).toOption

/-- The name of the group that marks the fault. -/
def faultGroup : Text := "error"

/-- The numbers of the tokens at fault. -/
def faultTokens (found : PatternMatch) : List Nat :=
  match found.group? faultGroup with
  | some (first :: more) => first :: more
  | _ => found.tokens

/-- What the rule says about a match in the tokens without blanks. A match of no token says
nothing. -/
def report (rule : Rule) (visible : List Token) (found : PatternMatch) : Option Diagnostic := do
  let first ← visible[← (faultTokens found).head?]?
  let last ← visible[← (faultTokens found).getLast?]?
  return {
    kind := .ruleViolation
    rule := rule.name
    message := fillIn visible found.groups rule.definition.message
    start := first.offset
    stop := last.stop
    replacement := rule.definition.replacement.map (fillIn visible found.groups) }

/-- The fault that the rule finds in a text. -/
def check (rule : Rule) (tokens : List Token) : Option Diagnostic := do
  let visible := tokens.filter fun token => !token.isSpace
  let found ← rule.pattern.find? (encode rule.pattern.vocabulary visible)
  rule.report visible found

end Rule

end Klingon
