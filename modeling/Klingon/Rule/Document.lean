import Klingon.Json.Document
import Klingon.Rule

/-!
# Rule documents

A rule document is a JSON list of records. The replacement may be null, and it and the examples may
be left out.
-/

namespace Klingon.RuleDefinition

def fieldNames : List Text :=
  ["name", "pattern", "message", "replacement", "positive_examples", "negative_examples"]

def ofJson? (value : Json) : Option RuleDefinition := do
  match ← value.record? fieldNames with
  | [some name, some pattern, some message, replacement, positive, negative] =>
    return {
      name := ← name.text?
      pattern := ← pattern.text?
      message := ← message.text?
      replacement := ← Json.optionalText? replacement
      positiveExamples := ← Json.defaultTexts? positive
      negativeExamples := ← Json.defaultTexts? negative }
  | _ => none

def listOfJson? : Json → Option (List RuleDefinition)
  | .array items => items.mapM ofJson?
  | _ => none

/-- The definitions in a document given as text. -/
def ofDocument? (document : Text) : Option (List RuleDefinition) :=
  (Json.ofText? document).bind listOfJson?

/-- The definitions in a document given by its bytes. -/
def ofDocumentBytes? (bytes : List UInt8) : Option (List RuleDefinition) :=
  (Json.ofBytes? bytes).bind listOfJson?

end Klingon.RuleDefinition
