import Klingon.Text

/-!
# Diagnostics

A diagnostic names a fault in a text: what kind it is, the rule that was broken, a message, where
the fault stands and, if the rule knows, what should stand there instead.
-/

namespace Klingon

inductive DiagnosticKind where
  | unknownWord
  | ungrammaticalWord
  | ruleViolation
  deriving DecidableEq, Repr

/-- A fault from the offset `start` up to the offset `stop`, counted in characters. -/
structure Diagnostic where
  kind : DiagnosticKind
  rule : Text
  message : Text
  start : Nat
  stop : Nat
  replacement : Option Text := none
  deriving DecidableEq, Repr

namespace Diagnostic

/-- A word that has no analysis. -/
def unknownWord (word : Text) (start stop : Nat) : Diagnostic where
  kind := .unknownWord
  rule := "unknown word"
  message := "UNKNOWN WORD " ++ word
  start
  stop

/-- A word all of whose analyses are ungrammatical, for the given reason. -/
def ungrammaticalWord (reason : Text) (start stop : Nat) : Diagnostic where
  kind := .ungrammaticalWord
  rule := "ungrammatical"
  message := reason
  start
  stop

def length (diagnostic : Diagnostic) : Nat :=
  diagnostic.stop - diagnostic.start

/-- The diagnostic on one line: the rule and its message. -/
def summary (diagnostic : Diagnostic) : Text :=
  diagnostic.rule ++ ": " ++ diagnostic.message

end Diagnostic

end Klingon
