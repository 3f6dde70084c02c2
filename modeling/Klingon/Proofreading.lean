import Klingon.Rule.Builtin

/-!
# Proofreading

A text is checked word by word and then by every rule. A word without an analysis is unknown; a
word all of whose analyses are ungrammatical is reported with the reason of the first. The options
keep unknown words from being reported, all of them or the listed ones.
-/

namespace Klingon

structure ProofreadingOptions where
  reportUnknown : Bool := true
  /-- The words that are not reported, in increasing order. -/
  knownWords : List Text := []
  deriving DecidableEq, Repr

namespace ProofreadingOptions

def reports (options : ProofreadingOptions) (word : Text) : Bool :=
  options.reportUnknown && word ∉ options.knownWords

def addKnown (options : ProofreadingOptions) (words : List Text) : ProofreadingOptions :=
  { options with knownWords := words.foldr Ordered.insert options.knownWords }

end ProofreadingOptions

namespace Token

/-- What a word by itself gives rise to. -/
def fault? (options : ProofreadingOptions) (token : Token) : Option Diagnostic :=
  if !token.isWord then none
  else
    match token.analyses with
    | [] =>
      if options.reports token.text then
        some (.unknownWord token.text token.offset token.stop)
      else none
    | first :: others =>
      if (first :: others).all Analysis.isUngrammatical then
        some (.ungrammaticalWord (first.ungrammatical.getD []) token.offset token.stop)
      else none

end Token

/-- The faults of single words. -/
def wordFaults (options : ProofreadingOptions) (tokens : List Token) : List Diagnostic :=
  tokens.filterMap (Token.fault? options)

/-- The faults of single words, then what the rules find, one fault at most each. -/
def diagnose (options : ProofreadingOptions) (rules : List Rule) (tokens : List Token) :
    List Diagnostic :=
  wordFaults options tokens ++ rules.filterMap (Rule.check · tokens)

/-- An example in which a rule found a fault that should not be there, or none that should. -/
structure ExampleFailure where
  rule : Text
  text : Text
  positive : Bool
  found : Option Diagnostic
  deriving DecidableEq, Repr

namespace Rule

/-- The examples of a rule in order, each with whether it should have a fault. -/
def examples (rule : Rule) : List (Text × Bool) :=
  rule.definition.positiveExamples.map (·, true) ++
    rule.definition.negativeExamples.map (·, false)

/-- The examples on which the rule is wrong. -/
def failures (analyzer : Analyzer) (rule : Rule) : List ExampleFailure :=
  rule.examples.filterMap fun (text, positive) =>
    let found := rule.check (analyzer.tokens text)
    if found.isSome = positive then none
    else some { rule := rule.name, text, positive, found }

end Rule

end Klingon
