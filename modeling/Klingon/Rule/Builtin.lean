import Klingon.Rule

/-!
# Built-in rules

The rules of the pronouns 'e' and net, which stand for the sentence before them.
-/

namespace Klingon.Rule

/-- A token condition as it is written. -/
def condition (list : Text) : Text :=
  "\x7b" ++ list ++ "\x7d"

/-- A choice between token conditions. -/
def anyCondition (lists : List Text) : Text :=
  "(" ++ List.intercalate "|" (lists.map condition) ++ ")"

def aspectAfterPronoun : RuleDefinition where
  name := "aspect in complex sentence 1"
  pattern :=
    anyCondition ["«'e'»", "«net»"] ++ " " ++ anyCondition ["«neH»", "«neHHa'»"] ++ "? " ++
      condition "V7"
  message := "ASPECT SUFFIX IN COMPLEX SENTENCE"
  positiveExamples :=
    ["DaH 'e' vIleghpu'", "DaH net leghtaH", "DaH 'e' neH vIleghpu'", "DaH net neHHa' leghtaH"]
  negativeExamples :=
    ["DaH 'e' vIlegh", "DaH net legh", "DaH 'e' neH vIlegh", "DaH net neHHa' legh"]

def subjectAfterNet : RuleDefinition where
  name := "net with illegal subject"
  pattern := condition "«net»" ++ " " ++ anyCondition ["Subj1", "Subj2", "-lu'"]
  message := "net WITH ILLEGAL SUBJECT"
  positiveExamples := ["jISuv net vISov", "jISuv net boSov", "jISuv net Sovlu'"]
  negativeExamples :=
    [ "jISuv net Sov",
      "gheDlIj DaHoHHa'pu' moratlh\n'ej gheDDaj charghHa' molor\nQob qo' qeylIs yIqIm" ]

def pronounWithSpeech : RuleDefinition where
  name := "illegal 'e' or net"
  pattern :=
    "error" ++ anyCondition ["«'e'»", "«net»"] ++ " verb" ++
      anyCondition ["reH:v", "Quj", "jatlh:v", "ja':v"]
  message := "$error WITH $verb\\lemma"
  replacement := some ""
  positiveExamples := ["tugh jISuv 'e' qaja'."]
  negativeExamples := ["tugh jISuv. qaja'."]

def pronounWithWant : RuleDefinition where
  name := "'e' with neH 1"
  pattern := "error" ++ condition "«'e'»" ++ " " ++ condition "neH:v"
  message := "'e' WITH neH"
  replacement := some ""
  positiveExamples := ["tugh jISuv 'e' vIneH."]
  negativeExamples := ["tugh jISuv vIneH."]

def pronounWithBareWant : RuleDefinition where
  name := "'e' with neH 2"
  pattern :=
    "error" ++ condition "«'e'»" ++ " " ++ condition "«neH»" ++ " " ++ condition "!Obj3"
  message := "'e' WITH neH"
  replacement := some ""
  positiveExamples := ["tugh jISuv 'e' neH qorDu'wIj."]
  negativeExamples := ["tugh jISuv neH qorDu'wIj.", "tugh jISuv 'e' neH DaSov."]

/-- The definitions of the built-in rules, in the order in which they are tried. -/
def builtinDefinitions : List RuleDefinition :=
  [aspectAfterPronoun, subjectAfterNet, pronounWithSpeech, pronounWithWant, pronounWithBareWant]

def builtin : List Rule :=
  ofDefinitions builtinDefinitions

end Klingon.Rule
