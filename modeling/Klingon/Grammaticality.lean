import Klingon.Analysis
import Klingon.PartOfSpeech

/-!
# Ungrammatical words

Some words are built from a headword and affixes that exist but do not go together. The checks
run in a fixed order and the first that fails gives the reason. The combined tag of a word names
its fine tag and its grammatical suffixes.
-/

namespace Klingon

/-- The gender of a noun decides its plural and possessive suffixes. -/
inductive Gender where
  | being
  | bodyPart
  | other
  deriving DecidableEq, Repr

/-- Why a word is ungrammatical. -/
inductive Violation where
  | genderSuffix
  | missingSuffix (suffix required : Text)
  | indefinitePrefix
  | stativePrefix
  | bareNominalization
  | wishWithAspect
  deriving DecidableEq, Repr

def Violation.message : Violation → Text
  | genderSuffix => "ILLEGAL PLURAL OR POSSESSIVE SUFFIX"
  | missingSuffix suffix required => suffix ++ " WITHOUT " ++ required
  | indefinitePrefix => "ILLEGAL PREFIX WITH -lu'"
  | stativePrefix => "ILLEGAL SUFFIX WITH INTRANSITIVE VERB"
  | bareNominalization => "-ghach WITHOUT OTHER SUFFIX"
  | wishWithAspect => "-jaj WITH ASPECT"

namespace Analysis

/-- The parts that only nouns of one gender may have. -/
def genderedParts : List (Gender × List Text) :=
  [ (.being, ["-wI':n", "-lI':n", "-ma':n", "-ra':n", "-pu':n"]),
    (.bodyPart, ["-Du':n"]) ]

/-- Nouns that take the suffixes of any gender. -/
def genderless : List Text := ["qor", "chuD"]

/-- Nouns that count as beings whatever their tags. -/
def beings : List Text := ["qorDu'", "latlh"]

def gender (analysis : Analysis) : Gender :=
  if analysis.headword ∈ beings then .being
  else if PartOfSpeech.names analysis.sourceTag "body" then .bodyPart
  else if PartOfSpeech.names analysis.sourceTag "being" ||
      PartOfSpeech.names analysis.sourceTag "name" then .being
  else .other

def genderViolation (analysis : Analysis) : Option Violation :=
  if analysis.broad = .noun && analysis.headword ∉ genderless &&
      (genderedParts.any fun g => g.1 ≠ analysis.gender && g.2.any analysis.hasPart) then
    some .genderSuffix
  else none

/-- Suffixes that need another suffix in the same word. -/
def requirements : List (Text × Text) := [("-vIS", "-taH")]

def requirementViolation (analysis : Analysis) : Option Violation :=
  requirements.findSome? fun (suffix, required) =>
    if analysis.hasPart (suffix ++ ":v") && !analysis.hasPart (required ++ ":v") then
      some (.missingSuffix suffix required)
    else none

/-- Whether the word has no prefix or one of the given ones. -/
def allowsPrefix (analysis : Analysis) (allowed : List Text) : Bool :=
  analysis.verbPrefix.all (· ∈ allowed)

/-- The prefixes of a verb with indefinite subject. -/
def indefinitePrefixes : List Text := ["vI-", "Da-", "wI-", "bo-", "lu-"]

def indefiniteViolation (analysis : Analysis) : Option Violation :=
  if analysis.hasPart "-lu':v" && !analysis.allowsPrefix indefinitePrefixes then
    some .indefinitePrefix
  else none

/-- The prefixes that express no object. -/
def objectlessPrefixes : List Text := ["yI-", "pe-", "jI-", "bI-", "ma-", "Su-"]

def stativeViolation (analysis : Analysis) : Option Violation :=
  if analysis.fine = .stativeVerb && !analysis.allowsPrefix objectlessPrefixes &&
      !analysis.hasPart "-moH:v" then
    some .stativePrefix
  else none

/-- Headwords that form a noun with the nominalizer alone. -/
def nominalizable : List Text := ["lo'laH", "lo'laHbe'"]

/-- The place of the headword among the parts: of its entry, or else of its spelling. -/
def headwordIndex? (analysis : Analysis) : Option Nat :=
  (analysis.parts.findIdx? (· = analysis.entryId)).or
    (analysis.parts.findIdx? (· = analysis.headword))

def nominalizationViolation (analysis : Analysis) : Option Violation :=
  if analysis.headword ∈ nominalizable then none
  else do
    let nominalizer ← analysis.parts.findIdx? (· = "-ghach:v".toList)
    let headword ← analysis.headwordIndex?
    if nominalizer < headword + 2 then some .bareNominalization else none

def wishViolation (analysis : Analysis) : Option Violation :=
  if analysis.hasPart "-jaj:v" && (analysis.suffix? .v7).isSome then some .wishWithAspect
  else none

/-- The first violation in the order of the checks. -/
def violation? (analysis : Analysis) : Option Violation :=
  analysis.genderViolation
    |>.or analysis.requirementViolation
    |>.or analysis.indefiniteViolation
    |>.or analysis.stativeViolation
    |>.or analysis.nominalizationViolation
    |>.or analysis.wishViolation

/-- The fine tag, followed by each grammatical suffix without its leading dashes. -/
def combinedTag (analysis : Analysis) : Text :=
  [SuffixSlot.v9, .n5, .l2].foldl
    (fun tag slot =>
      match analysis.suffix? slot with
      | some text => tag ++ "." ++ text.dropWhile (· = '-')
      | none => tag)
    analysis.fine.symbol

end Analysis

end Klingon
