import Klingon.Analysis
import Klingon.PartOfSpeech

/-!
# Features of an analysis

The role of a word follows from its class and from a nominalizing suffix. A verb phrase agrees
with its subject and object, a noun phrase may be marked for number. The bits name everything a
rule may ask about the word.
-/

namespace Klingon

/-- The bit of the tokens that are literally `word`. -/
def literalBit (word : Text) : Text :=
  "«" ++ word ++ "»"

namespace Analysis

/-- The part of the suffix of the indefinite subject. -/
def indefiniteSubject : Text := "-lu':v"

/-- A verb with a nominalizing suffix is a noun phrase. -/
def role (analysis : Analysis) : Role :=
  match analysis.broad with
  | .noun => .nounPhrase
  | .verb =>
    match analysis.suffix? .v9 with
    | some text => if text ∈ ["-wI'".toList, "-ghach"] then .nounPhrase else .verbPhrase
    | none => .verbPhrase
  | .other => .other

def voice (analysis : Analysis) : Voice :=
  if analysis.hasPart indefiniteSubject then .indefinite else .subject

/-- The features of a verb phrase. A verb without prefix has a third person subject, and an
object only if its class allows one. A prefix that does not exist in the voice expresses no
person. -/
def verbFeatures (analysis : Analysis) : Features :=
  if analysis.verbPrefix.isSome || analysis.voice = .indefinite then
    match Agreement.find? (analysis.verbPrefix.getD "-") analysis.voice with
    | some row =>
      { role := .verbPhrase
        subjectPersons := Ordered.ofList row.subject
        subjectNumber := row.subjectNumber
        objectPersons := Ordered.ofList row.object
        objectNumber := row.objectNumber }
    | none => { role := .verbPhrase }
  else if analysis.fine = .stativeVerb || analysis.fine = .intransitiveVerb then
    { role := .verbPhrase, subjectPersons := [.third], objectPersons := [.zero] }
  else
    { role := .verbPhrase, subjectPersons := [.third], objectPersons := [.zero, .third] }

def pluralSuffixes : List Text := ["-pu'", "-Du'", "-mey"]

/-- Whether a noun phrase is plural: by its suffix, or not because the noun is plural by itself
and takes singular agreement. -/
def plurality (analysis : Analysis) : Option Bool :=
  if (analysis.suffix? .n2).any (· ∈ pluralSuffixes) then some true
  else if PartOfSpeech.names analysis.sourceTag "inhps" ||
      PartOfSpeech.names analysis.sourceTag "inhpl" then some false
  else none

/-- The features other than the bits. -/
def phrase (analysis : Analysis) : Features :=
  match analysis.role with
  | .verbPhrase => analysis.verbFeatures
  | .nounPhrase => { role := .nounPhrase, plural := analysis.plurality }
  | .other => { role := .other }

/-- A bit for each person, and one with the number where the number is known. -/
def personBits (name : Text) (number : Option GrammaticalNumber) (persons : List Person) :
    List Text :=
  persons.flatMap fun person =>
    let bit := name ++ Text.decimal person.digit
    bit :: (number.map fun n => bit ++ n.symbol).toList

/-- The bits that the role adds. -/
def phraseBits (features : Features) : List Text :=
  match features.role with
  | .verbPhrase =>
    personBits "Subj" features.subjectNumber features.subjectPersons ++
    personBits "Obj" features.objectNumber features.objectPersons
  | .nounPhrase =>
    match features.plural with
    | some true => ["Plur"]
    | some false => ["Sing"]
    | none => []
  | .other => []

/-- A part counts with and without its class. -/
def partBits (part : Text) : List Text :=
  part :: ((part.cut? ':').map (·.1)).toList

/-- Every bit the analysis holds, in increasing order. -/
def bits (analysis : Analysis) : List Text :=
  Ordered.ofList <|
    [analysis.fine.symbol, analysis.broad.symbol, analysis.role.symbol,
      literalBit analysis.word] ++
    phraseBits analysis.phrase ++
    analysis.parts.flatMap partBits ++
    analysis.suffixes.flatMap (fun s => [s.1.symbol, s.2]) ++
    analysis.verbPrefix.toList

/-- The features that follow from the rest of the analysis. -/
def derivedFeatures (analysis : Analysis) : Features :=
  { analysis.phrase with bits := analysis.bits }

end Analysis

end Klingon
