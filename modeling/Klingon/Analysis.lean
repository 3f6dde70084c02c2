import Klingon.Agreement
import Klingon.Ordered
import Klingon.Tag

/-!
# Analyses

An analysis takes one word apart: its headword with the dictionary entry, its prefix, and its
suffixes by position. The features say what role the word plays in a sentence and list the bits
that rule patterns test.
-/

namespace Klingon

/-- What a word does in its sentence. -/
inductive Role where
  | nounPhrase
  | verbPhrase
  | other
  deriving DecidableEq, Repr

def Role.symbol : Role → Text
  | nounPhrase => "NP"
  | verbPhrase => "VP"
  | other => "OTHER"

/-- Syntactic features. Persons and bits are sets in increasing order. -/
structure Features where
  role : Role
  subjectPersons : List Person := []
  subjectNumber : Option GrammaticalNumber := none
  objectPersons : List Person := []
  objectNumber : Option GrammaticalNumber := none
  plural : Option Bool := none
  bits : List Text := []
  deriving DecidableEq, Repr

/-- One reading of a word. The suffixes are bound to their positions, from left to right; each is
written with its dash. -/
structure Analysis where
  word : Text
  broad : WordClass
  headword : Text := []
  fine : FineTag := .unknown
  combined : Text := []
  sourceTag : Text := "?"
  entryId : Text := "?"
  parts : List Text := []
  verbPrefix : Option Text := none
  suffixes : List (SuffixSlot × Text) := []
  ungrammatical : Option Text := none
  features : Option Features := none
  deriving DecidableEq, Repr

namespace Analysis

def suffix? (analysis : Analysis) (slot : SuffixSlot) : Option Text :=
  analysis.suffixes.lookup slot

def hasPart (analysis : Analysis) (part : Text) : Bool :=
  part ∈ analysis.parts

def isUngrammatical (analysis : Analysis) : Bool :=
  analysis.ungrammatical.isSome

/-- Whether the analysis holds a bit; without features it holds none. -/
def holds (analysis : Analysis) (bit : Text) : Bool :=
  analysis.features.any fun features => bit ∈ features.bits

end Analysis

end Klingon
