import Klingon.Text.Quoted

/-!
# Tags

The closed sets of grammatical tags: the broad class of a word, its fine part of speech, and the
positions a suffix may fill. Each tag has a fixed symbol.
-/

namespace Klingon

/-- The broad class of a word. -/
inductive WordClass where
  | noun
  | verb
  | other
  deriving DecidableEq, Repr

namespace WordClass

def symbol : WordClass → Text
  | noun => "N"
  | verb => "V"
  | other => "OTHER"

/-- The class as the last part of an affix name, as in -pu':v. -/
def key : WordClass → Text
  | noun => "n"
  | verb => "v"
  | other => "other"

end WordClass

/-- The fine part of speech of a headword. -/
inductive FineTag where
  | stativeVerb
  | transitiveVerb
  | intransitiveVerb
  | ambitransitiveVerb
  | verb
  | beingNoun
  | bodyPartNoun
  | pronoun
  | numeral
  | noun
  | adverbial
  | exclamation
  | conjunction
  | questionWord
  | unknown
  deriving DecidableEq, Repr

namespace FineTag

def all : List FineTag :=
  [ stativeVerb, transitiveVerb, intransitiveVerb, ambitransitiveVerb, verb, beingNoun,
    bodyPartNoun, pronoun, numeral, noun, adverbial, exclamation, conjunction, questionWord,
    unknown ]

def symbol : FineTag → Text
  | stativeVerb => "VS"
  | transitiveVerb => "VT"
  | intransitiveVerb => "VI"
  | ambitransitiveVerb => "VA"
  | verb => "V?"
  | beingNoun => "NL"
  | bodyPartNoun => "NB"
  | pronoun => "PRON"
  | numeral => "NUM"
  | noun => "N"
  | adverbial => "ADV"
  | exclamation => "EXCL"
  | conjunction => "CONJ"
  | questionWord => "QUES"
  | unknown => "UNK"

/-- The universal part of speech. Stative verbs count as adjectives. -/
def upos : FineTag → Text
  | stativeVerb => "ADJ"
  | transitiveVerb | intransitiveVerb | ambitransitiveVerb | verb => "VERB"
  | beingNoun | bodyPartNoun | noun => "NOUN"
  | pronoun => "PRON"
  | numeral => "NUM"
  | adverbial | questionWord => "ADV"
  | exclamation => "INTJ"
  | conjunction => "CCONJ"
  | unknown => "X"

end FineTag

/-- The positions of a suffix, from left to right: the verb positions with the wandering suffixes
first, then the noun positions, then the two positions of number words. -/
inductive SuffixSlot where
  | vr | v1 | v2 | v3 | v4 | v5 | v6 | v7 | v8 | vq | v9
  | n1 | n2 | n3 | n4 | n5
  | l1 | l2
  deriving DecidableEq, Repr

namespace SuffixSlot

def all : List SuffixSlot :=
  [vr, v1, v2, v3, v4, v5, v6, v7, v8, vq, v9, n1, n2, n3, n4, n5, l1, l2]

def symbol : SuffixSlot → Text
  | vr => "VR" | v1 => "V1" | v2 => "V2" | v3 => "V3" | v4 => "V4" | v5 => "V5" | v6 => "V6"
  | v7 => "V7" | v8 => "V8" | vq => "VQ" | v9 => "V9"
  | n1 => "N1" | n2 => "N2" | n3 => "N3" | n4 => "N4" | n5 => "N5"
  | l1 => "L1" | l2 => "L2"

/-- The place of the position from the left. -/
def rank (slot : SuffixSlot) : Nat :=
  all.idxOf slot

instance : Ord SuffixSlot := ⟨fun a b => compare a.rank b.rank⟩

/-- The last position of verbs, nouns and number words: its suffix shapes the whole phrase. -/
def isGrammatical : SuffixSlot → Bool
  | v9 | n5 | l2 => true
  | _ => false

end SuffixSlot

/-- A symbol that names no tag of its set. -/
structure UnknownTag where
  set : Text
  symbol : Text
  deriving DecidableEq, Repr

def UnknownTag.message (e : UnknownTag) : Text :=
  "unknown " ++ e.set ++ " tag: " ++ Text.quoted e.symbol

def FineTag.ofSymbol (symbol : Text) : Except UnknownTag FineTag :=
  match all.find? (·.symbol = symbol) with
  | some tag => .ok tag
  | none => .error ⟨"fine", symbol⟩

def SuffixSlot.ofSymbol (symbol : Text) : Except UnknownTag SuffixSlot :=
  match all.find? (·.symbol = symbol) with
  | some slot => .ok slot
  | none => .error ⟨"suffix slot", symbol⟩

end Klingon
