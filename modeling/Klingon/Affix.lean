import Klingon.Tag

/-!
# Affixes

The suffixes of nouns, verbs and numbers with the position each fills, the verb prefixes, and the
closed classes of words that take affixes without being listed as nouns or verbs.
-/

namespace Klingon

/-- A suffix: its spelling, the class of word it attaches to and the position it fills. -/
structure Suffix where
  spelling : Text
  wordClass : WordClass
  slot : SuffixSlot
  deriving DecidableEq, Repr

namespace Affix

/-- The suffixes of one position, in the order in which they are tried. -/
def row (wordClass : WordClass) (slot : SuffixSlot) (spellings : List Text) : List Suffix :=
  spellings.map fun spelling => ⟨spelling, wordClass, slot⟩

def suffixes : List Suffix :=
  row .noun .n1 ["'a'", "Hom", "oy", "'oy"] ++
  row .noun .n2 ["pu'", "Du'", "mey"] ++
  row .noun .n3 ["qoq", "Hey", "na'"] ++
  row .noun .n4 ["wI'", "ma'", "lI'", "ra'", "wIj", "maj", "lIj", "raj", "Daj", "chaj", "vam",
    "vetlh"] ++
  row .noun .n5 ["Daq", "vo'", "mo'", "vaD", "'e'"] ++
  row .verb .vr ["Ha'", "be'", "qu'"] ++
  row .verb .v1 ["'egh", "chuq"] ++
  row .verb .v2 ["nIS", "qang", "rup", "beH", "vIp"] ++
  row .verb .v3 ["choH", "qa'"] ++
  row .verb .v4 ["moH"] ++
  row .verb .v5 ["lu'", "laH"] ++
  row .verb .v6 ["chu'", "bej", "ba'", "law'"] ++
  row .verb .v7 ["pu'", "ta'", "taH", "lI'"] ++
  row .verb .v8 ["neS"] ++
  row .verb .vq ["Qo'"] ++
  row .verb .v9 ["DI'", "chugh", "pa'", "vIS", "mo'", "bogh", "meH", "'a'", "jaj", "ghach",
    "wI'"] ++
  row .noun .l1 ["maH", "vatlh", "SaD", "SanID", "netlh", "bIp", "'uy'", "Saghan", "maH'uy'",
    "vatlhbIp", "vatlh'uy'", "SaDbIp", "SanIDbIp"] ++
  row .noun .l2 ["DIch", "logh", "leS", "Hu'"]

/-- The spellings of a position, in the order in which they are tried. -/
def spellings (slot : SuffixSlot) (wordClass : WordClass) : List Text :=
  (suffixes.filter fun s => s.slot = slot && s.wordClass = wordClass).map (·.spelling)

/-- The position of a suffix written with its dash, after a word of the given class. -/
def slot? (dashed : Text) (wordClass : WordClass) : Option SuffixSlot := do
  let spelling ← Text.dropStart? "-" dashed
  let suffix ← suffixes.find? fun s => s.spelling = spelling && s.wordClass = wordClass
  return suffix.slot

/-- The verb suffixes that make a noun of the verb: noun suffixes may follow them. -/
def nominalizers : List Text := ["wI'", "ghach"]

def isNominalizer (dashed : Text) (wordClass : WordClass) : Bool :=
  wordClass = .verb && (Text.dropStart? "-" dashed).any (· ∈ nominalizers)

/-- The suffixes that end a clause: those of the last verb position that make no noun. -/
def clauseSuffixes : List Text :=
  (spellings .v9 .verb).filter (· ∉ nominalizers)

/-- Rovers stand after many suffixes and fill no position of their own there. -/
def rovers : List Text := ["be'", "qu'"]

def isRover (text : Text) : Bool :=
  text ∈ rovers

/-- The verb prefixes in the order in which they are tried. -/
def prefixes : List Text :=
  ["HI", "gho", "yI", "tI", "pe", "qa", "Sa", "vI", "jI", "pI", "re", "DI", "wI", "ma", "cho",
    "ju", "Da", "bI", "tu", "che", "bo", "Su", "mu", "nu", "Du", "lI", "nI", "lu"]

/-- The pronouns that take verb suffixes: they are used as the verb to be. -/
def verbalPronouns : List Text :=
  ["jIH", "maH", "SoH", "tlhIH", "ghaH", "chaH", "'oH", "bIH"]

/-- The numerals that take number suffixes. -/
def numerals : List Text :=
  ["wa'", "cha'", "wej", "loS", "vagh", "jav", "Soch", "chorgh", "Hut"]

/-- Derived forms of lo' that always count as derived verbs and as stative headwords. -/
def valueVerbs : List Text := ["lo'laH", "lo'laHbe'"]

end Affix

end Klingon
