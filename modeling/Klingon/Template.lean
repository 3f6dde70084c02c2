import Klingon.Affix
import Klingon.Letter

/-!
# Word templates

A template says how the words of one kind are built: a prefix or none, a headword from a list, and
an ending made of suffix positions. Reading a word prefers the empty prefix, then the prefixes and
the headwords in the order of their lists, and fills an optional position whenever it can.
-/

namespace Klingon

/-- The kinds of words that templates describe. -/
inductive TemplateKind where
  | noun
  | number
  | pronounVerb
  | verb
  | stativeVerb
  deriving DecidableEq, Repr

namespace TemplateKind

def name : TemplateKind → Text
  | noun => "noun"
  | number => "number"
  | pronounVerb => "pronoun-verb"
  | verb => "verb"
  | stativeVerb => "stative-verb"

/-- The class of the prefix and of the headword. -/
def headwordClass : TemplateKind → WordClass
  | noun | number | pronounVerb => .noun
  | verb | stativeVerb => .verb

/-- The class of the suffixes that follow the headword. -/
def inflectionClass : TemplateKind → WordClass
  | noun | number => .noun
  | pronounVerb | verb | stativeVerb => .verb

/-- The tag an entry needs to be the headword. -/
def requiredTag : TemplateKind → Option Text
  | pronounVerb => some "pro"
  | stativeVerb => some "is"
  | _ => none

end TemplateKind

/-- What a piece of a word is: its prefix, its headword, or the suffix of a position. A suffix with
a fixed class belongs to that class whatever it follows. -/
inductive PieceRole where
  | verbPrefix
  | headword
  | suffix (slot : SuffixSlot) (fixed : Option WordClass)
  deriving DecidableEq, Repr

/-- A suffix position of a template and the suffixes that may fill it, in order. -/
structure Position where
  slot : SuffixSlot
  spellings : List Text
  fixed : Option WordClass := none
  deriving DecidableEq, Repr

def Position.role (p : Position) : PieceRole :=
  .suffix p.slot p.fixed

/-- What may follow the headword: nothing, a position and what follows it, or one of two
endings. -/
inductive Ending where
  | stop
  | position (p : Position) (required : Bool) (next : Ending)
  | either (first second : Ending)
  deriving DecidableEq, Repr

namespace Ending

/-- The suffixes of the whole text in the preferred reading. -/
def read? : Ending → Text → Option (List (PieceRole × Text))
  | stop, text => if text = [] then some [] else none
  | position p required next, text =>
    let filled := p.spellings.findSome? fun spelling => do
      let rest ← Text.dropStart? spelling text
      let pieces ← next.read? rest
      return (p.role, spelling) :: pieces
    if required then filled else filled.or (next.read? text)
  | either first second, text => (first.read? text).or (second.read? text)

/-- The roles of all positions, in the order in which they are written down. -/
def roles : Ending → List PieceRole
  | stop => []
  | position p _ next => p.role :: next.roles
  | either first second => first.roles ++ second.roles

/-- A position that may stay empty. -/
def optional (slot : SuffixSlot) (spellings : List Text) (next : Ending) : Ending :=
  position ⟨slot, spellings, none⟩ false next

/-- A position that must be filled. -/
def filled (slot : SuffixSlot) (spellings : List Text) (next : Ending) : Ending :=
  position ⟨slot, spellings, none⟩ true next

/-- The five noun positions. -/
def noun : Ending :=
  [SuffixSlot.n1, .n2, .n3, .n4, .n5].foldr
    (fun slot next => optional slot (Affix.spellings slot .noun) next) stop

/-- A number suffix of the first or the second position, or one of each. -/
def number : Ending :=
  either
    (filled .l1 (Affix.spellings .l1 .noun) (optional .l2 (Affix.spellings .l2 .noun) stop))
    (optional .l1 (Affix.spellings .l1 .noun) (filled .l2 (Affix.spellings .l2 .noun) stop))

/-- A clause suffix, or a nominalizer with noun suffixes, or neither. -/
def clause : Ending :=
  either (filled .v9 Affix.clauseSuffixes stop)
    (either (filled .v9 Affix.nominalizers noun) stop)

/-- The verb positions. A rover may follow the first and each of the next eight. -/
def verb : Ending :=
  optional .vr ["Ha'"] <| optional .vr Affix.rovers <|
    [SuffixSlot.v1, .v2, .v3, .v4, .v5, .v6, .v7, .v8].foldr
      (fun slot next =>
        optional slot (Affix.spellings slot .verb) (optional .vr Affix.rovers next))
      (optional .vq (Affix.spellings .vq .verb) clause)

/-- The stative verb used like a noun: a case suffix must follow. -/
def stative : Ending :=
  optional .vr ["Ha'"] <| optional .vr ["be'"] <| optional .vr ["qu'"] <|
    optional .vr ["be'"] <|
      position ⟨.n5, Affix.spellings .n5 .noun, some .noun⟩ true stop

end Ending

/-- A nonempty piece of a word, with the byte at which it starts. -/
structure Capture where
  role : PieceRole
  text : Text
  start : Nat
  deriving DecidableEq, Repr

/-- Drops the empty pieces and counts where the others start. -/
def Capture.ofPieces (start : Nat) : List (PieceRole × Text) → List Capture
  | [] => []
  | (role, text) :: rest =>
    if text = [] then ofPieces start rest
    else ⟨role, text, start⟩ :: ofPieces (start + text.byteLength) rest

/-- The words of one kind: the prefixes they may have, their headwords and their ending. -/
structure Template where
  kind : TemplateKind
  prefixes : List Text
  headwords : List Text
  ending : Ending
  deriving DecidableEq, Repr

namespace Template

/-- The pieces of a word in the preferred reading, empty ones included. -/
def read? (template : Template) (word : Text) : Option (List (PieceRole × Text)) :=
  ([] :: template.prefixes).findSome? fun front => do
    let rest ← Text.dropStart? front word
    template.headwords.findSome? fun headword => do
      let tail ← Text.dropStart? headword rest
      let suffixes ← template.ending.read? tail
      return (.verbPrefix, front) :: (.headword, headword) :: suffixes

def accepts (template : Template) (word : Text) : Bool :=
  (template.read? word).isSome

/-- Whether one of the templates accepts the word. -/
def anyAccepts (templates : List Template) (word : Text) : Bool :=
  templates.any fun template => template.accepts word

def captures? (template : Template) (word : Text) : Option (List Capture) :=
  (template.read? word).map (Capture.ofPieces 0)

/-- The roles a piece may have, in the order of the pieces. -/
def roles (template : Template) : List PieceRole :=
  (if template.prefixes = [] then [] else [.verbPrefix]) ++ .headword :: template.ending.roles

def noun (headwords : List Text) : Template :=
  ⟨.noun, [], headwords, .noun⟩

def number : Template :=
  ⟨.number, [], Affix.numerals, .number⟩

def pronounVerb : Template :=
  ⟨.pronounVerb, [], Affix.verbalPronouns, .verb⟩

def verb (headwords : List Text) : Template :=
  ⟨.verb, Affix.prefixes, headwords, .verb⟩

def stativeVerb (headwords : List Text) : Template :=
  ⟨.stativeVerb, [], headwords, .stative⟩

end Template

end Klingon
