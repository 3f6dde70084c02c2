import Klingon.Text

/-!
# Agreement

A verb prefix expresses the person and number of subject and object together. When the subject is
indefinite the same prefixes mark the object alone. Each combination that exists is one row.
-/

namespace Klingon

/-- Grammatical person; the zero person stands for an indefinite subject or a missing object. -/
inductive Person where
  | zero
  | first
  | second
  | third
  deriving DecidableEq, Repr

namespace Person

def digit : Person → Nat
  | zero => 0
  | first => 1
  | second => 2
  | third => 3

instance : Ord Person := ⟨fun a b => compare a.digit b.digit⟩

def name : Person → Text
  | zero => "Zero"
  | first => "First"
  | second => "Second"
  | third => "Third"

end Person

inductive GrammaticalNumber where
  | singular
  | plural
  deriving DecidableEq, Repr

def GrammaticalNumber.symbol : GrammaticalNumber → Text
  | singular => "Sing"
  | plural => "Plur"

/-- Whether the prefix marks the subject, or the subject is indefinite and it marks the object. -/
inductive Voice where
  | subject
  | indefinite
  deriving DecidableEq, Repr

def Voice.symbol : Voice → Text
  | subject => "P"
  | indefinite => "NP"

/-- What a prefix expresses in a voice. The prefix is written with its dash; a dash alone stands
for no prefix. -/
structure Agreement where
  dashed : Text
  voice : Voice
  imperative : Bool
  subject : List Person
  subjectNumber : Option GrammaticalNumber
  object : List Person
  objectNumber : Option GrammaticalNumber
  deriving DecidableEq, Repr

namespace Agreement

open Person GrammaticalNumber

def rows : List Agreement :=
  [ ⟨"HI-", .subject, true, [second], none, [first], some singular⟩,
    ⟨"gho-", .subject, true, [second], none, [first], some plural⟩,
    ⟨"yI-", .subject, true, [second], none, [third, zero], some singular⟩,
    ⟨"tI-", .subject, true, [second], none, [third], some plural⟩,
    ⟨"pe-", .subject, true, [second], some plural, [zero], none⟩,
    ⟨"qa-", .subject, false, [first], some singular, [second], some singular⟩,
    ⟨"Sa-", .subject, false, [first], some singular, [second], some plural⟩,
    ⟨"vI-", .subject, false, [first], some singular, [third], none⟩,
    ⟨"jI-", .subject, false, [first], some singular, [zero], none⟩,
    ⟨"pI-", .subject, false, [first], some plural, [second], some singular⟩,
    ⟨"re-", .subject, false, [first], some plural, [second], some plural⟩,
    ⟨"wI-", .subject, false, [first], some plural, [third], some singular⟩,
    ⟨"DI-", .subject, false, [first], some plural, [third], some plural⟩,
    ⟨"ma-", .subject, false, [first], some plural, [zero], none⟩,
    ⟨"cho-", .subject, false, [second], some singular, [first], some singular⟩,
    ⟨"ju-", .subject, false, [second], some singular, [first], some plural⟩,
    ⟨"Da-", .subject, false, [second], some singular, [third], none⟩,
    ⟨"bI-", .subject, false, [second], some singular, [zero], none⟩,
    ⟨"tu-", .subject, false, [second], some plural, [first], some singular⟩,
    ⟨"che-", .subject, false, [second], some plural, [first], some plural⟩,
    ⟨"bo-", .subject, false, [second], some plural, [third], none⟩,
    ⟨"Su-", .subject, false, [second], some plural, [zero], none⟩,
    ⟨"mu-", .subject, false, [third], none, [first], some singular⟩,
    ⟨"nu-", .subject, false, [third], none, [first], some plural⟩,
    ⟨"Du-", .subject, false, [third], some singular, [second], some singular⟩,
    ⟨"nI-", .subject, false, [third], some plural, [second], some singular⟩,
    ⟨"lI-", .subject, false, [third], none, [second], some plural⟩,
    ⟨"lu-", .subject, false, [third], some plural, [third], some singular⟩,
    ⟨"-", .subject, false, [third], none, [third, zero], none⟩,
    ⟨"vI-", .indefinite, false, [zero], none, [first], some singular⟩,
    ⟨"wI-", .indefinite, false, [zero], none, [first], some plural⟩,
    ⟨"Da-", .indefinite, false, [zero], none, [second], some singular⟩,
    ⟨"bo-", .indefinite, false, [zero], none, [second], some plural⟩,
    ⟨"-", .indefinite, false, [zero], none, [third, zero], some singular⟩,
    ⟨"lu-", .indefinite, false, [zero], none, [third], some plural⟩ ]

/-- The row of a prefix in a voice. -/
def find? (dashed : Text) (voice : Voice) : Option Agreement :=
  rows.find? fun row => row.dashed = dashed && row.voice = voice

def personList (persons : List Person) : Text :=
  List.intercalate "," (persons.map fun p => Text.decimal p.digit)

def numberItem (name : Text) : Option GrammaticalNumber → List Text
  | some number => [name ++ number.symbol]
  | none => []

/-- The row as features of the CoNLL-U format. -/
def features (row : Agreement) : Text :=
  List.intercalate "|" <|
    (if row.imperative then ["Mood=Imp".toList] else []) ++
    ["Person=" ++ personList row.subject] ++
    numberItem "Number=" row.subjectNumber ++
    ["ObjPerson=" ++ personList row.object] ++
    numberItem "ObjNumber=" row.objectNumber

end Agreement

end Klingon
