import Klingon.Ordered
import Klingon.Text

/-!
# JSON values

A value as it is written. Strings whose escapes or bytes spell no text and numbers too large for a
double are kept as such: whether they matter depends on where they stand. Records are read from
values by the names of their fields.
-/

namespace Klingon

/-- A number by the digits of its whole part, of its fraction, and its exponent. -/
structure Numeral where
  whole : Text
  fraction : Text
  exponent : Int
  deriving DecidableEq, Repr

namespace Numeral

def digitsValue (digits : Text) : Nat :=
  digits.foldl (fun value d => 10 * value + (d.toNat - '0'.toNat)) 0

/-- Significands are smaller than this. -/
def significandLimit : Nat := Nat.pow 2 64

/-- Appends digits to a significand as long as it stays below the limit; the digits from the first
that does not fit are left. -/
def appendDigits (significand : Nat) : Text → Nat × Text
  | [] => (significand, [])
  | d :: rest =>
    let next := 10 * significand + (d.toNat - '0'.toNat)
    if next < significandLimit then appendDigits next rest else (significand, d :: rest)

/-- The significand and the power of ten it is taken times. Digits of the whole part that do not
fit count as zeros, and digits of the fraction that do not fit are dropped. -/
def scaled (n : Numeral) : Nat × Int :=
  let (front, beyond) := appendDigits 0 n.whole
  let (significand, dropped) := appendDigits front n.fraction
  (significand, n.exponent + beyond.length - (n.fraction.length - dropped.length))

/-- The number with 53 significant binary digits that is nearest to a number; of two that are
equally near, the one with an even last digit. -/
def nearestDouble (n : Nat) : Nat :=
  let step := Nat.pow 2 (n.log2 - 52)
  let (quotient, rest) := (n / step, n % step)
  if step < 2 * rest ∨ (2 * rest = step ∧ quotient % 2 = 1) then (quotient + 1) * step
  else quotient * step

/-- Half a step above the largest double: from here on numbers round to infinity. -/
def overflow : Nat := Nat.pow 2 1024 - Nat.pow 2 970

/-- The largest power of ten below the largest double. -/
def exponentLimit : Nat := 308

/-- Whether the product of the nearest doubles of the significand and of the power of ten is
finite. Zero is, whatever its exponent. -/
def isFinite (n : Numeral) : Bool :=
  let (significand, exponent) := n.scaled
  significand = 0 ||
    exponent ≤ exponentLimit &&
      nearestDouble significand * nearestDouble (Nat.pow 10 exponent.toNat) < overflow

end Numeral

/-- A JSON value. A string or a key is none if it spells no text. -/
inductive Json where
  | null
  | bool (value : Bool)
  | number (value : Numeral)
  | string (text : Option Text)
  | array (items : List Json)
  | object (members : List (Option Text × Json))

namespace Json

mutual

/-- Whether every string in the value is a text, every number a finite double, and arrays and
objects are nested at most `depth` levels. -/
def isSound (depth : Nat) : Json → Bool
  | null | bool _ => true
  | number value => value.isFinite
  | string text => text.isSome
  | array items => 0 < depth && areSoundItems (depth - 1) items
  | object members => 0 < depth && areSoundMembers (depth - 1) members

def areSoundItems (depth : Nat) : List Json → Bool
  | [] => true
  | item :: rest => isSound depth item && areSoundItems depth rest

def areSoundMembers (depth : Nat) : List (Option Text × Json) → Bool
  | [] => true
  | (key, value) :: rest => key.isSome && isSound depth value && areSoundMembers depth rest

end

def text? : Json → Option Text
  | string text => text
  | _ => none

def texts? : Json → Option (List Text)
  | array items => items.mapM text?
  | _ => none

/-- A member whose key is a text and whose value can be read. -/
def readMember? {α : Type} (read? : Text → Json → Option α) (member : Option Text × Json) :
    Option (Text × α) := do
  let key ← member.1
  let value ← read? key member.2
  return (key, value)

/-- What is read from the members of an object, in the order of their keys. Each member has to be
read; of members with one key the last counts. -/
def members? {α : Type} (read? : Text → Json → Option α) : Json → Option (List (Text × α))
  | object members => (members.mapM (readMember? read?)).map Ordered.ofPairs
  | _ => none

/-- The values of the members with a key, in the order in which they are written. -/
def valuesOf (key : Text) (members : List (Option Text × Json)) : List Json :=
  (members.filter (·.1 = some key)).map (·.2)

/-- The value of a field that may be written once at most. -/
def field? (members : List (Option Text × Json)) (key : Text) : Option (Option Json) :=
  match valuesOf key members with
  | [] => some none
  | [value] => some (some value)
  | _ => none

/-- The values of the named fields of a record. A record is an object, whose other members are
ignored, or an array of the first fields in their order. -/
def record? (names : List Text) : Json → Option (List (Option Json))
  | object members =>
    if members.all (·.1.isSome) then names.mapM (field? members) else none
  | array items =>
    if items.length ≤ names.length then
      some (items.map some ++ List.replicate (names.length - items.length) none)
    else none
  | _ => none

/-- A text field that may be null or left out. -/
def optionalText? : Option Json → Option (Option Text)
  | none | some null => some none
  | some value => value.text?.map some

/-- A list field that may be left out. -/
def defaultTexts? : Option Json → Option (List Text)
  | none => some []
  | some value => value.texts?

end Json

end Klingon
