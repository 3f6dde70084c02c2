import Klingon.Pattern.Expression
import Klingon.Pattern.Piece

/-!
# Normal forms

An expression over pieces is brought to a normal form before it is searched for. Texts that follow
each other become one text. Branches that are single characters, or sets of characters, become one
set. What all branches of a choice begin with is written once, in front of the choice: then the
common beginning decides first how much it covers, and only after it a branch is chosen. A group
without a number disappears, and a repetition of what is always empty becomes optional.
-/

namespace Klingon.Pattern.Expression

variable {α : Type}

/-- The members of a sequence. -/
def items : Expression α → List (Expression α)
  | empty => []
  | sequence first second => first :: second.items
  | e => [e]

/-- The branches of a choice. -/
def branches : Expression α → List (Expression α)
  | choice first second => first :: second.branches
  | e => [e]

/-- Whether the expression matches nothing but the empty sequence. -/
def isVacuous : Expression α → Bool
  | empty => true
  | atom _ => false
  | group _ body => body.isVacuous
  | sequence first second => first.isVacuous && second.isVacuous
  | choice first second => first.isVacuous && second.isVacuous
  | repeated _ _ body => body.isVacuous

/-- A repetition, which of an always empty body makes sense once at most. -/
def iterated (q : Quantifier) (reluctant : Bool) (body : Expression α) : Expression α :=
  if body.isVacuous then
    if q = .plus then body else repeated .optional reluctant body
  else repeated q reluctant body

/-- One member in front of a sequence; two texts that meet become one. -/
def before : Expression Piece → Expression Piece → Expression Piece
  | item, empty => item
  | atom (.text front), atom (.text back) => atom (.text (front ++ back))
  | atom (.text front), sequence (atom (.text back)) more =>
    sequence (atom (.text (front ++ back))) more
  | item, e => sequence item e

/-- One sequence in front of another. -/
def followedBy : Expression Piece → Expression Piece → Expression Piece
  | empty, e => e
  | sequence first second, e => first.before (second.followedBy e)
  | item, e => item.before e

/-- One of several characters. -/
def amongCharacters (characters : Text) : Expression Piece :=
  match (characters.mergeSort (· ≤ ·)).eraseDups with
  | [c] => atom (.text [c])
  | several => atom (.among several)

def character? : Expression Piece → Option Char
  | atom (.text [c]) => some c
  | _ => none

def characters? : Expression Piece → Option Text
  | atom (.among characters) => some characters
  | _ => none

/-- The set of characters that branches amount to if each is a single character, or each is a
set. -/
def union? (list : List (Expression Piece)) : Option (Expression Piece) :=
  match list.mapM character? with
  | some characters => some (amongCharacters characters)
  | none => (list.mapM characters?).map fun sets => amongCharacters sets.flatten

/-- The list that two lists begin with. -/
def commonStart [DecidableEq α] : List α → List α → List α
  | a :: front, b :: back => if a = b then a :: commonStart front back else []
  | _, _ => []

/-- The members that all sequences begin with. A branch that is no sequence shares nothing. -/
def commonItems (list : List (Expression Piece)) : List (Expression Piece) :=
  if list.all fun e => 2 ≤ e.items.length then
    match list.map items with
    | [] => []
    | first :: others => others.foldl commonStart first
  else []

/-- A choice between branches that have no common beginning; the branches of a branch count among
its own. -/
def selection (list : List (Expression Piece)) : Expression Piece :=
  match list.flatMap branches with
  | [e] => e
  | several => (union? several).getD (oneOf several)

/-- A choice between branches, behind their common beginning. -/
def factored (list : List (Expression Piece)) : Expression Piece :=
  match list.flatMap branches with
  | [e] => e
  | several =>
    match union? several with
    | some e => e
    | none =>
      match commonItems several with
      | [] => oneOf several
      | shared =>
        (inSequence shared).followedBy
          (selection (several.map fun e => inSequence (e.items.drop shared.length)))

/-- The normal forms of the branches of an expression, which has one if it is no choice. -/
def alternatives : Expression Piece → List (Expression Piece)
  | empty => [empty]
  | atom piece => [atom piece]
  | group none body => [factored body.alternatives]
  | group (some n) body => [group (some n) (factored body.alternatives)]
  | sequence first second =>
    [(factored first.alternatives).followedBy (factored second.alternatives)]
  | choice first second => factored first.alternatives :: second.alternatives
  | repeated q reluctant body => [iterated q reluctant (factored body.alternatives)]

/-- The normal form of an expression. -/
def normal (e : Expression Piece) : Expression Piece :=
  factored e.alternatives

/-- The pieces that follow each other without a choice taken together. -/
def gathered : Expression Piece → Expression (List Piece)
  | empty => empty
  | atom piece => atom [piece]
  | group number body => group number body.gathered
  | sequence (atom piece) second =>
    match second.gathered with
    | atom pieces => atom (piece :: pieces)
    | sequence (atom pieces) more => sequence (atom (piece :: pieces)) more
    | e => sequence (atom [piece]) e
  | sequence first second => sequence first.gathered second.gathered
  | choice first second => choice first.gathered second.gathered
  | repeated q reluctant body => repeated q reluctant body.gathered

end Klingon.Pattern.Expression
