import Klingon.Pattern.Expression
import Klingon.Pattern.Piece

/-!
# Token blocks

The encoding of a sentence is a text of blocks, one for each token: a comma, the number of the
token, a colon and its marks. A requirement on a token is a requirement on each piece of its
block. The numbers of the tokens are read back from any part of the text.
-/

namespace Klingon.Pattern

/-- The marks of a bit that is not asked for. -/
def anyMark : Text := ['.', '0', '1']

/-- What the requirement on a mark admits. -/
def markPiece : Option Bool → Piece
  | some true => .text ['1']
  | some false => .text ['0']
  | none => .among anyMark

/-- The pieces of a block that meets the requirements, one for each bit of the vocabulary. -/
def blockPieces (required : List (Option Bool)) : List Piece :=
  .text [','] :: .digits :: .text [':'] :: required.map markPiece

/-- The expression over the pieces of the encoding. -/
def Expression.spelled (e : TokenExpression) : Expression Piece :=
  e.expand fun required => .inSequence ((blockPieces required).map .atom)

/-- Token numbers are smaller than this. -/
def tokenNumberLimit : Nat := Nat.pow 2 64

/-- The number that a text writes in base ten, a plus sign before it allowed. -/
def tokenNumber? (text : Text) : Option Nat :=
  let digits :=
    match text with
    | '+' :: digits => digits
    | _ => text
  if digits ≠ [] ∧ digits.all Char.isDigit then
    let value := digits.foldl (fun value d => 10 * value + (d.toNat - '0'.toNat)) 0
    if value < tokenNumberLimit then some value else none
  else none

/-- The numbers of the tokens in a part of an encoding; what is no number is passed over. -/
def tokenNumbers (part : Text) : List Nat :=
  (part.splitOn ',').filterMap fun block => do
    let (number, _) ← Text.cut? ':' block
    tokenNumber? number

end Klingon.Pattern
