import Klingon.Text
import Klingon.Text.Digit

/-!
# Pieces of an encoding

A block of the encoding is described piece by piece: a text as it stands, a run of digits, one of
several characters. A piece covers what stands at the front of a text or fails; a run of digits is
always taken whole, because what follows it in a block is no digit.
-/

namespace Klingon.Pattern

inductive Piece where
  | text (content : Text)
  | digits
  | among (characters : Text)
  deriving DecidableEq, Repr

/-- How many characters a piece covers at the front of a text. -/
def Piece.cover? : Piece → Text → Option Nat
  | text content, rest => (Text.dropStart? content rest).map fun _ => content.length
  | digits, rest =>
    match rest.takeWhile Text.isDigit with
    | [] => none
    | run => some run.length
  | among _, [] => none
  | among characters, c :: _ => if c ∈ characters then some 1 else none

/-- How many characters the pieces cover, one after the other. -/
def coverAll? : List Piece → Text → Option Nat
  | [], _ => some 0
  | piece :: more, rest => do
    let here ← piece.cover? rest
    let beyond ← coverAll? more (rest.drop here)
    return here + beyond

/-- What stands from each position of a text on, the end included. -/
def remainders : Text → List Text
  | [] => [[]]
  | c :: rest => (c :: rest) :: remainders rest

/-- The position after the pieces that stand at a position of an encoding, which is given by its
remainders. -/
def consumePieces (encoding : Array Text) (pieces : List Piece) (position : Nat) : Option Nat := do
  let rest ← encoding[position]?
  let covered ← coverAll? pieces rest
  return position + covered

end Klingon.Pattern
