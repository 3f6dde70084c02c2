import Klingon.Diagnostic
import Klingon.Tool.Surroundings

/-!
# Reports of faults

A fault is shown under the sentence in which it starts. Within a line, a full stop, an exclamation
mark or a question mark ends a sentence if a space follows, and the next sentence starts after the
space.
-/

namespace Klingon.Report

def isStop (c : Char) : Bool :=
  c = '.' || c = '!' || c = '?'

/-- The length of the first sentence of a line. -/
def sentenceLength : Text → Nat
  | [] => 0
  | [_] => 1
  | c :: d :: rest => if isStop c && d = ' ' then 1 else 1 + sentenceLength (d :: rest)

/-- The sentence in which an offset falls and where it starts, in a line whose first character has
the offset `start`. -/
def sentenceFrom (start : Nat) (line : Text) (offset : Nat) : Nat × Text :=
  let length := sentenceLength line
  match _h : line.drop length with
  | [] => (start, line)
  | _ :: rest =>
    if start + length + 1 ≤ offset then sentenceFrom (start + length + 1) rest offset
    else (start, line.take length)
  termination_by line.length
  decreasing_by
    have hrest := congrArg List.length _h
    simp only [List.length_drop, List.length_cons] at hrest
    omega

/-- The sentence of a line in which an offset falls, after the offset at which it starts. -/
def enclosingSentence (line : Text) (offset : Nat) : Nat × Text :=
  sentenceFrom 0 line offset

/-- The report of a fault in a numbered line. -/
def fault (number : Nat) (line : Text) (diagnostic : Diagnostic) : Text :=
  let (start, sentence) := enclosingSentence line diagnostic.start
  let heading : Text := "Line " ++ Text.decimal number ++ ": "
  let pad := List.replicate (diagnostic.start - start) ' '
  endLines <|
    [heading ++ sentence, heading ++ pad ++ "^" ++ diagnostic.message] ++
    (diagnostic.replacement.map fun text => heading ++ pad ++ " -> \"" ++ text ++ "\"").toList ++
    [[]]

end Klingon.Report
