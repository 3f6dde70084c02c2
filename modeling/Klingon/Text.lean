/-!
# Text

Words and sentences are lists of characters. Offsets count characters and words are taken apart
from the left, so the list is the natural shape; a string literal stands for the list of its
characters.
-/

namespace Klingon

/-- A text is the list of its characters. -/
abbrev Text := List Char

instance : Coe String Text := ⟨String.toList⟩

instance : LawfulBEq Text :=
  List.instLawfulBEq

namespace Text

/-- What follows `start` in a text that begins with it. -/
def dropStart? : (start text : Text) → Option Text
  | [], text => some text
  | _ :: _, [] => none
  | c :: start, d :: text => if c = d then dropStart? start text else none

theorem eq_append_of_dropStart? {start text rest : Text} (h : dropStart? start text = some rest) :
    text = start ++ rest := by
  fun_induction dropStart? start text with
  | case1 text => simp_all
  | case2 => cases h
  | case3 c start text ih => simp_all
  | case4 => cases h

theorem length_of_dropStart? {start text rest : Text} (h : dropStart? start text = some rest) :
    text.length = start.length + rest.length := by
  rw [eq_append_of_dropStart? h, List.length_append]

/-- The parts before and after the first `sep`. -/
def cut? (sep : Char) : Text → Option (Text × Text)
  | [] => none
  | c :: rest =>
    if c = sep then some ([], rest) else (cut? sep rest).map fun p => (c :: p.1, p.2)

/-- The digits of a number in base ten. -/
def decimal (n : Nat) : Text :=
  Nat.toDigits 10 n

/-- The number of bytes the text takes in UTF-8. -/
def byteLength : Text → Nat
  | [] => 0
  | c :: rest => c.utf8Size + byteLength rest

/-- The bytes of the text in UTF-8. -/
def bytes (text : Text) : List UInt8 :=
  text.flatMap String.utf8EncodeChar

/-- The text on the right of `width` columns, or at full length if it is longer. -/
def alignRight (width : Nat) (text : Text) : Text :=
  List.replicate (width - text.length) ' ' ++ text

/-- The text on the left of `width` columns, or at full length if it is longer. -/
def alignLeft (width : Nat) (text : Text) : Text :=
  text ++ List.replicate (width - text.length) ' '

end Text

end Klingon
