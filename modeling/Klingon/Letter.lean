import Klingon.Text

/-!
# Letters

The Klingon alphabet has twenty-six letters: twenty-two are written with one character and four
with two or three. A word is read from the left, longer letters first; a character that starts no
letter is passed over.
-/

namespace Klingon

/-- The letters, named as they are written; the last is the glottal stop. -/
inductive Letter where
  | a | b | ch | D | e | gh | H | I | j | l | m | n | ng | o | p | q | Q | r | S | t | tlh | u
  | v | w | y | glottal
  deriving DecidableEq, Repr

namespace Letter

def spelling : Letter → Text
  | a => "a" | b => "b" | ch => "ch" | D => "D" | e => "e" | gh => "gh" | H => "H" | I => "I"
  | j => "j" | l => "l" | m => "m" | n => "n" | ng => "ng" | o => "o" | p => "p" | q => "q"
  | Q => "Q" | r => "r" | S => "S" | t => "t" | tlh => "tlh" | u => "u" | v => "v" | w => "w"
  | y => "y" | glottal => "'"

/-- The letters written with one character. -/
def ofChar? (c : Char) : Option Letter :=
  match c with
  | 'a' => some a | 'b' => some b | 'D' => some D | 'e' => some e | 'H' => some H
  | 'I' => some I | 'j' => some j | 'l' => some l | 'm' => some m | 'n' => some n
  | 'o' => some o | 'p' => some p | 'q' => some q | 'Q' => some Q | 'r' => some r
  | 'S' => some S | 't' => some t | 'u' => some u | 'v' => some v | 'w' => some w
  | 'y' => some y | '\'' => some glottal
  | _ => none

def isVowel : Letter → Bool
  | a | e | I | o | u => true
  | _ => false

/-- The letters of a word. -/
def ofText : Text → List Letter
  | [] => []
  | 'c' :: 'h' :: rest => ch :: ofText rest
  | 'g' :: 'h' :: rest => gh :: ofText rest
  | 'n' :: 'g' :: rest => ng :: ofText rest
  | 't' :: 'l' :: 'h' :: rest => tlh :: ofText rest
  | c :: rest =>
    match ofChar? c with
    | some letter => letter :: ofText rest
    | none => ofText rest

/-- The word that the letters spell. -/
def spell (letters : List Letter) : Text :=
  letters.flatMap spelling

end Letter

namespace Text

/-- Words are written with ASCII letters and digits and the glottal stop. -/
def isWordChar (c : Char) : Bool :=
  c.isAlphanum || c = '\''

def endsInVowel (text : Text) : Bool :=
  match text.getLast? with
  | some c => (Letter.ofChar? c).any Letter.isVowel
  | none => false

end Text

end Klingon
