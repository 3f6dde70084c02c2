import Klingon.Text
import Klingon.Text.Printable

/-!
# Quoted text

Messages show a text between double quotes and a single character between single quotes. What
would be invisible or ambiguous is written as an escape: the quote in use, the backslash, the
common controls by a letter, and every other character that does not print by its code point in
hexadecimal.
-/

namespace Klingon.Text

/-- The character as it stands between two quotes `delimiter`. -/
def escaped (delimiter c : Char) : Text :=
  if c = delimiter ∨ c = '\\' then ['\\', c]
  else if c = '\t' then "\\t"
  else if c = '\n' then "\\n"
  else if c = '\r' then "\\r"
  else if c.toNat = 0 then "\\0"
  else if isPrintable c then [c]
  else "\\u\x7b" ++ Nat.toDigits 16 c.toNat ++ "\x7d"

def quoted (text : Text) : Text :=
  "\"" ++ text.flatMap (escaped '"') ++ "\""

def quotedChar (c : Char) : Text :=
  "'" ++ escaped '\'' c ++ "'"

end Klingon.Text
