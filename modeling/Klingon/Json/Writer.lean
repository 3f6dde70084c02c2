import Klingon.Text

/-!
# Writing JSON

Values are written without blanks, from their written parts. In a string the quote, the backslash
and the control characters are escaped, the common controls by a letter.
-/

namespace Klingon.Json.Writer

def escaped (c : Char) : Text :=
  match c with
  | '"' => "\\\""
  | '\\' => "\\\\"
  | '\x08' => "\\b"
  | '\x0c' => "\\f"
  | '\n' => "\\n"
  | '\r' => "\\r"
  | '\t' => "\\t"
  | _ =>
    if c.toNat < 0x20 then
      "\\u00" ++ (if c.toNat < 0x10 then "0".toList else []) ++ Nat.toDigits 16 c.toNat
    else [c]

def string (text : Text) : Text :=
  "\"" ++ text.flatMap escaped ++ "\""

def null : Text := "null"

def bool (value : Bool) : Text :=
  if value then "true" else "false"

def array (items : List Text) : Text :=
  "[" ++ List.intercalate "," items ++ "]"

def member (key value : Text) : Text :=
  string key ++ ":" ++ value

/-- The object of the given members, in their order. -/
def object (members : List (Text × Text)) : Text :=
  "\x7b" ++ List.intercalate "," (members.map fun m => member m.1 m.2) ++ "\x7d"

/-- The written value, or null where there is none. -/
def optional {α : Type} (write : α → Text) : Option α → Text
  | some value => write value
  | none => null

end Klingon.Json.Writer
