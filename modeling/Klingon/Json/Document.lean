import Klingon.Json.Lexeme

/-!
# JSON documents

A document is one value. The lexemes are read from left to right; the arrays and objects that are
still open wait on a stack, the innermost first, and the value that was completed last is held
until the lexeme after it says where it belongs.
-/

namespace Klingon.Json

/-- An array or object under construction, its items or members last first. An object knows the
key of the value it waits for. -/
inductive Container where
  | array (items : List Json)
  | object (members : List (Option Text × Json)) (key : Option Text)

/-- Reads the rest of a document. A completed value is held, if the last lexeme completed one. -/
def build : Option Json → List Container → List Lexeme → Option Json
  | none, stack, .null :: rest => build (some .null) stack rest
  | none, stack, .bool value :: rest => build (some (.bool value)) stack rest
  | none, stack, .number value :: rest => build (some (.number value)) stack rest
  | none, stack, .string text :: rest => build (some (.string text)) stack rest
  | none, stack, .openArray :: .closeArray :: rest => build (some (.array [])) stack rest
  | none, stack, .openArray :: rest => build none (.array [] :: stack) rest
  | none, stack, .openObject :: .closeObject :: rest => build (some (.object [])) stack rest
  | none, stack, .openObject :: .string key :: .colon :: rest =>
    build none (.object [] key :: stack) rest
  | some value, .array items :: stack, .comma :: rest =>
    build none (.array (value :: items) :: stack) rest
  | some value, .array items :: stack, .closeArray :: rest =>
    build (some (.array (value :: items).reverse)) stack rest
  | some value, .object members key :: stack, .comma :: .string next :: .colon :: rest =>
    build none (.object ((key, value) :: members) next :: stack) rest
  | some value, .object members key :: stack, .closeObject :: rest =>
    build (some (.object ((key, value) :: members).reverse)) stack rest
  | some value, [], [] => some value
  | _, _, _ => none

/-- The value of a document given by its bytes. -/
def ofBytes? (bytes : List UInt8) : Option Json := do
  let found ← lexemes bytes
  build none [] found

/-- The value of a document given as text. -/
def ofText? (document : Text) : Option Json :=
  ofBytes? document.bytes

end Klingon.Json
