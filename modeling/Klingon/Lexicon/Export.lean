import Klingon.Json.Document
import Klingon.Lexicon

/-!
# Dictionary exports

A dictionary is exported as a JSON record of its version and its entries. The entries are the
members of an object, by identifier, and come in the order of their identifiers; an entry that a
later one with its identifier replaces has to be readable all the same. Glosses that are not
strings are left out.
-/

namespace Klingon.Lexicon

/-- How deep the value of a gloss may be nested: documents may have 127 levels, and a gloss stands
on the fifth. -/
def glossDepth : Nat := 123

/-- The value of a gloss, which has to be sound. -/
def glossValue? (value : Json) : Option Json :=
  if value.isSound glossDepth then some value else none

/-- The glosses of a definition. -/
def glosses? (definition : Json) : Option (List (Text × Text)) := do
  let values ← definition.members? fun _ => glossValue?
  return values.filterMap fun (locale, value) => value.text?.map fun text => (locale, text)

def entry? (id : Text) (value : Json) : Option Entry := do
  match ← value.record? ["entry_name", "part_of_speech", "definition"] with
  | [some name, some pos, definition] =>
    let name ← name.text?
    let pos ← pos.text?
    let definition ← match definition with
      | some glosses => glosses? glosses
      | none => some []
    return { id, name, pos, definition }
  | _ => none

/-- The lexicon that an exported value describes. -/
def ofJson? (value : Json) : Option Lexicon := do
  match ← value.record? ["version", "qawHaq"] with
  | [version, some entries] =>
    let version ← Json.optionalText? version
    let entries ← entries.members? entry?
    return { ofEntries (entries.map (·.2)) with version }
  | _ => none

/-- The lexicon of an export given as text. -/
def ofExport? (document : Text) : Option Lexicon :=
  (Json.ofText? document).bind ofJson?

/-- The lexicon of an export given by its bytes. -/
def ofExportBytes? (bytes : List UInt8) : Option Lexicon :=
  (Json.ofBytes? bytes).bind ofJson?

end Klingon.Lexicon
