import Klingon.Analysis
import Klingon.Json.Writer

/-!
# Analyses as JSON records

An analysis is written as a record whose fields come in the order of their names. The suffixes are
the members of an object, by the symbols of their positions and in the order of these.
-/

namespace Klingon

open Json.Writer

def Features.record (features : Features) : Text :=
  object
    [ ("bits", array (features.bits.map string)),
      ("object_number", optional (fun number => string number.symbol) features.objectNumber),
      ("object_persons", array (features.objectPersons.map fun person => string person.name)),
      ("plural", optional bool features.plural),
      ("role", string features.role.symbol),
      ("subject_number", optional (fun number => string number.symbol) features.subjectNumber),
      ("subject_persons", array (features.subjectPersons.map fun person => string person.name)) ]

namespace Analysis

/-- The suffixes by the symbols of their positions. -/
def suffixMembers (analysis : Analysis) : List (Text × Text) :=
  Ordered.ofPairs (analysis.suffixes.map fun (slot, text) => (slot.symbol, string text))

def record (analysis : Analysis) : Text :=
  object
    [ ("broad_pos", string analysis.broad.symbol),
      ("combined_pos", string analysis.combined),
      ("entry_id", string analysis.entryId),
      ("fine_pos", string analysis.fine.symbol),
      ("lemma", string analysis.headword),
      ("parts", array (analysis.parts.map string)),
      ("prefix", optional string analysis.verbPrefix),
      ("source_tag", string analysis.sourceTag),
      ("suffixes", object analysis.suffixMembers),
      ("syntax_info", optional Features.record analysis.features),
      ("ungrammatical", optional string analysis.ungrammatical),
      ("word", string analysis.word) ]

end Analysis

end Klingon
