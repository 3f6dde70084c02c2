import Klingon.Lexicon.Export

/-!
# Sources of a lexicon

A lexicon comes from a list of entries or from an export, which may not be readable.
-/

namespace Klingon

inductive LexiconSource where
  | entries (list : List Entry)
  | document (text : Text)
  | bytes (content : List UInt8)
  deriving DecidableEq, Repr

namespace LexiconSource

/-- The lexicon of a source. -/
def load? : LexiconSource → Option Lexicon
  | entries list => some (.ofEntries list)
  | document text => Lexicon.ofExport? text
  | bytes content => Lexicon.ofExportBytes? content

end LexiconSource

end Klingon
