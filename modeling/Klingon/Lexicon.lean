import Klingon.PartOfSpeech

/-!
# Lexicon

A lexicon is a list of dictionary entries with distinct identifiers. Its order decides the order
in which homographs are reported.
-/

namespace Klingon

/-- A dictionary headword. The definition binds locales to glosses, in increasing order. -/
structure Entry where
  id : Text
  name : Text
  pos : Text
  definition : List (Text × Text) := []
  deriving DecidableEq, Repr

namespace Entry

def tags (entry : Entry) : List Text :=
  PartOfSpeech.tags entry.pos

def hasTag (entry : Entry) (tag : Text) : Bool :=
  tag ∈ entry.tags

def fineTag (entry : Entry) : FineTag :=
  PartOfSpeech.fineTag entry.name entry.tags

def wordClass (entry : Entry) : WordClass :=
  PartOfSpeech.wordClass entry.tags

/-- Hypothetical words are not attested; no word is analyzed as one. -/
def isHypothetical (entry : Entry) : Bool :=
  entry.hasTag "hyp"

/-- Affixes have entries of their own but are no headwords. -/
def isAffix (entry : Entry) : Bool :=
  entry.hasTag "pref" || entry.hasTag "suff"

def gloss? (entry : Entry) (locale : Text) : Option Text :=
  entry.definition.lookup locale

end Entry

/-- Entries in dictionary order, with the version of the dictionary if it is known. No two of them
have one identifier. -/
structure Lexicon where
  version : Option Text := none
  entries : List Entry := []
  distinct : (entries.map (·.id)).Nodup := by exact List.nodup_nil
  deriving DecidableEq, Repr

namespace Lexicon

/-- Puts an entry in the place of the one with its identifier, or at the end. -/
def place (entry : Entry) : List Entry → List Entry
  | [] => [entry]
  | first :: rest => if first.id = entry.id then entry :: rest else first :: place entry rest

theorem mem_ids_place {entry : Entry} {id : Text} {entries : List Entry} :
    id ∈ (place entry entries).map (·.id) ↔ id = entry.id ∨ id ∈ entries.map (·.id) := by
  induction entries with
  | nil => simp [place]
  | cons first rest ih =>
    rw [place]
    split
    · next heq => simp [heq]
    · rw [List.map_cons, List.mem_cons, ih, List.map_cons, List.mem_cons, or_left_comm]

theorem distinct_place {entry : Entry} {entries : List Entry} (h : (entries.map (·.id)).Nodup) :
    ((place entry entries).map (·.id)).Nodup := by
  induction entries with
  | nil => exact List.nodup_cons.mpr ⟨List.not_mem_nil, List.nodup_nil⟩
  | cons first rest ih =>
    obtain ⟨hfirst, hrest⟩ := List.nodup_cons.mp h
    rw [place]
    split
    · next heq =>
      rw [List.map_cons, ← heq]
      exact List.nodup_cons.mpr ⟨hfirst, hrest⟩
    · next hne =>
      refine List.nodup_cons.mpr ⟨fun hmem => ?_, ih hrest⟩
      rcases mem_ids_place.mp hmem with heq | hmem
      · exact hne heq
      · exact hfirst hmem

theorem distinct_foldl_place {entries placed : List Entry} (h : (placed.map (·.id)).Nodup) :
    ((entries.foldl (fun placed entry => place entry placed) placed).map (·.id)).Nodup := by
  induction entries generalizing placed with
  | nil => exact h
  | cons entry rest ih => exact ih (distinct_place h)

/-- The lexicon of the given entries: of entries with one identifier the last counts, in the
place of the first. -/
def ofEntries (entries : List Entry) : Lexicon where
  entries := entries.foldl (fun placed entry => place entry placed) []
  distinct := distinct_foldl_place List.nodup_nil

def get? (lexicon : Lexicon) (id : Text) : Option Entry :=
  lexicon.entries.find? (·.id = id)

/-- The entries that words may be analyzed as. -/
def attested (lexicon : Lexicon) : List Entry :=
  lexicon.entries.filter fun entry => !entry.isHypothetical

/-- The homographs: the attested entries with the given spelling and class. -/
def homographs (lexicon : Lexicon) (surface : Text) (wordClass : WordClass) : List Entry :=
  lexicon.entries.filter fun entry =>
    entry.name = surface && (!entry.isHypothetical && entry.wordClass = wordClass)

/-- The spellings with their classes that have an entry, each once. -/
def forms (lexicon : Lexicon) : List (Text × WordClass) :=
  (lexicon.attested.map fun entry => (entry.name, entry.wordClass)).eraseDups

end Lexicon

end Klingon
