import Klingon.Lexicon
import Klingon.Template

/-!
# The templates of a lexicon

The headwords of the noun, verb and stative templates come from the lexicon. A derived word is a
headword only if it cannot be taken apart: the templates are built without the derived words
first, and those that none of them accepts are added.
-/

namespace Klingon

/-- The words found for a headword list: those that are headwords in any case, and those that may
have to be taken apart. -/
structure Candidates where
  primary : List Text := []
  derived : List Text := []
  deriving DecidableEq, Repr

namespace Candidates

/-- Adds a word, unless it is there. A derived word is also left out if it is primary. -/
def add (word : Text) (derived : Bool) (found : Candidates) : Candidates :=
  if word ∈ found.primary then found
  else if !derived then { found with primary := found.primary ++ [word] }
  else if word ∈ found.derived then found
  else { found with derived := found.derived ++ [word] }

/-- Makes headwords of the derived words that satisfy a condition. -/
def withDerived (found : Candidates) (condition : Text → Bool) : Candidates :=
  { found with primary := found.primary ++ found.derived.filter condition }

/-- Puts a word in front of the first one that is not longer. -/
def insertByLength (word : Text) : List Text → List Text
  | [] => [word]
  | first :: rest =>
    if first.length ≤ word.length then word :: first :: rest
    else first :: insertByLength word rest

/-- The headwords, longer ones first and words of one length in the order they were found. -/
def headwords (found : Candidates) : List Text :=
  found.primary.foldr insertByLength []

end Candidates

/-- The words found for the three headword lists that depend on the lexicon. -/
structure Vocabulary where
  verbs : Candidates := {}
  statives : Candidates := {}
  nouns : Candidates := {}
  deriving DecidableEq, Repr

namespace Vocabulary

/-- The vocabulary before any entry is read. -/
def seeds : Vocabulary :=
  { verbs := Affix.valueVerbs.foldl (fun found word => found.add word true) {}
    statives := Affix.valueVerbs.foldl (fun found word => found.add word false) {} }

/-- Adds the name of an entry to the lists it belongs to. Hypothetical words and affixes belong to
none. -/
def addEntry (found : Vocabulary) (entry : Entry) : Vocabulary :=
  if entry.isHypothetical || entry.isAffix then found
  else
    let derived := entry.hasTag "deriv" || entry.name ∈ Affix.valueVerbs
    match entry.wordClass with
    | .verb =>
      { found with
        verbs := found.verbs.add entry.name derived
        statives :=
          if entry.hasTag "is" then found.statives.add entry.name (entry.hasTag "deriv")
          else found.statives }
    | .noun => { found with nouns := found.nouns.add entry.name derived }
    | .other => found

def ofLexicon (lexicon : Lexicon) : Vocabulary :=
  lexicon.entries.foldl addEntry seeds

/-- The templates in the order in which words are tried on them. -/
def templates (found : Vocabulary) : List Template :=
  [ Template.noun found.nouns.headwords,
    Template.number,
    Template.pronounVerb,
    Template.verb found.verbs.headwords,
    Template.stativeVerb found.statives.headwords ]

def withDerived (found : Vocabulary) (condition : Text → Bool) : Vocabulary :=
  { verbs := found.verbs.withDerived condition
    statives := found.statives.withDerived condition
    nouns := found.nouns.withDerived condition }

end Vocabulary

namespace Lexicon

/-- The templates without the derived words. -/
def primaryTemplates (lexicon : Lexicon) : List Template :=
  (Vocabulary.ofLexicon lexicon).templates

/-- The templates of the lexicon. -/
def templates (lexicon : Lexicon) : List Template :=
  let first := lexicon.primaryTemplates
  ((Vocabulary.ofLexicon lexicon).withDerived fun word =>
    !Template.anyAccepts first word).templates

end Lexicon

end Klingon
