import Klingon.Ordered
import Klingon.Tag

/-!
# Part-of-speech strings

A dictionary entry states its part of speech as one string: a class, and after a colon tags
separated by commas, as in v:t_c,is. The tags decide the broad class and the fine tag of the
entry.
-/

namespace Klingon.PartOfSpeech

/-- The class before the first colon and what follows it. -/
def split (pos : Text) : Text × Text :=
  (pos.cut? ':').getD (pos, [])

/-- The class and every nonempty tag, in increasing order. -/
def tags (pos : Text) : List Text :=
  let (simple, rest) := split pos
  Ordered.ofList (simple :: (rest.splitOn ',').filter fun tag => !tag.isEmpty)

/-- Whether the string names the tag, as its class or between its commas. -/
def names (pos tag : Text) : Bool :=
  let (simple, rest) := split pos
  simple = tag || tag ∈ rest.splitOn ','

def wordClass (tags : List Text) : WordClass :=
  if "v".toList ∈ tags then .verb
  else if "n".toList ∈ tags then .noun
  else .other

/-- The question words and the pronoun that are not tagged as pronouns. -/
def pronounNames : List Text := ["'Iv", "nuq", "jIH"]

/-- The numerals from one to nine. -/
def numeralNames : List Text :=
  ["wa'", "cha'", "wej", "loS", "vagh", "jav", "Soch", "chorgh", "Hut"]

/-- The fine tag of an entry with the given name and tags. A verb is stative, transitive or
intransitive in this order of preference. -/
def fineTag (name : Text) (tags : List Text) : FineTag :=
  let has (tag : Text) : Bool := tag ∈ tags
  if has "v" && has "is" then .stativeVerb
  else if has "v" && (has "t" || has "t_c") then .transitiveVerb
  else if has "v" && (has "i" || has "i_c") then .intransitiveVerb
  else if has "ambi" then .ambitransitiveVerb
  else if has "v" then .verb
  else if has "n" && has "being" then .beingNoun
  else if has "n" && has "body" then .bodyPartNoun
  else if has "n" && (has "pro" || name ∈ pronounNames) then .pronoun
  else if has "n" && name ∈ numeralNames then .numeral
  else if has "n" then .noun
  else if has "adv" then .adverbial
  else if has "excl" then .exclamation
  else if has "conj" then .conjunction
  else if has "ques" then .questionWord
  else .unknown

end Klingon.PartOfSpeech
