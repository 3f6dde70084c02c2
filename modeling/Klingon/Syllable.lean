import Klingon.Letter

/-!
# Syllables

A syllable is a consonant, a vowel and a coda: nothing, one consonant, or one of the clusters
w', y' and rgh. So a consonant opens a syllable before a vowel, and after another consonant
unless the two close a syllable together.
-/

namespace Klingon.Syllable

open Letter (isVowel)

/-- The two consonants that may close a syllable together. -/
def isCluster : Letter → Letter → Bool
  | .w, .glottal | .y, .glottal | .r, .gh => true
  | _, _ => false

/-- Whether `letter`, standing after `previous` and before `next`, is the first of a syllable. -/
def opens (previous letter : Letter) (next : Option Letter) : Bool :=
  !isVowel letter &&
    (next.any isVowel || (!isVowel previous && !isCluster previous letter))

/-- Splits the letters that follow `previous`: the first part belongs to the syllable of
`previous`. -/
def splitAfter (previous : Letter) : List Letter → List Letter × List (List Letter)
  | [] => ([], [])
  | letter :: rest =>
    let (own, others) := splitAfter letter rest
    if opens previous letter rest.head? then ([], (letter :: own) :: others)
    else (letter :: own, others)

/-- The syllables of a word; a word without letters is one empty syllable. -/
def ofLetters : List Letter → List (List Letter)
  | [] => [[]]
  | letter :: rest =>
    let (own, others) := splitAfter letter rest
    (letter :: own) :: others

def ofText (word : Text) : List Text :=
  (ofLetters (Letter.ofText word)).map Letter.spell

end Klingon.Syllable
