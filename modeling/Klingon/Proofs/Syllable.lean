import Klingon.Syllable
import Klingon.Proofs.Letter

/-!
# Syllables of a word

The syllables of a word take up its letters, and none of them is empty unless there are no letters.
Where a syllable opens is decided by the letters next to it. In a word that is made of a consonant, a
vowel and a coda again and again this finds exactly these parts: the letter behind an opening
consonant is a vowel, and no letter of a coda has a vowel behind it or is kept apart from the one
before it.
-/

namespace Klingon.Syllable

open Letter (isVowel spell)

/-- What may follow the vowel of a syllable: nothing, a consonant, w', y' or rgh. -/
inductive IsCoda : List Letter → Prop
  | empty : IsCoda []
  | consonant {letter : Letter} (h : isVowel letter = false) : IsCoda [letter]
  | wGlottal : IsCoda [.w, .glottal]
  | yGlottal : IsCoda [.y, .glottal]
  | rgh : IsCoda [.r, .gh]

/-- A consonant, a vowel and a coda. -/
inductive IsSyllable : List Letter → Prop
  | intro {onset vowel : Letter} {coda : List Letter} (honset : isVowel onset = false)
      (hvowel : isVowel vowel = true) (hcoda : IsCoda coda) : IsSyllable (onset :: vowel :: coda)

variable {previous letter onset vowel : Letter} {next : Option Letter}
  {letters coda rest : List Letter} {syllables : List (List Letter)}

/-! ## One letter -/

theorem splitAfter_opening (h : opens previous letter rest.head? = true) :
    splitAfter previous (letter :: rest) =
      ([], (letter :: (splitAfter letter rest).1) :: (splitAfter letter rest).2) :=
  if_pos h

theorem splitAfter_inside (h : opens previous letter rest.head? = false) :
    splitAfter previous (letter :: rest) =
      (letter :: (splitAfter letter rest).1, (splitAfter letter rest).2) :=
  if_neg (Bool.eq_false_iff.mp h)

theorem opens_vowel (h : isVowel vowel = true) : opens previous vowel next = false := by
  simp [opens, h]

theorem opens_before_vowel (honset : isVowel onset = false) (h : isVowel vowel = true) :
    opens previous onset (some vowel) = true := by
  simp [opens, honset, h]

theorem opens_behind_vowel (h : isVowel vowel = true) (hnext : next.any isVowel = false) :
    opens vowel letter next = false := by
  simp [opens, h, hnext]

theorem opens_behind_cluster (h : isCluster previous letter = true)
    (hnext : next.any isVowel = false) : opens previous letter next = false := by
  simp [opens, h, hnext]

/-! ## The letters of the syllables -/

theorem flatten_splitAfter (previous : Letter) (letters : List Letter) :
    (splitAfter previous letters).1 ++ (splitAfter previous letters).2.flatten = letters := by
  induction letters generalizing previous with
  | nil => rfl
  | cons letter rest ih =>
    cases h : opens previous letter rest.head? with
    | true =>
      rw [splitAfter_opening h, List.nil_append, List.flatten_cons, List.cons_append, ih]
    | false => rw [splitAfter_inside h, List.cons_append, ih]

theorem nil_not_mem_splitAfter (previous : Letter) (letters : List Letter) :
    [] ∉ (splitAfter previous letters).2 := by
  induction letters generalizing previous with
  | nil => exact List.not_mem_nil
  | cons letter rest ih =>
    cases h : opens previous letter rest.head? with
    | true =>
      rw [splitAfter_opening h]
      exact List.not_mem_cons_of_ne_of_not_mem (List.cons_ne_nil _ _).symm (ih letter)
    | false =>
      rw [splitAfter_inside h]
      exact ih letter

theorem ofLetters_cons (letter : Letter) (rest : List Letter) :
    ofLetters (letter :: rest) =
      (letter :: (splitAfter letter rest).1) :: (splitAfter letter rest).2 :=
  rfl

/-- The first letter of a word opens a syllable, like one that opens a syllable within it. -/
theorem ofLetters_eq_splitAfter (previous : Letter) (h : opens previous letter rest.head? = true) :
    ofLetters (letter :: rest) = (splitAfter previous (letter :: rest)).2 := by
  rw [splitAfter_opening h, ofLetters_cons]

theorem flatten_ofLetters (letters : List Letter) : (ofLetters letters).flatten = letters := by
  cases letters with
  | nil => rfl
  | cons letter rest =>
    rw [ofLetters_cons, List.flatten_cons, List.cons_append, flatten_splitAfter]

theorem nil_mem_ofLetters_iff : [] ∈ ofLetters letters ↔ letters = [] := by
  cases letters with
  | nil => exact iff_of_true List.mem_cons_self rfl
  | cons letter rest =>
    refine iff_of_false ?_ (List.cons_ne_nil letter rest)
    exact List.not_mem_cons_of_ne_of_not_mem (List.cons_ne_nil _ _).symm
      (nil_not_mem_splitAfter letter rest)

/-! ## Well-formed syllables -/

/-- A coda belongs to the vowel before it as a whole if no vowel follows it. -/
theorem splitAfter_coda (hvowel : isVowel vowel = true) (hcoda : IsCoda coda)
    (hnext : rest.head?.any isVowel = false)
    (hrest : ∀ previous, splitAfter previous rest = ([], syllables)) :
    splitAfter vowel (coda ++ rest) = (coda, syllables) := by
  have hcluster : ∀ first second, isVowel second = false → isCluster first second = true →
      splitAfter vowel (first :: second :: rest) = ([first, second], syllables) := by
    intro first second hsecond h
    have hfirst : opens vowel first (some second) = false := opens_behind_vowel hvowel hsecond
    rw [splitAfter_inside hfirst,
      splitAfter_inside (opens_behind_cluster h hnext), hrest]
  cases hcoda with
  | empty => exact hrest vowel
  | consonant h =>
    rw [List.singleton_append, splitAfter_inside (opens_behind_vowel hvowel hnext), hrest]
  | wGlottal => exact hcluster .w .glottal rfl rfl
  | yGlottal => exact hcluster .y .glottal rfl rfl
  | rgh => exact hcluster .r .gh rfl rfl

theorem any_head?_flatten (h : ∀ syllable ∈ syllables, IsSyllable syllable) :
    syllables.flatten.head?.any isVowel = false := by
  cases syllables with
  | nil => rfl
  | cons syllable rest =>
    obtain ⟨honset, _, _⟩ := h syllable List.mem_cons_self
    exact honset

/-- Whatever letter stands before them, well-formed syllables are kept apart from it and from one
another. -/
theorem splitAfter_flatten (h : ∀ syllable ∈ syllables, IsSyllable syllable) (previous : Letter) :
    splitAfter previous syllables.flatten = ([], syllables) := by
  induction syllables generalizing previous with
  | nil => rfl
  | cons syllable rest ih =>
    have hrest : ∀ syllable ∈ rest, IsSyllable syllable :=
      fun other hother => h other (List.mem_cons_of_mem _ hother)
    obtain ⟨honset, hvowel, hcoda⟩ := h syllable List.mem_cons_self
    rw [List.flatten_cons, List.cons_append, List.cons_append,
      splitAfter_opening (opens_before_vowel honset hvowel),
      splitAfter_inside (opens_vowel hvowel),
      splitAfter_coda hvowel hcoda (any_head?_flatten hrest) (ih hrest)]

theorem ofLetters_flatten (h : ∀ syllable ∈ syllables, IsSyllable syllable)
    (hne : syllables ≠ []) : ofLetters syllables.flatten = syllables := by
  have hsplit : ∀ previous, splitAfter previous syllables.flatten = ([], syllables) :=
    splitAfter_flatten h
  cases syllables with
  | nil => exact absurd rfl hne
  | cons syllable rest =>
    obtain @⟨onset, _, _, honset, hvowel, _⟩ := h syllable List.mem_cons_self
    rw [List.flatten_cons, List.cons_append, List.cons_append] at hsplit ⊢
    rw [ofLetters_eq_splitAfter onset (opens_before_vowel honset hvowel), hsplit]

/-! ## The syllables of a text -/

theorem spell_flatten (syllables : List (List Letter)) :
    spell syllables.flatten = (syllables.map spell).flatten := by
  induction syllables with
  | nil => rfl
  | cons syllable rest ih =>
    rw [List.flatten_cons, Letter.spell_append, ih, List.map_cons, List.flatten_cons]

theorem nil_mem_map_spell_iff : [] ∈ syllables.map spell ↔ [] ∈ syllables := by
  rw [List.mem_map]
  constructor
  · intro ⟨syllable, hmem, hspell⟩
    rwa [Letter.spell_eq_nil_iff.mp hspell] at hmem
  · exact fun hmem => ⟨[], hmem, rfl⟩

/-- The syllables of a text spell its letters, and none is empty unless it has no letters. A text whose
letters are those of well-formed syllables, one at least, has exactly these syllables. -/
theorem syllables_of_text (text : Text) :
    (ofText text).flatten = spell (Letter.ofText text) ∧
    ([] ∈ ofText text ↔ Letter.ofText text = []) ∧
    ∀ syllables : List (List Letter), syllables ≠ [] →
      (∀ syllable ∈ syllables, IsSyllable syllable) →
      Letter.ofText text = syllables.flatten → ofText text = syllables.map spell := by
  refine ⟨?_, ?_, ?_⟩
  · rw [ofText, ← spell_flatten, flatten_ofLetters]
  · rw [ofText, nil_mem_map_spell_iff, nil_mem_ofLetters_iff]
  · intro syllables hne h hletters
    rw [ofText, hletters, ofLetters_flatten h hne]

/-- The syllables of a word in which r and gh close one syllable together and stand in two others
apart. -/
def eightTimes : List (List Letter) :=
  [[.ch, .o, .r, .gh], [.l, .o, .gh], [.H, .u, .D], [.D, .a, .r], [.gh, .a, .y, .glottal]]

theorem syllables_of_text_eightTimes :
    eightTimes ≠ [] ∧ (∀ syllable ∈ eightTimes, IsSyllable syllable) ∧
      Letter.ofText "chorghloghHuDDarghay'" = eightTimes.flatten ∧
      ofText "chorghloghHuDDarghay'" = ["chorgh", "logh", "HuD", "Dar", "ghay'"] := by
  have hsyllables : ∀ syllable ∈ eightTimes, IsSyllable syllable := by
    simp only [eightTimes, List.forall_mem_cons]
    exact ⟨.intro rfl rfl .rgh, .intro rfl rfl (.consonant rfl), .intro rfl rfl (.consonant rfl),
      .intro rfl rfl (.consonant rfl), .intro rfl rfl .yGlottal, nofun⟩
  have hletters : Letter.ofText "chorghloghHuDDarghay'" = eightTimes.flatten := by decide
  exact ⟨by decide, hsyllables, hletters,
    (syllables_of_text _).2.2 eightTimes (by decide) hsyllables hletters⟩

/-- A text without letters is made of no syllables, but has one. -/
theorem syllables_of_no_letters :
    (∀ syllable ∈ ([] : List (List Letter)), IsSyllable syllable) ∧
      Letter.ofText [] = ([] : List (List Letter)).flatten ∧
      ofText [] ≠ ([] : List (List Letter)).map spell :=
  ⟨nofun, rfl, by decide⟩

end Klingon.Syllable
