import Klingon.Proofs.Analyzer.Contribution

/-!
# All analyses of a word

The analyses of a word are the contributions of the templates, in the order of the templates, and
the entries of the other classes that have the word as their name. No analysis is found twice: two
of one template differ in their entries, and two of different templates in their class or in the
positions of their suffixes.
-/

namespace Klingon.Analyzer

variable {lexicon : Lexicon} {kind : TemplateKind} {word : Text} {analysis other : Analysis}

/-- Pronouns are read as verbs if nothing was found before or the first analysis has more than one
part. -/
def ReadsPronouns (found : List Analysis) : Prop :=
  ∀ first ∈ found.head?, 1 < first.parts.length

instance (found : List Analysis) : Decidable (ReadsPronouns found) :=
  inferInstanceAs (Decidable (∀ first ∈ found.head?, 1 < first.parts.length))

/-- What is found of a word, in order. -/
def contributions (lexicon : Lexicon) (word : Text) : List Analysis :=
  let found := contribution lexicon .noun word ++ contribution lexicon .number word
  (found ++ if ReadsPronouns found then contribution lexicon .pronounVerb word else []) ++
    (contribution lexicon .verb word ++ contribution lexicon .stativeVerb word) ++
      (lexicon.homographs word .other).map (ofEntry word)

theorem readings_eq (lexicon : Lexicon) (word : Text) :
    (ofLexicon lexicon).readings word = contributions lexicon word := by
  have hnumber : ∀ found, isTried (lexicon.template .pronounVerb) found = true ↔
      ReadsPronouns found := by
    intro found
    rw [isTried, Lexicon.kind_template, ReadsPronouns]
    cases found.head? <;> simp
  have htried : ∀ kind found, kind ≠ .pronounVerb →
      isTried (lexicon.template kind) found = true := by
    intro kind found hne
    rw [isTried, Lexicon.kind_template, decide_eq_true hne]
    rfl
  show lexicon.templates.foldl
    (fun found template =>
      if isTried template found then found ++ byTemplate lexicon template word else found) [] ++
    (lexicon.homographs word .other).map (ofEntry word) = _
  rw [Lexicon.templates_eq]
  simp only [TemplateKind.all, List.map_cons, List.map_nil, List.foldl_cons, List.foldl_nil]
  simp only [htried .noun _ (by decide), htried .number _ (by decide), htried .verb _ (by decide),
    htried .stativeVerb _ (by decide), byTemplate_eq, hnumber, if_true, List.nil_append]
  rw [contributions]
  by_cases hpronouns : ReadsPronouns
      (contribution lexicon .noun word ++ contribution lexicon .number word)
  · simp [hpronouns]
  · simp [hpronouns]

/-! ## No analysis twice -/

/-- What tells analyses apart: their class, their entry and the positions of their suffixes. -/
def profile (analysis : Analysis) : WordClass × Text × List SuffixSlot :=
  (analysis.broad, analysis.entryId, slots analysis)

theorem broad_of_mem (h : analysis ∈ contribution lexicon kind word) :
    analysis.broad = kind.headwordClass := by
  obtain ⟨d, suffixes, chosen, _, _, _, rfl⟩ := exists_reading_of_mem h
  rfl

/-- Some entries of a lexicon, in its order, have different identifiers. -/
theorem nodup_ids {entries : List Entry} (h : entries.Sublist lexicon.entries) :
    (entries.map (·.id)).Nodup :=
  (h.map _).nodup lexicon.distinct

theorem nodup_entriesOf (lexicon : Lexicon) (kind : TemplateKind) (headword : Text) :
    ((entriesOf lexicon kind headword).map fun chosen => (chosen.map (·.id)).getD ("?" : Text)).Nodup := by
  unfold entriesOf
  split
  · exact List.nodup_singleton _
  · rw [List.map_map]
    exact nodup_ids (List.filter_sublist.trans List.filter_sublist)

theorem nodup_contribution (lexicon : Lexicon) (kind : TemplateKind) (word : Text) :
    ((contribution lexicon kind word).map profile).Nodup := by
  refine List.Nodup.of_map (·.2.1) ?_
  rw [List.map_map]
  rcases hfound : contribution lexicon kind word with _ | ⟨first, rest⟩
  · exact List.nodup_nil
  · obtain ⟨d, suffixes, chosen, _, _, heq, _⟩ :=
      exists_reading_of_mem (hfound ▸ List.mem_cons_self : first ∈ contribution lexicon kind word)
    rw [← hfound, heq, List.map_map]
    exact nodup_entriesOf lexicon kind d.headword

theorem nodup_others (lexicon : Lexicon) (word : Text) :
    (((lexicon.homographs word .other).map (ofEntry word)).map profile).Nodup := by
  refine List.Nodup.of_map (·.2.1) ?_
  rw [List.map_map, List.map_map]
  exact nodup_ids List.filter_sublist

/-- Suffixes in positions of which none is shared are not the same. -/
theorem slots_ne_of_disjoint {allowed allowed' : List SuffixSlot} (h : slots analysis ⊆ allowed)
    (hother : slots other ⊆ allowed') (hdisjoint : ∀ slot ∈ allowed, slot ∉ allowed')
    (hne : slots analysis ≠ []) : slots analysis ≠ slots other := by
  intro heq
  obtain ⟨slot, hslot⟩ := List.exists_mem_of_ne_nil _ hne
  exact hdisjoint slot (h hslot) (hother (heq ▸ hslot))

/-- Nouns and number words have different suffixes. -/
theorem slots_ne_of_noun_of_number (h : analysis ∈ contribution lexicon .noun word)
    (hother : other ∈ contribution lexicon .number word) : slots analysis ≠ slots other := by
  obtain ⟨hsubset, hne⟩ := slots_number hother
  exact (slots_ne_of_disjoint hsubset (slots_noun h) (by decide) hne).symm

/-- A noun that has suffixes does not have those of a verb. -/
theorem slots_ne_of_noun_of_pronounVerb (hfound : slots analysis ≠ [])
    (h : analysis ∈ contribution lexicon .noun word)
    (hother : other ∈ contribution lexicon .pronounVerb word) : slots analysis ≠ slots other := by
  intro heq
  have hnouns := slots_noun h
  have hnot : SuffixSlot.v9 ∉ slots other := by
    intro hin
    exact absurd (hnouns (heq ▸ hin)) (by decide)
  exact slots_ne_of_disjoint hnouns ((slots_verb rfl hother).2 hnot) (by decide) hfound heq

theorem slots_ne_of_number_of_pronounVerb (h : analysis ∈ contribution lexicon .number word)
    (hother : other ∈ contribution lexicon .pronounVerb word) : slots analysis ≠ slots other := by
  obtain ⟨hsubset, hne⟩ := slots_number h
  exact slots_ne_of_disjoint hsubset (slots_verb rfl hother).1 (by decide) hne

theorem slots_ne_of_verb_of_stativeVerb (h : analysis ∈ contribution lexicon .verb word)
    (hother : other ∈ contribution lexicon .stativeVerb word) : slots analysis ≠ slots other := by
  intro heq
  obtain ⟨hsubset, hcase⟩ := slots_stativeVerb hother
  have hnot : SuffixSlot.v9 ∉ slots analysis := by
    intro hin
    exact absurd (hsubset (heq ▸ hin)) (by decide)
  exact absurd ((slots_verb rfl h).2 hnot (heq ▸ hcase)) (by decide)

/-- If pronouns are read as verbs, the nouns that were found have suffixes. -/
theorem slots_ne_nil_of_readsPronouns {rest : List Analysis}
    (hreads : ReadsPronouns (contribution lexicon .noun word ++ rest))
    (h : analysis ∈ contribution lexicon .noun word) : slots analysis ≠ [] := by
  obtain ⟨d, suffixes, chosen, hreading, _, heq, rfl⟩ := exists_reading_of_mem h
  have hfront : d.front = [] := by simpa [TemplateKind.fronts] using hreading.division.front
  have hattached : attachments .noun suffixes ≠ [] := by
    intro hnil
    rcases hentries : entriesOf lexicon .noun d.headword with _ | ⟨first, entries⟩
    · rw [heq, hentries] at h
      exact absurd h List.not_mem_nil
    · have hlength := hreads _ (by rw [heq, hentries]; rfl)
      rw [hfront, show TemplateKind.noun.inflectionClass = .noun from rfl, hnil] at hlength
      simp only [Analysis.ofPieces, if_true, List.map_nil, List.append_nil, List.nil_append]
        at hlength
      split at hlength
      · exact absurd hlength (by decide)
      · exact absurd hlength (by simp)
  obtain ⟨a, ha⟩ := List.exists_mem_of_ne_nil _ hattached
  exact List.ne_nil_of_mem (mem_slots_ofPieces.mpr (List.mem_map_of_mem ha))

theorem profile_ne_of_slots_ne (h : slots analysis ≠ slots other) : profile analysis ≠ profile other :=
  fun heq => h (Prod.mk.inj (Prod.mk.inj heq).2).2

theorem profile_ne_of_broad_ne (h : analysis.broad ≠ other.broad) : profile analysis ≠ profile other :=
  fun heq => h (Prod.mk.inj heq).1

theorem nodup_profiles_append {front back : List Analysis} (hfront : (front.map profile).Nodup)
    (hback : (back.map profile).Nodup) (hne : ∀ a ∈ front, ∀ b ∈ back, profile a ≠ profile b) :
    ((front ++ back).map profile).Nodup := by
  rw [List.map_append, List.nodup_append]
  refine ⟨hfront, hback, fun p hp q hq => ?_⟩
  obtain ⟨a, ha, rfl⟩ := List.mem_map.mp hp
  obtain ⟨b, hb, rfl⟩ := List.mem_map.mp hq
  exact hne a ha b hb

/-- The pronouns that are read as verbs after what was found. -/
def pronounsAfter (lexicon : Lexicon) (word : Text) (found : List Analysis) : List Analysis :=
  if ReadsPronouns found then contribution lexicon .pronounVerb word else []

theorem mem_pronounsAfter {found : List Analysis} (h : analysis ∈ pronounsAfter lexicon word found) :
    ReadsPronouns found ∧ analysis ∈ contribution lexicon .pronounVerb word := by
  rw [pronounsAfter] at h
  split at h
  · exact ⟨‹_›, h⟩
  · exact absurd h List.not_mem_nil

/-- What is found of a word in the class of nouns. -/
def nounFindings (lexicon : Lexicon) (word : Text) : List Analysis :=
  let found := contribution lexicon .noun word ++ contribution lexicon .number word
  found ++ pronounsAfter lexicon word found

/-- What is found of a word in the class of verbs. -/
def verbFindings (lexicon : Lexicon) (word : Text) : List Analysis :=
  contribution lexicon .verb word ++ contribution lexicon .stativeVerb word

theorem contributions_eq (lexicon : Lexicon) (word : Text) :
    contributions lexicon word = (nounFindings lexicon word ++ verbFindings lexicon word) ++
      (lexicon.homographs word .other).map (ofEntry word) := rfl

theorem exists_kind_of_mem_nounFindings (h : analysis ∈ nounFindings lexicon word) :
    ∃ kind : TemplateKind, kind.headwordClass = .noun ∧ analysis ∈ contribution lexicon kind word := by
  rcases List.mem_append.mp h with h | h
  · rcases List.mem_append.mp h with h | h
    · exact ⟨.noun, rfl, h⟩
    · exact ⟨.number, rfl, h⟩
  · exact ⟨.pronounVerb, rfl, (mem_pronounsAfter h).2⟩

theorem exists_kind_of_mem_verbFindings (h : analysis ∈ verbFindings lexicon word) :
    ∃ kind : TemplateKind, kind.headwordClass = .verb ∧ analysis ∈ contribution lexicon kind word := by
  rcases List.mem_append.mp h with h | h
  · exact ⟨.verb, rfl, h⟩
  · exact ⟨.stativeVerb, rfl, h⟩

theorem broad_of_mem_nounFindings (h : analysis ∈ nounFindings lexicon word) :
    analysis.broad = .noun := by
  obtain ⟨kind, hclass, h⟩ := exists_kind_of_mem_nounFindings h
  exact (broad_of_mem h).trans hclass

theorem broad_of_mem_verbFindings (h : analysis ∈ verbFindings lexicon word) :
    analysis.broad = .verb := by
  obtain ⟨kind, hclass, h⟩ := exists_kind_of_mem_verbFindings h
  exact (broad_of_mem h).trans hclass

theorem broad_of_mem_others
    (h : analysis ∈ (lexicon.homographs word .other).map (ofEntry word)) :
    analysis.broad = .other := by
  obtain ⟨entry, _, rfl⟩ := List.mem_map.mp h
  rfl

theorem nodup_nounFindings (lexicon : Lexicon) (word : Text) :
    ((nounFindings lexicon word).map profile).Nodup := by
  refine nodup_profiles_append (nodup_profiles_append ?nouns ?numbers ?noCommon) ?pronouns ?noPronoun
  case nouns => exact nodup_contribution lexicon .noun word
  case numbers => exact nodup_contribution lexicon .number word
  case noCommon =>
    exact fun a ha b hb => profile_ne_of_slots_ne (slots_ne_of_noun_of_number ha hb)
  case pronouns =>
    rw [pronounsAfter]
    split
    · exact nodup_contribution lexicon .pronounVerb word
    · exact List.nodup_nil
  case noPronoun =>
    intro a ha b hb
    obtain ⟨hreads, hb⟩ := mem_pronounsAfter hb
    refine profile_ne_of_slots_ne ?_
    rcases List.mem_append.mp ha with ha | ha
    · exact slots_ne_of_noun_of_pronounVerb (slots_ne_nil_of_readsPronouns hreads ha) ha hb
    · exact slots_ne_of_number_of_pronounVerb ha hb

theorem nodup_verbFindings (lexicon : Lexicon) (word : Text) :
    ((verbFindings lexicon word).map profile).Nodup :=
  nodup_profiles_append (nodup_contribution lexicon .verb word)
    (nodup_contribution lexicon .stativeVerb word)
    fun _ ha _ hb => profile_ne_of_slots_ne (slots_ne_of_verb_of_stativeVerb ha hb)

/-- No two analyses that are found have the same profile. -/
theorem nodup_contributions (lexicon : Lexicon) (word : Text) :
    ((contributions lexicon word).map profile).Nodup := by
  rw [contributions_eq]
  refine nodup_profiles_append (nodup_profiles_append (nodup_nounFindings lexicon word)
    (nodup_verbFindings lexicon word) ?_) (nodup_others lexicon word) ?_
  · intro a ha b hb
    refine profile_ne_of_broad_ne ?_
    rw [broad_of_mem_nounFindings ha, broad_of_mem_verbFindings hb]
    decide
  · intro a ha b hb
    refine profile_ne_of_broad_ne ?_
    rw [broad_of_mem_others hb]
    rcases List.mem_append.mp ha with ha | ha
    · rw [broad_of_mem_nounFindings ha]
      decide
    · rw [broad_of_mem_verbFindings ha]
      decide

/-- A list without repetition is kept as it is. -/
theorem eraseDups_of_nodup {analyses : List Analysis} (h : analyses.Nodup) :
    analyses.eraseDups = analyses := by
  induction analyses with
  | nil => rfl
  | cons first rest ih =>
    obtain ⟨hfirst, hrest⟩ := List.nodup_cons.mp h
    have hfilter : rest.filter (fun a => !a == first) = rest := by
      rw [List.filter_eq_self]
      intro a ha
      have hne : a ≠ first := fun heq => hfirst (heq ▸ ha)
      simpa using hne
    rw [List.eraseDups_cons, hfilter, ih hrest]

theorem nodup_complete (lexicon : Lexicon) (word : Text) :
    ((contributions lexicon word).map complete).Nodup := by
  refine List.Nodup.of_map profile ?_
  rw [List.map_map]
  exact nodup_contributions lexicon word

theorem analyze_eq (lexicon : Lexicon) (word : Text) :
    (ofLexicon lexicon).analyze word = (contributions lexicon word).map complete := by
  rw [analyze, readings_eq, eraseDups_of_nodup (nodup_complete lexicon word)]

/-- An analysis of a word is one that was found, completed. -/
theorem mem_analyze : analysis ∈ (ofLexicon lexicon).analyze word ↔
    ∃ found ∈ contributions lexicon word, complete found = analysis := by
  rw [analyze_eq, List.mem_map]

/-- The analyses of a word are the contributions of the templates in their order, and those of the
other entries. Leaving out what was found before leaves out nothing. -/
theorem analyze_keeps_contributions (lexicon : Lexicon) (word : Text) :
    (ofLexicon lexicon).analyze word = (contributions lexicon word).map complete ∧
      (ofLexicon lexicon).analyze word = ((ofLexicon lexicon).readings word).map complete ∧
      ((ofLexicon lexicon).analyze word).Nodup := by
  rw [analyze_eq, readings_eq]
  exact ⟨rfl, rfl, nodup_complete lexicon word⟩

end Klingon.Analyzer
