import Klingon.Proofs.Analyzer.Spelling

/-!
# The persons of verbs

The prefixes of the verb template and the rows of agreement are two tables. Every prefix has a row
where it marks the subject; where the subject is indefinite only some have one, and these are the
prefixes that the check of such verbs allows. A verb without persons is therefore ungrammatical.
-/

namespace Klingon

namespace Agreement

variable {row : Agreement} {dashed front : Text} {voice : Voice}

/-- Every row names a person for the subject and for the object. -/
theorem persons_ne_nil (h : find? dashed voice = some row) : row.subject ≠ [] ∧ row.object ≠ [] := by
  have htable : ∀ row ∈ rows, row.subject ≠ [] ∧ row.object ≠ [] := by decide
  exact htable row (List.mem_of_find?_eq_some h)

/-- The prefixes that have a row in a voice. -/
def dashedPrefixes (voice : Voice) : List Text :=
  (rows.filter (·.voice = voice)).map (·.dashed)

theorem isSome_find?_iff : (find? dashed voice).isSome = true ↔ dashed ∈ dashedPrefixes voice := by
  rw [find?, List.find?_isSome, dashedPrefixes, List.mem_map]
  constructor
  · rintro ⟨row, hrow, h⟩
    rw [Bool.and_eq_true, decide_eq_true_iff, decide_eq_true_iff] at h
    exact ⟨row, List.mem_filter.mpr ⟨hrow, decide_eq_true h.2⟩, h.1⟩
  · rintro ⟨row, hrow, rfl⟩
    obtain ⟨hmem, hvoice⟩ := List.mem_filter.mp hrow
    exact ⟨row, hmem, by rw [hvoice, Bool.and_true, decide_eq_true rfl]⟩

/-- Where the prefix marks the subject, every prefix of verbs has a row. -/
theorem isSome_find?_subject (h : front ∈ Affix.prefixes) :
    (find? (front ++ "-") .subject).isSome = true := by
  have htables : ∀ front ∈ Affix.prefixes, front ++ "-" ∈ dashedPrefixes .subject := by decide
  exact isSome_find?_iff.mpr (htables front h)

/-- Where the subject is indefinite, the prefixes that have a row are those that the check allows. -/
theorem isSome_find?_indefinite_iff : (find? dashed .indefinite).isSome = true ↔
    dashed = "-" ∨ dashed ∈ Analysis.indefinitePrefixes := by
  have htables : dashedPrefixes .indefinite ⊆ "-".toList :: Analysis.indefinitePrefixes ∧
      "-".toList :: Analysis.indefinitePrefixes ⊆ dashedPrefixes .indefinite := by
    decide
  rw [isSome_find?_iff, ← List.mem_cons]
  exact ⟨fun h => htables.1 h, fun h => htables.2 h⟩

end Agreement

namespace Analysis

variable {analysis : Analysis}

/-- Whether the subject is indefinite and the prefix is not one of those that go with it. -/
def PrefixClashes (analysis : Analysis) : Prop :=
  analysis.hasPart indefiniteSubject = true ∧
    ∃ dashed ∈ analysis.verbPrefix, dashed ∉ indefinitePrefixes

/-- Whether the prefix is one of the verb prefixes, if there is one. -/
def PrefixListed (analysis : Analysis) : Prop :=
  ∀ dashed ∈ analysis.verbPrefix, ∃ front ∈ Affix.prefixes, dashed = front ++ "-"

theorem PrefixClashes.isUngrammatical (h : analysis.PrefixClashes) :
    analysis.violation?.isSome = true := by
  obtain ⟨hpart, dashed, hdashed, hnot⟩ := h
  have hrefused : analysis.allowsPrefix indefinitePrefixes = false := by
    rw [allowsPrefix, hdashed, Option.all_some, decide_eq_false hnot]
  have hviolation : analysis.indefiniteViolation = some .indefinitePrefix := by
    rw [indefiniteViolation, hrefused, show analysis.hasPart "-lu':v" = true from hpart]
    rfl
  simp [violation?, hviolation]

/-- A verb that shows its row has the persons of the row. -/
theorem persons_of_row {row : Agreement}
    (hshown : (analysis.verbPrefix.isSome || analysis.voice = .indefinite) = true)
    (hrow : Agreement.find? (analysis.verbPrefix.getD "-") analysis.voice = some row) :
    analysis.verbFeatures.subjectPersons ≠ [] ∧ analysis.verbFeatures.objectPersons ≠ [] := by
  obtain ⟨hsubject, hobject⟩ := Agreement.persons_ne_nil hrow
  rw [verbFeatures, if_pos hshown, hrow]
  exact ⟨Ordered.ofList_ne_nil hsubject, Ordered.ofList_ne_nil hobject⟩

/-- A verb that has no row has no persons. -/
theorem persons_of_no_row
    (hshown : (analysis.verbPrefix.isSome || analysis.voice = .indefinite) = true)
    (hrow : Agreement.find? (analysis.verbPrefix.getD "-") analysis.voice = none) :
    analysis.verbFeatures.subjectPersons = [] ∧ analysis.verbFeatures.objectPersons = [] := by
  rw [verbFeatures, if_pos hshown, hrow]
  exact ⟨rfl, rfl⟩

/-- A verb has no row where the subject is indefinite exactly if its prefix clashes. -/
theorem isSome_find?_indefinite_iff (hlisted : analysis.PrefixListed)
    (hpart : analysis.hasPart indefiniteSubject = true) :
    (Agreement.find? (analysis.verbPrefix.getD "-") .indefinite).isSome = true ↔
      ¬ analysis.PrefixClashes := by
  rw [Agreement.isSome_find?_indefinite_iff]
  cases hbefore : analysis.verbPrefix with
  | none => simp [PrefixClashes, hbefore]
  | some dashed =>
    obtain ⟨front, hfront, rfl⟩ := hlisted dashed hbefore
    have hne : front ≠ [] := by
      rintro rfl
      exact absurd hfront (by decide)
    simp [PrefixClashes, hbefore, hpart, hne]

/-- A verb with a definite subject has persons: those of its prefix, or else those of its class. -/
theorem persons_of_definite (hlisted : analysis.PrefixListed)
    (hpart : ¬ analysis.hasPart indefiniteSubject = true) :
    analysis.verbFeatures.subjectPersons ≠ [] ∧ analysis.verbFeatures.objectPersons ≠ [] := by
  have hvoice : analysis.voice = .subject := if_neg hpart
  cases hbefore : analysis.verbPrefix with
  | none =>
    rw [verbFeatures, hbefore, hvoice, if_neg (by decide)]
    split <;> exact ⟨List.cons_ne_nil _ _, List.cons_ne_nil _ _⟩
  | some dashed =>
    obtain ⟨front, hfront, rfl⟩ := hlisted dashed hbefore
    obtain ⟨row, hrow⟩ := Option.isSome_iff_exists.mp (Agreement.isSome_find?_subject hfront)
    have hshown : (analysis.verbPrefix.isSome || analysis.voice = .indefinite) = true := by
      rw [hbefore]
      rfl
    have hfound : Agreement.find? (analysis.verbPrefix.getD "-") analysis.voice = some row := by
      rw [hbefore, hvoice]
      exact hrow
    exact persons_of_row hshown hfound

/-- A verb lacks a person exactly if its prefix clashes, and then it has none at all. -/
theorem persons_eq_nil_iff (hlisted : analysis.PrefixListed) :
    (analysis.verbFeatures.subjectPersons = [] ↔ analysis.PrefixClashes) ∧
      (analysis.verbFeatures.objectPersons = [] ↔ analysis.PrefixClashes) := by
  by_cases hpart : analysis.hasPart indefiniteSubject = true
  · have hvoice : analysis.voice = .indefinite := if_pos hpart
    have hshown : (analysis.verbPrefix.isSome || analysis.voice = .indefinite) = true := by
      rw [hvoice, decide_eq_true rfl, Bool.or_true]
    have hclash := isSome_find?_indefinite_iff hlisted hpart
    rw [← hvoice] at hclash
    cases hrow : Agreement.find? (analysis.verbPrefix.getD "-") analysis.voice with
    | none =>
      obtain ⟨hsubject, hobject⟩ := persons_of_no_row hshown hrow
      rw [hrow] at hclash
      have hclashes : analysis.PrefixClashes := by simpa using hclash
      exact ⟨iff_of_true hsubject hclashes, iff_of_true hobject hclashes⟩
    | some row =>
      obtain ⟨hsubject, hobject⟩ := persons_of_row hshown hrow
      rw [hrow] at hclash
      have hfree : ¬ analysis.PrefixClashes := hclash.mp rfl
      exact ⟨iff_of_false hsubject hfree, iff_of_false hobject hfree⟩
  · have hfree : ¬ analysis.PrefixClashes := fun h => hpart h.1
    obtain ⟨hsubject, hobject⟩ := persons_of_definite hlisted hpart
    exact ⟨iff_of_false hsubject hfree, iff_of_false hobject hfree⟩

/-- The persons of a verb phrase are those of the verb. -/
theorem phrase_of_role (h : analysis.derivedFeatures.role = .verbPhrase) :
    analysis.phrase = analysis.verbFeatures ∧ analysis.broad = .verb := by
  have hrole : analysis.phrase.role = .verbPhrase := h
  rw [phrase] at hrole ⊢
  cases hown : analysis.role with
  | nounPhrase =>
    rw [hown] at hrole
    cases hrole
  | other =>
    rw [hown] at hrole
    cases hrole
  | verbPhrase =>
    refine ⟨rfl, ?_⟩
    unfold role at hown
    split at hown
    · cases hown
    · assumption
    · cases hown

end Analysis

namespace Analyzer

variable {lexicon : Lexicon} {word : Text} {analysis : Analysis}

/-- Templates read no other prefixes than those of verbs. -/
theorem prefixListed_of_mem (hmem : analysis ∈ (ofLexicon lexicon).analyze word)
    (hclass : analysis.broad ≠ .other) : analysis.PrefixListed := by
  obtain ⟨kind, found, hfound, rfl⟩ := exists_contribution_of_mem hmem hclass
  obtain ⟨d, suffixes, chosen, hreading, _, _, rfl⟩ := exists_reading_of_mem hfound
  intro dashed hdashed
  change dashed ∈ (if d.front = [] then none else some (d.front ++ "-".toList)) at hdashed
  split at hdashed
  · cases hdashed
  · next hne =>
    cases hdashed
    have hfront := hreading.division.front
    rw [Lexicon.kind_template] at hfront
    have hfronts : kind.fronts ⊆ [] :: Affix.prefixes := by cases kind <;> decide
    exact ⟨d.front, (List.mem_cons.mp (hfronts hfront)).resolve_left hne, rfl⟩

/-- A verb phrase has neither a subject nor an object exactly if its subject is indefinite and its
prefix is not one of those that go with it; then it is ungrammatical. A verb phrase that is not
ungrammatical has persons for both. -/
theorem verbPhrase_persons (hmem : analysis ∈ (ofLexicon lexicon).analyze word) :
    ∃ features, analysis.features = some features ∧
      (features.role = .verbPhrase →
        (features.subjectPersons = [] ∧ features.objectPersons = [] ↔ analysis.PrefixClashes) ∧
        (analysis.PrefixClashes → analysis.isUngrammatical = true) ∧
        (analysis.isUngrammatical = false →
          features.subjectPersons ≠ [] ∧ features.objectPersons ≠ [])) := by
  have hcomplete : ∃ found, analysis = complete found := by
    rw [analyze_eq] at hmem
    obtain ⟨found, _, rfl⟩ := List.mem_map.mp hmem
    exact ⟨found, rfl⟩
  obtain ⟨found, rfl⟩ := hcomplete
  refine ⟨found.derivedFeatures, rfl, fun hrole => ?_⟩
  obtain ⟨hphrase, hverb⟩ := Analysis.phrase_of_role hrole
  have hclass : (complete found).broad ≠ .other := by
    show found.broad ≠ .other
    rw [hverb]
    decide
  have hlisted : found.PrefixListed :=
    show (complete found).PrefixListed from prefixListed_of_mem hmem hclass
  have hungrammatical : found.PrefixClashes → (complete found).isUngrammatical = true := by
    intro hclash
    show (found.violation?.map Violation.message).isSome = true
    rw [Option.isSome_map]
    exact hclash.isUngrammatical
  obtain ⟨hsubject, hobject⟩ := Analysis.persons_eq_nil_iff hlisted
  rw [← hphrase] at hsubject hobject
  refine ⟨?_, hungrammatical, fun hgrammatical => ?_⟩
  · show found.phrase.subjectPersons = [] ∧ found.phrase.objectPersons = [] ↔ found.PrefixClashes
    rw [hsubject, hobject, and_self]
  · have hfree : ¬ found.PrefixClashes := by
      intro hclash
      rw [hungrammatical hclash] at hgrammatical
      cases hgrammatical
    exact ⟨mt hsubject.mp hfree, mt hobject.mp hfree⟩

/-- A transitive verb. -/
def seeing : Lexicon :=
  .ofEntries [⟨"legh:v", "legh", "v:t_c", []⟩]

theorem verbPhrase_persons_seeing :
    ∃ analysis ∈ (ofLexicon seeing).analyze "qaleghlu'",
      analysis.features.map (·.role) = some .verbPhrase ∧ analysis.verbPrefix = some "qa-".toList ∧
        ∃ features, analysis.features = some features ∧
          (features.role = .verbPhrase →
            (features.subjectPersons = [] ∧ features.objectPersons = [] ↔ analysis.PrefixClashes) ∧
            (analysis.PrefixClashes → analysis.isUngrammatical = true) ∧
            (analysis.isUngrammatical = false →
              features.subjectPersons ≠ [] ∧ features.objectPersons ≠ [])) := by
  have hfound : ∃ analysis ∈ (ofLexicon seeing).analyze "qaleghlu'",
      analysis.features.map (·.role) = some .verbPhrase ∧
        analysis.verbPrefix = some "qa-".toList := by
    decide +kernel
  obtain ⟨analysis, hmem, hrole, hbefore⟩ := hfound
  exact ⟨analysis, hmem, hrole, hbefore, verbPhrase_persons hmem⟩

end Analyzer

end Klingon
