import Klingon.Proofs.Analyzer.Readings

/-!
# The analyses of headwords

A word on the headword list of its class is read as itself. A derived word is not on the list if
some template accepts it without the derived words; whether that template also analyzes the word is
not asked, so the word may be left without any analysis.
-/

namespace Klingon

namespace TemplateKind

/-- The kind of template whose headwords are the words of a class. -/
def ofClass? : WordClass → Option TemplateKind
  | .noun => some .noun
  | .verb => some .verb
  | .other => none

variable {kind : TemplateKind} {wordClass : WordClass}

theorem headwordClass_of_ofClass? (h : ofClass? wordClass = some kind) :
    kind.headwordClass = wordClass := by
  cases wordClass <;> cases h <;> rfl

theorem requiredTag_of_ofClass? (h : ofClass? wordClass = some kind) :
    kind.requiredTag = none := by
  cases wordClass <;> cases h <;> rfl

/-- Nouns and verbs need no suffix. -/
theorem isDivision_self {isHeadword : Text → Prop} {word : Text}
    (h : ofClass? wordClass = some kind) (hheadword : isHeadword word) :
    kind.IsDivision isHeadword word ⟨[], word, []⟩ where
  front := by cases wordClass <;> cases h <;> exact List.mem_cons_self
  headword := hheadword
  word := (List.append_nil word).symm
  tail := by
    rw [isInflection_iff, ← Ending.isSome_read?_iff]
    show (kind.ending.read? []).isSome = true
    cases wordClass <;> cases h <;> decide +kernel

theorem idxOf_nil_fronts (kind : TemplateKind) : kind.fronts.idxOf [] = 0 := by
  cases kind <;> rfl

end TemplateKind

namespace Lexicon

variable {lexicon : Lexicon} {kind : TemplateKind} {wordClass : WordClass} {word : Text}
  {entry : Entry}

/-- A headword is read as itself: it is the longest headword, and there is no prefix before it. -/
theorem IsHeadword.reading (h : lexicon.IsHeadword kind word)
    (hclass : TemplateKind.ofClass? wordClass = some kind) :
    lexicon.Reading kind word ⟨[], word, []⟩ [] := by
  have hdivision : kind.IsDivision (lexicon.IsHeadword kind) word ⟨[], word, []⟩ :=
    TemplateKind.isDivision_self hclass h
  obtain ⟨d, suffixes, hreading⟩ := exists_reading (accepts_template_iff.mpr ⟨_, hdivision⟩)
  have hd : ⟨[], word, []⟩ = d := by
    have hfirst := hreading.first ⟨[], word, []⟩
    rw [kind_template] at hfirst
    rcases hfirst hdivision with heq | hfront | ⟨_, hlength⟩
    · exact heq
    · rw [TemplateKind.idxOf_nil_fronts] at hfront
      exact absurd hfront (Nat.not_lt_zero _)
    · have hword := congrArg List.length hreading.division.word
      rw [List.length_append, List.length_append] at hword
      dsimp only at hlength
      omega
  subst hd
  cases hreading.suffixes_eq_nil rfl
  exact hreading

/-- A word is held back if it is no headword in any case and a template accepts it whose headwords
are the others. -/
def IsHeldBack (lexicon : Lexicon) (kind : TemplateKind) (word : Text) : Prop :=
  ¬ lexicon.IsPrimaryHeadword kind word ∧
    ∃ template ∈ lexicon.primaryTemplates, template.accepts word = true

/-- A word that is offered to a list is on it, or it is derived and accepted without the derived
words. -/
theorem isListed_or_accepted (list : HeadwordList)
    (h : lexicon.IsPrimary list word ∨ lexicon.IsDerivedWord list word) :
    lexicon.IsListed list word ∨ ¬ lexicon.IsPrimary list word ∧
      ∃ template ∈ lexicon.primaryTemplates, template.accepts word = true := by
  by_cases hprimary : lexicon.IsPrimary list word
  · exact .inl (.inl hprimary)
  · by_cases haccepts : ∃ template ∈ lexicon.primaryTemplates, template.accepts word = true
    · exact .inr ⟨hprimary, haccepts⟩
    · refine .inl (.inr ⟨h.resolve_left hprimary, fun template htemplate => ?_⟩)
      exact Bool.eq_false_iff.mpr fun h => haccepts ⟨template, htemplate, h⟩

/-- An ordinary entry is a headword of its class unless it is held back. -/
theorem isHeadword_or_isHeldBack (hmem : entry ∈ lexicon.entries) (hordinary : entry.IsOrdinary)
    (hclass : TemplateKind.ofClass? entry.wordClass = some kind) :
    lexicon.IsHeadword kind entry.name ∨ lexicon.IsHeldBack kind entry.name := by
  cases hword : entry.wordClass with
  | noun =>
    rw [hword] at hclass
    cases hclass
    refine isListed_or_accepted .nouns ?_
    by_cases hderived : entry.IsDerived
    · exact .inr ⟨entry, hmem, hordinary, hword, hderived, rfl⟩
    · exact .inl ⟨entry, hmem, hordinary, hword, hderived, rfl⟩
  | verb =>
    rw [hword] at hclass
    cases hclass
    refine isListed_or_accepted .verbs ?_
    by_cases hderived : entry.IsDerived
    · exact .inr (.inr ⟨entry, hmem, hordinary, hword, hderived, rfl⟩)
    · exact .inl ⟨entry, hmem, hordinary, hword, hderived, rfl⟩
  | other =>
    rw [hword] at hclass
    cases hclass

end Lexicon

namespace Analyzer

variable {lexicon : Lexicon} {kind : TemplateKind} {word : Text} {entry : Entry}

theorem entriesOf_eq_nil_iff {headword : Text} : entriesOf lexicon kind headword = [] ↔
    headword ≠ [] ∧ lexicon.homographs headword kind.headwordClass ≠ [] ∧
      ∀ entry ∈ lexicon.homographs headword kind.headwordClass,
        kind.requiredTag.all entry.hasTag = false := by
  unfold entriesOf
  split
  · next hnone =>
    constructor
    · intro h
      cases h
    · rintro ⟨hne, hhomographs, _⟩
      exact absurd hnone (not_or.mpr ⟨hne, hhomographs⟩)
  · next hsome =>
    obtain ⟨hne, hhomographs⟩ := not_or.mp hsome
    rw [List.map_eq_nil_iff, List.filter_eq_nil_iff]
    simp only [Bool.not_eq_true]
    exact ⟨fun h => ⟨hne, hhomographs, h⟩, fun h => h.2.2⟩

theorem contribution_eq_nil_iff : contribution lexicon kind word = [] ↔
    ∀ captures, (lexicon.template kind).captures? word = some captures → IsEuphonic [] captures →
      entriesOf lexicon kind (Capture.textOf .headword captures) = [] := by
  unfold contribution
  cases (lexicon.template kind).captures? word with
  | none => simp
  | some captures =>
    by_cases heuphonic : IsEuphonic [] captures
    · simp [heuphonic]
    · simp [heuphonic]

/-- A word has no analysis if no template contributes one and no other entry has this name. -/
theorem analyze_eq_nil_iff : (ofLexicon lexicon).analyze word = [] ↔
    (∀ kind, contribution lexicon kind word = []) ∧ lexicon.homographs word .other = [] := by
  have hreads : ReadsPronouns [] := fun first hfirst => absurd hfirst (Option.not_mem_none first)
  rw [analyze_eq, contributions, List.map_eq_nil_iff]
  constructor
  · intro h
    obtain ⟨hfound, hothers⟩ := List.append_eq_nil_iff.mp h
    obtain ⟨hnouns, hverbs⟩ := List.append_eq_nil_iff.mp hfound
    obtain ⟨hbefore, hpronouns⟩ := List.append_eq_nil_iff.mp hnouns
    rw [hbefore, if_pos hreads] at hpronouns
    refine ⟨fun kind => ?_, List.map_eq_nil_iff.mp hothers⟩
    cases kind with
    | noun => exact (List.append_eq_nil_iff.mp hbefore).1
    | number => exact (List.append_eq_nil_iff.mp hbefore).2
    | pronounVerb => exact hpronouns
    | verb => exact (List.append_eq_nil_iff.mp hverbs).1
    | stativeVerb => exact (List.append_eq_nil_iff.mp hverbs).2
  · rintro ⟨hkinds, hothers⟩
    simp [hkinds, hothers]

/-- A word that is nothing but a headword is euphonic. -/
theorem isEuphonic_headword (word : Text) :
    IsEuphonic [] (Capture.ofPieces 0 (Template.piecesOf ⟨[], word, []⟩ [])) := by
  rw [← isEuphonic_iff]
  by_cases hname : word = [] <;> simp [Template.piecesOf, Capture.ofPieces, isEuphonic, hname]

/-- The word of a headword is analyzed with each of its entries. -/
theorem contribution_headword {wordClass : WordClass}
    (hclass : TemplateKind.ofClass? wordClass = some kind) (h : lexicon.IsHeadword kind word) :
    contribution lexicon kind word =
      (entriesOf lexicon kind word).map (Analysis.ofPieces kind word [] word []) := by
  rw [contribution_eq_of_reading (h.reading hclass), if_pos (isEuphonic_headword word)]
  rfl

theorem contribution_ne_nil (hmem : entry ∈ lexicon.entries) (hordinary : entry.IsOrdinary)
    (hclass : TemplateKind.ofClass? entry.wordClass = some kind)
    (h : lexicon.IsHeadword kind entry.name) : contribution lexicon kind entry.name ≠ [] := by
  rw [contribution_headword hclass h, Ne, List.map_eq_nil_iff, entriesOf_eq_nil_iff,
    TemplateKind.headwordClass_of_ofClass? hclass, TemplateKind.requiredTag_of_ofClass? hclass]
  rintro ⟨_, _, hnone⟩
  have hhomograph : entry ∈ lexicon.homographs entry.name entry.wordClass := by
    refine List.mem_filter.mpr ⟨hmem, ?_⟩
    simp [hordinary.1]
  cases hnone entry hhomograph

/-- An ordinary entry is left without analysis exactly if it is held back although no template reads
it euphonically with an entry that has the required tag, and nothing else has its name. -/
theorem analyze_name_eq_nil_iff (hmem : entry ∈ lexicon.entries) (hordinary : entry.IsOrdinary)
    (hclass : TemplateKind.ofClass? entry.wordClass = some kind) :
    (ofLexicon lexicon).analyze entry.name = [] ↔
      lexicon.IsHeldBack kind entry.name ∧ lexicon.homographs entry.name .other = [] ∧
        ∀ kind captures, (lexicon.template kind).captures? entry.name = some captures →
          ¬ IsEuphonic [] captures ∨
            Capture.textOf .headword captures ≠ [] ∧
              lexicon.homographs (Capture.textOf .headword captures) kind.headwordClass ≠ [] ∧
                ∀ homograph ∈
                  lexicon.homographs (Capture.textOf .headword captures) kind.headwordClass,
                  kind.requiredTag.all homograph.hasTag = false := by
  rw [analyze_eq_nil_iff]
  simp only [contribution_eq_nil_iff, entriesOf_eq_nil_iff, ← imp_iff_not_or]
  constructor
  · rintro ⟨hkinds, hothers⟩
    refine ⟨?_, hothers, hkinds⟩
    refine (Lexicon.isHeadword_or_isHeldBack hmem hordinary hclass).resolve_left fun h => ?_
    refine contribution_ne_nil hmem hordinary hclass h (contribution_eq_nil_iff.mpr ?_)
    simpa only [entriesOf_eq_nil_iff] using hkinds kind
  · rintro ⟨_, hothers, hkinds⟩
    exact ⟨hkinds, hothers⟩

/-- A derived noun that looks like another noun with a suffix of address, which does not follow its
last letter. -/
def darling : Entry :=
  ⟨"puq'oy:n", "puq'oy", "n:deriv", []⟩

def children : Lexicon :=
  .ofEntries [⟨"puq:n", "puq", "n", []⟩, darling]

theorem analyze_name_eq_nil_iff_darling :
    darling ∈ children.entries ∧ darling.IsOrdinary ∧
      TemplateKind.ofClass? darling.wordClass = some .noun ∧
      ((ofLexicon children).analyze darling.name = [] ↔
        children.IsHeldBack .noun darling.name ∧ children.homographs darling.name .other = [] ∧
          ∀ kind captures, (children.template kind).captures? darling.name = some captures →
            ¬ IsEuphonic [] captures ∨
              Capture.textOf .headword captures ≠ [] ∧
                children.homographs (Capture.textOf .headword captures) kind.headwordClass ≠ [] ∧
                  ∀ homograph ∈
                    children.homographs (Capture.textOf .headword captures) kind.headwordClass,
                    kind.requiredTag.all homograph.hasTag = false) := by
  have hmem : darling ∈ children.entries := by decide +kernel
  have hordinary : darling.IsOrdinary := by
    unfold Entry.IsOrdinary
    decide +kernel
  have hclass : TemplateKind.ofClass? darling.wordClass = some .noun := by decide +kernel
  exact ⟨hmem, hordinary, hclass, analyze_name_eq_nil_iff hmem hordinary hclass⟩

/-- A noun of the lexicon that has no analysis. -/
theorem analyze_darling_eq_nil : darling ∈ children.entries ∧ darling.IsOrdinary ∧
    darling.wordClass = .noun ∧ darling.name ≠ [] ∧
      (ofLexicon children).analyze darling.name = [] := by
  unfold Entry.IsOrdinary
  decide +kernel

end Analyzer

end Klingon
