import Klingon.Proofs.Analyzer.Readings

/-!
# The order of the entries

The order of the entries of a lexicon decides the order of homographs and nothing else: templates
read every word alike, its divisions are the same, and its analyses are found in another order.
-/

namespace Klingon

/-! ## Templates with the same headwords -/

theorem Division.eq_of_before {prefixes : List Text} {d d' : Division}
    (h : d' = d ∨ d.Before prefixes d') (h' : d = d' ∨ d'.Before prefixes d) : d = d' := by
  rcases h with rfl | hbefore
  · rfl
  · rcases h' with rfl | hafter
    · rfl
    · rcases hbefore with hlt | ⟨heq, hlt⟩ <;> rcases hafter with hlt' | ⟨heq', hlt'⟩
      · omega
      · rw [heq'] at hlt
        omega
      · rw [heq] at hlt'
        omega
      · omega

namespace Template

variable {t t' : Template} {word : Text}

/-- Templates with the same prefixes, headwords and endings divide words alike. -/
theorem divides_congr (hfronts : [] :: t.prefixes = [] :: t'.prefixes)
    (hheadwords : ∀ headword, headword ∈ t.headwords ↔ headword ∈ t'.headwords)
    (hending : t.ending = t'.ending) (d : Division) : t.Divides word d ↔ t'.Divides word d := by
  constructor
  · rintro ⟨hfront, hheadword, hword, htail⟩
    exact ⟨hfronts ▸ hfront, (hheadwords _).mp hheadword, hword, hending ▸ htail⟩
  · rintro ⟨hfront, hheadword, hword, htail⟩
    exact ⟨hfronts ▸ hfront, (hheadwords _).mpr hheadword, hword, hending ▸ htail⟩

/-- Two templates of one kind with the same headwords read every word alike, whatever the order of
their headwords. -/
theorem IsRegular.read?_eq (ht : t.IsRegular) (ht' : t'.IsRegular) (hkind : t.kind = t'.kind)
    (hheadwords : ∀ headword, headword ∈ t.headwords ↔ headword ∈ t'.headwords) (word : Text) :
    t.read? word = t'.read? word := by
  have hfronts : [] :: t.prefixes = [] :: t'.prefixes := by
    rw [ht.fronts, ht'.fronts, hkind]
  have hending : t.ending = t'.ending := by rw [ht.ending, ht'.ending, hkind]
  have hdivides : ∀ d, t.Divides word d ↔ t'.Divides word d :=
    divides_congr hfronts hheadwords hending
  have haccepts : (t.read? word).isSome = (t'.read? word).isSome := by
    rw [Bool.eq_iff_iff]
    exact (Template.accepts_iff.trans (exists_congr hdivides)).trans Template.accepts_iff.symm
  cases hread : t.read? word with
  | none =>
    rw [hread] at haccepts
    exact (Option.not_isSome_iff_eq_none.mp (by rw [← haccepts]; decide)).symm
  | some pieces =>
    rw [hread] at haccepts
    obtain ⟨pieces', hread'⟩ := Option.isSome_iff_exists.mp haccepts.symm
    obtain ⟨d, suffixes, hd, hsuffixes, rfl, hfirst⟩ := exists_first_of_read? ht.longestFirst hread
    obtain ⟨d', suffixes', hd', hsuffixes', rfl, hfirst'⟩ :=
      exists_first_of_read? ht'.longestFirst hread'
    rw [← hfronts] at hfirst'
    have heq : d = d' := Division.eq_of_before (hfirst d' ((hdivides d').mpr hd'))
      (hfirst' d ((hdivides d).mp hd))
    subst heq
    rw [hending, hsuffixes'] at hsuffixes
    rw [hread', Option.some.inj hsuffixes]

end Template

/-! ## Lexicons with the same entries -/

namespace Lexicon

variable {lexicon lexicon' : Lexicon} {kind : TemplateKind} {word : Text}

theorem isPrimary_congr (h : lexicon.entries.Perm lexicon'.entries) (list : HeadwordList)
    (word : Text) : lexicon.IsPrimary list word ↔ lexicon'.IsPrimary list word := by
  cases list <;> simp only [IsPrimary, h.mem_iff]

theorem isDerivedWord_congr (h : lexicon.entries.Perm lexicon'.entries) (list : HeadwordList)
    (word : Text) : lexicon.IsDerivedWord list word ↔ lexicon'.IsDerivedWord list word := by
  cases list <;> simp only [IsDerivedWord, h.mem_iff]

theorem isPrimaryHeadword_congr (h : lexicon.entries.Perm lexicon'.entries) (kind : TemplateKind)
    (word : Text) : lexicon.IsPrimaryHeadword kind word ↔ lexicon'.IsPrimaryHeadword kind word := by
  cases kind <;> simp only [IsPrimaryHeadword, isPrimary_congr h]

/-- Whether a template without derived words accepts a word. -/
theorem exists_primaryTemplates_iff : (∃ template ∈ lexicon.primaryTemplates,
    template.accepts word = true) ↔
      ∃ kind : TemplateKind, kind.Describes (lexicon.IsPrimaryHeadword kind) word := by
  have haccepts : ∀ template ∈ lexicon.primaryTemplates, template.accepts word = true ↔
      template.kind.Describes (lexicon.IsPrimaryHeadword template.kind) word := fun _ hmem =>
    (Template.isRegular_of_mem_templates hmem).accepts_iff fun _ =>
      Template.mem_headwords_of_mem_primaryTemplates hmem
  constructor
  · rintro ⟨template, hmem, h⟩
    exact ⟨template.kind, (haccepts template hmem).mp h⟩
  · rintro ⟨kind, h⟩
    have hkind : kind ∈ lexicon.primaryTemplates.map (·.kind) := by
      show kind ∈ TemplateKind.all
      cases kind <;> decide
    obtain ⟨template, hmem, rfl⟩ := List.mem_map.mp hkind
    exact ⟨template, hmem, (haccepts template hmem).mpr h⟩

theorem forall_primaryTemplates_congr (h : lexicon.entries.Perm lexicon'.entries) (word : Text) :
    (∀ template ∈ lexicon.primaryTemplates, template.accepts word = false) ↔
      ∀ template ∈ lexicon'.primaryTemplates, template.accepts word = false := by
  have hnone : ∀ lexicon : Lexicon,
      (∀ template ∈ lexicon.primaryTemplates, template.accepts word = false) ↔
        ¬ ∃ kind : TemplateKind, kind.Describes (lexicon.IsPrimaryHeadword kind) word := by
    intro lexicon
    rw [← exists_primaryTemplates_iff]
    push Not
    simp only [Bool.not_eq_true]
  have hheadwords : lexicon.IsPrimaryHeadword = lexicon'.IsPrimaryHeadword := by
    funext kind word
    exact propext (isPrimaryHeadword_congr h kind word)
  rw [hnone, hnone, hheadwords]

theorem isHeadword_congr (h : lexicon.entries.Perm lexicon'.entries) (kind : TemplateKind)
    (word : Text) : lexicon.IsHeadword kind word ↔ lexicon'.IsHeadword kind word := by
  have hlisted : ∀ list, lexicon.IsListed list word ↔ lexicon'.IsListed list word := by
    intro list
    rw [IsListed, IsListed, isPrimary_congr h, isDerivedWord_congr h,
      forall_primaryTemplates_congr h]
  cases kind
  case number => exact Iff.rfl
  case pronounVerb => exact Iff.rfl
  all_goals exact hlisted _

/-- The templates of one kind read every word alike. -/
theorem captures?_template (h : lexicon.entries.Perm lexicon'.entries) (kind : TemplateKind)
    (word : Text) :
    (lexicon.template kind).captures? word = (lexicon'.template kind).captures? word := by
  have hread : (lexicon.template kind).read? word = (lexicon'.template kind).read? word := by
    refine (lexicon.isRegular_template kind).read?_eq (lexicon'.isRegular_template kind) ?_
      (fun headword => ?_) word
    · rw [kind_template, kind_template]
    · rw [mem_headwords_template, mem_headwords_template, isHeadword_congr h]
  rw [Template.captures?, hread, Template.captures?]

theorem homographs_perm (h : lexicon.entries.Perm lexicon'.entries) (surface : Text)
    (wordClass : WordClass) :
    (lexicon.homographs surface wordClass).Perm (lexicon'.homographs surface wordClass) :=
  h.filter _

end Lexicon

namespace Analyzer

variable {lexicon lexicon' : Lexicon} {kind : TemplateKind} {word : Text}

theorem morphemes_eq (h : lexicon.entries.Perm lexicon'.entries) (word : Text) :
    (ofLexicon lexicon).morphemes word = (ofLexicon lexicon').morphemes word := by
  have hcaptures : ∀ kind, euphonicCaptures? (lexicon.template kind) word =
      euphonicCaptures? (lexicon'.template kind) word := by
    intro kind
    rw [euphonicCaptures?, Lexicon.captures?_template h, euphonicCaptures?]
  rw [morphemes, morphemes]
  show Ordered.ofList (lexicon.templates.filterMap _) = Ordered.ofList (lexicon'.templates.filterMap _)
  rw [Lexicon.templates_eq, Lexicon.templates_eq, List.filterMap_map, List.filterMap_map]
  congr 2
  funext kind
  rw [Function.comp_apply, hcaptures, Function.comp_apply]

theorem entriesOf_perm (h : lexicon.entries.Perm lexicon'.entries) (headword : Text) :
    (entriesOf lexicon kind headword).Perm (entriesOf lexicon' kind headword) := by
  have hhomographs := Lexicon.homographs_perm h headword kind.headwordClass
  have hnil : lexicon.homographs headword kind.headwordClass = [] ↔
      lexicon'.homographs headword kind.headwordClass = [] := by
    rw [← List.length_eq_zero_iff, hhomographs.length_eq, List.length_eq_zero_iff]
  unfold entriesOf
  by_cases hnone : headword = [] ∨ lexicon.homographs headword kind.headwordClass = []
  · rw [if_pos hnone, if_pos (hnone.imp_right hnil.mp)]
  · rw [if_neg hnone, if_neg fun hnone' => hnone (hnone'.imp_right hnil.mpr)]
    exact (hhomographs.filter _).map _

theorem contribution_perm (h : lexicon.entries.Perm lexicon'.entries) (kind : TemplateKind)
    (word : Text) : (contribution lexicon kind word).Perm (contribution lexicon' kind word) := by
  unfold contribution
  rw [Lexicon.captures?_template h]
  split
  · split
    · exact (entriesOf_perm h _).map _
    · exact List.Perm.refl _
  · exact List.Perm.refl _

/-- The analyses of one reading have equally many parts. -/
theorem length_parts_eq (h : lexicon.entries.Perm lexicon'.entries) {a a' : Analysis}
    (ha : a ∈ contribution lexicon kind word) (ha' : a' ∈ contribution lexicon' kind word) :
    a.parts.length = a'.parts.length := by
  have hmem := (contribution_perm h kind word).mem_iff.mpr ha'
  obtain ⟨d, suffixes, chosen, _, _, heq, rfl⟩ := exists_reading_of_mem ha
  rw [heq] at hmem
  obtain ⟨chosen', _, rfl⟩ := List.mem_map.mp hmem
  simp only [Analysis.ofPieces, List.length_append]
  congr 2
  split <;> rfl

theorem readsPronouns_iff_forall : ReadsPronouns (contribution lexicon kind word) ↔
    ∀ a ∈ contribution lexicon kind word, 1 < a.parts.length := by
  constructor
  · intro h a ha
    obtain ⟨first, hfirst⟩ : ∃ first, (contribution lexicon kind word).head? = some first :=
      Option.isSome_iff_exists.mp (List.isSome_head?.mpr (List.ne_nil_of_mem ha))
    rw [length_parts_eq (List.Perm.refl _) ha (List.mem_of_mem_head? hfirst)]
    exact h first hfirst
  · exact fun h first hfirst => h first (List.mem_of_mem_head? hfirst)

/-- Whether pronouns are read as verbs does not depend on which analysis comes first. -/
theorem readsPronouns_congr (h : lexicon.entries.Perm lexicon'.entries) (word : Text) :
    ReadsPronouns (contribution lexicon .noun word ++ contribution lexicon .number word) ↔
      ReadsPronouns (contribution lexicon' .noun word ++ contribution lexicon' .number word) := by
  have hkind : ∀ kind, ReadsPronouns (contribution lexicon kind word) ↔
      ReadsPronouns (contribution lexicon' kind word) := by
    intro kind
    simp only [readsPronouns_iff_forall, (contribution_perm h kind word).mem_iff]
  have happend : ∀ found more : List Analysis, ReadsPronouns (found ++ more) ↔
      if found = [] then ReadsPronouns more else ReadsPronouns found := by
    intro found more
    cases found <;> simp [ReadsPronouns]
  have hnil : contribution lexicon .noun word = [] ↔ contribution lexicon' .noun word = [] := by
    rw [← List.length_eq_zero_iff, (contribution_perm h .noun word).length_eq,
      List.length_eq_zero_iff]
  rw [happend, happend]
  simp only [hnil, hkind]

theorem analyze_perm (h : lexicon.entries.Perm lexicon'.entries) (word : Text) :
    ((ofLexicon lexicon).analyze word).Perm ((ofLexicon lexicon').analyze word) := by
  rw [analyze_eq, analyze_eq]
  refine List.Perm.map complete ?_
  unfold contributions
  refine List.Perm.append (List.Perm.append (List.Perm.append ?_ ?_) ?_) ?_
  · exact (contribution_perm h .noun word).append (contribution_perm h .number word)
  · simp only [readsPronouns_congr h]
    split
    · exact contribution_perm h .pronounVerb word
    · exact List.Perm.refl _
  · exact (contribution_perm h .verb word).append (contribution_perm h .stativeVerb word)
  · exact (Lexicon.homographs_perm h word .other).map _

end Analyzer

end Klingon
