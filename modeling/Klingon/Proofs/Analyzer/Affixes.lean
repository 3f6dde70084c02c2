import Klingon.Proofs.Analyzer.Entries
import Klingon.Proofs.Analyzer.Grammaticality

/-!
# Affixes that are looked up

The names of affixes are on no headword list. But a headword is looked up among all attested entries
of its class, and so is a word of the other classes. An affix is therefore shown by an analysis where
it is spelled like what is looked up.
-/

namespace Klingon

/-- A headword is the name of an ordinary entry of its class, or it is one in every lexicon. -/
theorem Lexicon.IsHeadword.mem_or_exists_entry {lexicon : Lexicon} {kind : TemplateKind}
    {headword : Text} (h : lexicon.IsHeadword kind headword) :
    headword ∈ Affix.numerals ++ Affix.verbalPronouns ++ Affix.valueVerbs ∨
      ∃ entry ∈ lexicon.entries, entry.IsOrdinary ∧ entry.wordClass = kind.headwordClass ∧
        entry.name = headword := by
  have hlisted : ∀ list, lexicon.IsListed list headword → list.wordClass = kind.headwordClass →
      headword ∈ Affix.valueVerbs ∨ ∃ entry ∈ lexicon.entries, entry.IsOrdinary ∧
        entry.wordClass = kind.headwordClass ∧ entry.name = headword := by
    intro list hlist hclass
    by_cases hvalue : headword ∈ Affix.valueVerbs
    · exact .inl hvalue
    · rw [← hclass]
      exact .inr (hlist.exists_entry hvalue)
  cases kind with
  | noun => exact (hlisted .nouns h rfl).imp_left (List.mem_append_right _)
  | number => exact .inl (List.mem_append_left _ (List.mem_append_left _ h))
  | pronounVerb => exact .inl (List.mem_append_left _ (List.mem_append_right _ h))
  | verb => exact (hlisted .verbs h rfl).imp_left (List.mem_append_right _)
  | stativeVerb => exact (hlisted .statives h rfl).imp_left (List.mem_append_right _)

namespace Analyzer

variable {lexicon : Lexicon} {kind : TemplateKind} {word headword : Text} {entry : Entry}
  {analysis : Analysis}

/-! ## What is looked up -/

/-- Whether the template of a kind is asked for a word. -/
def IsAsked (lexicon : Lexicon) (kind : TemplateKind) (word : Text) : Prop :=
  kind = .pronounVerb →
    ReadsPronouns (contribution lexicon .noun word ++ contribution lexicon .number word)

theorem isAsked_of_ne (h : kind ≠ .pronounVerb) : IsAsked lexicon kind word :=
  fun hkind => absurd hkind h

/-- A template that is asked for a word and reads it euphonically looks up the headword. -/
structure LooksUp (lexicon : Lexicon) (kind : TemplateKind) (word headword : Text) : Prop where
  asked : IsAsked lexicon kind word
  reads : ∃ captures, (lexicon.template kind).captures? word = some captures ∧
    IsEuphonic [] captures ∧ Capture.textOf .headword captures = headword
  ne_nil : headword ≠ []

/-- An entry is met for a word under the headword that a template looks up, if it has the class and
the tag for it, or as an entry of the other classes under the word itself. -/
inductive Meets (lexicon : Lexicon) (word : Text) (entry : Entry) : Prop
  | headword (kind : TemplateKind) : LooksUp lexicon kind word entry.name →
    entry.wordClass = kind.headwordClass → kind.requiredTag.all entry.hasTag = true →
    Meets lexicon word entry
  | whole : entry.wordClass = .other → entry.name = word → Meets lexicon word entry

theorem LooksUp.isHeadword (h : LooksUp lexicon kind word headword) :
    lexicon.IsHeadword kind headword := by
  obtain ⟨captures, hcaptures, _, rfl⟩ := h.reads
  obtain ⟨d, suffixes, hreading, rfl⟩ := exists_reading_of_captures hcaptures
  rw [(Capture.holds_ofPieces hreading.attached).headword]
  exact hreading.division.headword

/-- What is met is spelled like an ordinary entry of the same class or like a headword of every
lexicon, unless it is the whole word. -/
theorem Meets.spelled_like (h : Meets lexicon word entry) :
    (entry.wordClass = .other ∧ entry.name = word) ∨
      entry.name ∈ Affix.numerals ++ Affix.verbalPronouns ++ Affix.valueVerbs ∨
        ∃ ordinary ∈ lexicon.entries, ordinary.IsOrdinary ∧
          ordinary.wordClass = entry.wordClass ∧ ordinary.name = entry.name := by
  cases h with
  | whole hclass hname => exact .inl ⟨hclass, hname⟩
  | headword kind hlooks hclass _ =>
    rw [hclass]
    exact .inr hlooks.isHeadword.mem_or_exists_entry

/-! ## What is shown -/

theorem mem_contribution_iff : analysis ∈ contribution lexicon kind word ↔
    ∃ captures, (lexicon.template kind).captures? word = some captures ∧ IsEuphonic [] captures ∧
      ∃ chosen ∈ entriesOf lexicon kind (Capture.textOf .headword captures),
        Analysis.ofCaptures kind word captures chosen = analysis := by
  unfold contribution
  cases (lexicon.template kind).captures? word with
  | none => simp
  | some captures =>
    by_cases heuphonic : IsEuphonic [] captures
    · simp [heuphonic]
    · simp [heuphonic]

theorem mem_contributions_iff : analysis ∈ contributions lexicon word ↔
    (∃ kind, IsAsked lexicon kind word ∧ analysis ∈ contribution lexicon kind word) ∨
      ∃ entry ∈ lexicon.homographs word .other, ofEntry word entry = analysis := by
  constructor
  · intro h
    rcases List.mem_append.mp (contributions_eq lexicon word ▸ h) with hfound | hother
    · left
      rcases List.mem_append.mp hfound with hnoun | hverb
      · rcases List.mem_append.mp hnoun with hbefore | hpronoun
        · rcases List.mem_append.mp hbefore with hfound | hfound
          · exact ⟨.noun, isAsked_of_ne (by decide), hfound⟩
          · exact ⟨.number, isAsked_of_ne (by decide), hfound⟩
        · obtain ⟨hreads, hfound⟩ := mem_pronounsAfter hpronoun
          exact ⟨.pronounVerb, fun _ => hreads, hfound⟩
      · rcases List.mem_append.mp hverb with hfound | hfound
        · exact ⟨.verb, isAsked_of_ne (by decide), hfound⟩
        · exact ⟨.stativeVerb, isAsked_of_ne (by decide), hfound⟩
    · exact .inr (List.mem_map.mp hother)
  · rintro (⟨kind, hasked, hfound⟩ | hother)
    · unfold contributions
      cases kind with
      | pronounVerb => simp [hasked rfl, hfound]
      | _ => simp [hfound]
    · exact List.mem_append_right _ (List.mem_map.mpr hother)

/-- An analysis without entry shows none. -/
theorem not_showsEntry_none {front : Text} {attached : List Attachment}
    (hnone : none ∈ entriesOf lexicon kind headword) :
    ¬ (Analysis.ofPieces kind word front headword attached none).ShowsEntry lexicon entry := by
  intro hshows
  have hclass : entry.wordClass = kind.headwordClass := hshows.wordClass
  rcases none_mem_entriesOf hnone with rfl | hnone
  · have hpos : entry.pos = "?" := hshows.pos
    rw [Entry.wordClass, Entry.tags, hpos] at hclass
    cases kind <;> exact absurd hclass (by decide)
  · obtain ⟨hmem, _⟩ := Lexicon.mem_of_get? hshows.found
    have hhomograph : entry ∈ lexicon.homographs headword kind.headwordClass :=
      Lexicon.mem_homographs.mpr ⟨hmem, hshows.name, hshows.attested, hclass⟩
    exact List.ne_nil_of_mem hhomograph hnone

/-- An entry is shown by an analysis of a word exactly if it is attested and met for the word. -/
theorem exists_showsEntry_iff :
    (∃ analysis ∈ (ofLexicon lexicon).analyze word, analysis.ShowsEntry lexicon entry) ↔
      entry ∈ lexicon.entries ∧ entry.isHypothetical = false ∧ Meets lexicon word entry := by
  constructor
  · rintro ⟨analysis, hmem, hshows⟩
    obtain ⟨hentry, hid⟩ := Lexicon.mem_of_get? hshows.found
    refine ⟨hentry, hshows.attested, ?_⟩
    obtain ⟨found, hfound, rfl⟩ := mem_analyze.mp hmem
    have hbefore : found.ShowsEntry lexicon entry := { hshows with }
    rcases mem_contributions_iff.mp hfound with ⟨kind, hasked, hfound⟩ | ⟨other, hother, rfl⟩
    · obtain ⟨captures, hcaptures, heuphonic, chosen, hchosen, rfl⟩ := mem_contribution_iff.mp hfound
      cases chosen with
      | none => exact absurd hbefore (not_showsEntry_none hchosen)
      | some chosen =>
        -- The entry that is shown is the one that was chosen.
        obtain ⟨hne, hhomograph, htag⟩ := some_mem_entriesOf.mp hchosen
        obtain ⟨hin, hname, _, hclass⟩ := Lexicon.mem_homographs.mp hhomograph
        obtain rfl := Lexicon.eq_of_id_eq hin hentry hid.symm
        rw [← hname] at hne
        exact .headword kind ⟨hasked, ⟨captures, hcaptures, heuphonic, hname.symm⟩, hne⟩ hclass htag
    · obtain ⟨hin, hname, _, hclass⟩ := Lexicon.mem_homographs.mp hother
      obtain rfl := Lexicon.eq_of_id_eq hin hentry hid.symm
      exact .whole hclass hname
  · rintro ⟨hentry, hattested, hmeets⟩
    suffices hfound : ∃ found ∈ contributions lexicon word, found.ShowsEntry lexicon entry by
      obtain ⟨found, hfound, hshows⟩ := hfound
      exact ⟨complete found, mem_analyze.mpr ⟨found, hfound, rfl⟩, hshows.complete⟩
    cases hmeets with
    | headword kind hlooks hclass htag =>
      obtain ⟨captures, hcaptures, heuphonic, hname⟩ := hlooks.reads
      have hhomograph : entry ∈ lexicon.homographs entry.name kind.headwordClass :=
        Lexicon.mem_homographs.mpr ⟨hentry, rfl, hattested, hclass⟩
      have hchosen : some entry ∈
          entriesOf lexicon kind (Capture.textOf .headword captures) := by
        rw [hname]
        exact some_mem_entriesOf.mpr ⟨hlooks.ne_nil, hhomograph, htag⟩
      refine ⟨Analysis.ofCaptures kind word captures (some entry), ?_, showsEntry_ofPieces hchosen⟩
      have hcontributed :=
        mem_contribution_iff.mpr ⟨captures, hcaptures, heuphonic, some entry, hchosen, rfl⟩
      exact mem_contributions_iff.mpr (.inl ⟨kind, hlooks.asked, hcontributed⟩)
    | whole hclass hname =>
      have hhomograph : entry ∈ lexicon.homographs word .other :=
        Lexicon.mem_homographs.mpr ⟨hentry, hname, hattested, hclass⟩
      refine ⟨ofEntry word entry, ?_, showsEntry_ofEntry hhomograph⟩
      exact mem_contributions_iff.mpr (.inr ⟨entry, hhomograph, rfl⟩)

/-- No analysis of a word shows an affix exactly if no attested affix is met for the word. An affix is
met only if it is spelled like an ordinary entry of its class or like a headword of every lexicon, or
is the whole word and of the other classes. -/
theorem no_affix_shown_iff (lexicon : Lexicon) (word : Text) :
    ((∀ analysis ∈ (ofLexicon lexicon).analyze word, ∀ entry,
        analysis.ShowsEntry lexicon entry → entry.isAffix = false) ↔
      ∀ affix ∈ lexicon.entries, affix.isAffix = true → affix.isHypothetical = false →
        ¬ Meets lexicon word affix) ∧
    ∀ affix, Meets lexicon word affix → (affix.wordClass = .other ∧ affix.name = word) ∨
      affix.name ∈ Affix.numerals ++ Affix.verbalPronouns ++ Affix.valueVerbs ∨
        ∃ ordinary ∈ lexicon.entries, ordinary.IsOrdinary ∧
          ordinary.wordClass = affix.wordClass ∧ ordinary.name = affix.name := by
  refine ⟨⟨fun h affix hmem haffix hattested hmeets => ?_, fun h analysis hmem entry hshows => ?_⟩,
    fun affix hmeets => hmeets.spelled_like⟩
  · obtain ⟨analysis, hanalysis, hshows⟩ :=
      exists_showsEntry_iff.mpr ⟨hmem, hattested, hmeets⟩
    rw [h analysis hanalysis affix hshows] at haffix
    cases haffix
  · obtain ⟨hentry, hattested, hmeets⟩ := exists_showsEntry_iff.mp ⟨analysis, hmem, hshows⟩
    exact Bool.eq_false_iff.mpr fun haffix => h entry hentry haffix hattested hmeets

/-- A noun and a suffix with one spelling, the suffix without its dash. -/
def phasers : Lexicon :=
  .ofEntries [⟨"pu':n", "pu'", "n", []⟩, ⟨"-pu':n", "pu'", "n:suff", []⟩]

/-- The noun is also analyzed as the suffix. -/
theorem affix_shown_phasers : ∃ analysis ∈ (ofLexicon phasers).analyze "pu'",
    ∃ affix ∈ phasers.entries, affix.isAffix = true ∧ analysis.ShowsEntry phasers affix := by
  decide +kernel

end Analyzer

end Klingon
