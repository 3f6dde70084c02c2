import Klingon.Proofs.Analyzer.Spelling
import Klingon.Proofs.Lexicon

/-!
# The entries of analyses

An analysis shows the identifier, the part of speech and the fine tag of the entry of its headword.
No two entries of a lexicon have one identifier, so the lexicon finds the entry again, and the checks
that ask the analysis for a tag could as well ask the entry. An analysis shows no entry only if there
is none of its headword and class.
-/

namespace Klingon

namespace PartOfSpeech

/-- The empty text between two commas is no tag. -/
theorem mem_tags {pos tag : Text} : tag ∈ tags pos ↔
    tag = (split pos).1 ∨ tag ∈ (split pos).2.splitOn ',' ∧ tag ≠ [] := by
  show tag ∈ Ordered.ofList
    ((split pos).1 :: ((split pos).2.splitOn ',').filter fun tag => !tag.isEmpty) ↔ _
  rw [Ordered.mem_ofList, List.mem_cons, List.mem_filter, Bool.not_eq_true', List.isEmpty_eq_false_iff]

/-- The two ways to ask for a tag differ at the empty text only. -/
theorem names_eq_true_iff {pos tag : Text} (hne : tag ≠ []) :
    names pos tag = true ↔ tag ∈ tags pos := by
  show ((split pos).1 = tag || tag ∈ (split pos).2.splitOn ',') = true ↔ _
  rw [mem_tags, Bool.or_eq_true, decide_eq_true_iff, decide_eq_true_iff, and_iff_left hne,
    eq_comm (a := tag)]

end PartOfSpeech

namespace Analysis

/-- An analysis with the identifier and the tags of an entry that the lexicon finds again; the entry
is attested and has the headword as its name. -/
structure ShowsEntry (lexicon : Lexicon) (analysis : Analysis) (entry : Entry) : Prop where
  found : lexicon.get? analysis.entryId = some entry
  attested : entry.isHypothetical = false
  name : entry.name = analysis.headword
  wordClass : entry.wordClass = analysis.broad
  pos : entry.pos = analysis.sourceTag
  fine : entry.fineTag = analysis.fine

/-- An analysis with the marks of a headword without entry. -/
structure ShowsNoEntry (analysis : Analysis) : Prop where
  entryId : analysis.entryId = "?"
  sourceTag : analysis.sourceTag = "?"
  fine : analysis.fine = .unknown

instance (lexicon : Lexicon) (analysis : Analysis) (entry : Entry) :
    Decidable (analysis.ShowsEntry lexicon entry) :=
  decidable_of_iff (lexicon.get? analysis.entryId = some entry ∧ entry.isHypothetical = false ∧
      entry.name = analysis.headword ∧ entry.wordClass = analysis.broad ∧
      entry.pos = analysis.sourceTag ∧ entry.fineTag = analysis.fine)
    ⟨fun ⟨found, attested, name, wordClass, pos, fine⟩ =>
      ⟨found, attested, name, wordClass, pos, fine⟩,
      fun h => ⟨h.found, h.attested, h.name, h.wordClass, h.pos, h.fine⟩⟩

/-- The checks ask the part of speech that an analysis shows, and not its entry, for a tag. -/
theorem ShowsEntry.names_eq {lexicon : Lexicon} {analysis : Analysis} {entry : Entry}
    (h : analysis.ShowsEntry lexicon entry) {tag : Text} (hne : tag ≠ []) :
    PartOfSpeech.names analysis.sourceTag tag = entry.hasTag tag := by
  rw [← h.pos, Bool.eq_iff_iff, PartOfSpeech.names_eq_true_iff hne, Entry.hasTag,
    decide_eq_true_iff]
  exact Iff.rfl

/-- What is added to an analysis at last leaves its entry alone. -/
theorem ShowsEntry.complete {lexicon : Lexicon} {analysis : Analysis} {entry : Entry}
    (h : analysis.ShowsEntry lexicon entry) : (Analyzer.complete analysis).ShowsEntry lexicon entry :=
  { h with }

end Analysis

namespace Analyzer

variable {lexicon : Lexicon} {kind : TemplateKind} {word headword : Text} {entry : Entry}
  {analysis : Analysis}

/-- A headword has its homographs with the required tag as its entries. -/
theorem some_mem_entriesOf : some entry ∈ entriesOf lexicon kind headword ↔
    headword ≠ [] ∧ entry ∈ lexicon.homographs headword kind.headwordClass ∧
      kind.requiredTag.all entry.hasTag = true := by
  unfold entriesOf
  split
  · next hnone =>
    constructor
    · intro h
      cases List.mem_singleton.mp h
    · rintro ⟨hne, hmem, _⟩
      exact absurd (hnone.resolve_left hne) (List.ne_nil_of_mem hmem)
  · next hsome =>
    rw [List.mem_map_of_injective (Option.some_injective Entry), List.mem_filter,
      and_iff_right (not_or.mp hsome).1]

theorem none_mem_entriesOf (h : none ∈ entriesOf lexicon kind headword) :
    headword = [] ∨ lexicon.homographs headword kind.headwordClass = [] := by
  unfold entriesOf at h
  split at h
  · next hnone => exact hnone
  · obtain ⟨entry, _, heq⟩ := List.mem_map.mp h
    cases heq

theorem showsEntry_ofPieces {front : Text} {attached : List Attachment}
    (h : some entry ∈ entriesOf lexicon kind headword) :
    (Analysis.ofPieces kind word front headword attached (some entry)).ShowsEntry lexicon entry := by
  obtain ⟨_, hhomograph, _⟩ := some_mem_entriesOf.mp h
  obtain ⟨hmem, hname, hattested, hclass⟩ := Lexicon.mem_homographs.mp hhomograph
  exact ⟨Lexicon.get?_id hmem, hattested, hname, hclass, rfl, rfl⟩

theorem showsEntry_ofEntry (h : entry ∈ lexicon.homographs word .other) :
    (ofEntry word entry).ShowsEntry lexicon entry := by
  obtain ⟨hmem, hname, hattested, hclass⟩ := Lexicon.mem_homographs.mp h
  exact ⟨Lexicon.get?_id hmem, hattested, rfl, hclass, rfl, rfl⟩

/-- An analysis shows an entry, or there is none of its headword. -/
theorem showsEntry_or_showsNoEntry (hmem : analysis ∈ (ofLexicon lexicon).analyze word) :
    (∃ entry, analysis.ShowsEntry lexicon entry) ∨ analysis.ShowsNoEntry ∧
      (analysis.headword = [] ∨ lexicon.homographs analysis.headword analysis.broad = []) := by
  obtain ⟨found, hfound, rfl⟩ := mem_analyze.mp hmem
  rcases of_mem_contributions hfound with ⟨kind, hfound⟩ | ⟨entry, hentry, rfl⟩
  · obtain ⟨d, suffixes, chosen, _, hchosen, _, rfl⟩ := exists_reading_of_mem hfound
    cases chosen with
    | none => exact .inr ⟨⟨rfl, rfl, rfl⟩, none_mem_entriesOf hchosen⟩
    | some entry => exact .inl ⟨entry, (showsEntry_ofPieces hchosen).complete⟩
  · exact .inl ⟨entry, (showsEntry_ofEntry hentry).complete⟩

/-- Every analysis of a word shows an attested entry of the lexicon with its headword and its class,
and asking the part of speech that it shows for a tag is asking the entry; or it shows no entry, and
there is none of its headword and class. -/
theorem entry_of_analysis (hmem : analysis ∈ (ofLexicon lexicon).analyze word) :
    (∃ entry, analysis.ShowsEntry lexicon entry ∧
      ∀ tag, tag ≠ [] → PartOfSpeech.names analysis.sourceTag tag = entry.hasTag tag) ∨
    analysis.ShowsNoEntry ∧
      (analysis.headword = [] ∨ lexicon.homographs analysis.headword analysis.broad = []) := by
  rcases showsEntry_or_showsNoEntry hmem with ⟨entry, hshows⟩ | hnone
  · exact .inl ⟨entry, hshows, fun tag hne => hshows.names_eq hne⟩
  · exact .inr hnone

/-- Two homographs, of which the first replaces an earlier entry, and a noun of the same spelling. -/
def breaking : Lexicon :=
  .ofEntries [⟨"ghor:v:1", "ghor", "n:hyp", []⟩, ⟨"ghor:v:2", "ghor", "v:t", []⟩,
    ⟨"ghor:n", "ghor", "n", []⟩, ⟨"ghor:v:1", "ghor", "v:i,,is", []⟩]

theorem entry_of_analysis_breaking :
    ∃ analysis ∈ (ofLexicon breaking).analyze "jIghormoHpu'", analysis.entryId = "ghor:v:1" ∧
      ((∃ entry, analysis.ShowsEntry breaking entry ∧
        ∀ tag, tag ≠ [] → PartOfSpeech.names analysis.sourceTag tag = entry.hasTag tag) ∨
      analysis.ShowsNoEntry ∧
        (analysis.headword = [] ∨ breaking.homographs analysis.headword analysis.broad = [])) := by
  have hfound : ∃ analysis ∈ (ofLexicon breaking).analyze "jIghormoHpu'",
      analysis.entryId = "ghor:v:1" := by
    decide +kernel
  obtain ⟨analysis, hmem, hid⟩ := hfound
  exact ⟨analysis, hmem, hid, entry_of_analysis hmem⟩

end Analyzer

end Klingon
