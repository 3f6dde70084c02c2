import Klingon.Proofs.Analyzer.Entries
import Klingon.Proofs.Analyzer.Headwords

/-!
# Morphemes and parts

The division of a word into morphemes marks every piece that a template captures; an analysis leaves
out the rovers that it records with the suffix before them. Both go over the same captures, so the
suffixes of an analysis are the morphemes behind the headword without some of their rovers. If the
template asks no tag of its entries, a word that it divides has an analysis.
-/

namespace Klingon

/-! ## Leaving out rovers -/

/-- A suffix as a morpheme. -/
def suffixMorpheme (text : Text) : Text :=
  "-" ++ text

/-- Suffixes without some of their rovers. A rover is left out directly behind a suffix that is
kept. -/
inductive FoldsRovers : List Text → List Text → Prop
  | nil : FoldsRovers [] []
  | keep {suffix : Text} {morphemes kept : List Text} (hrest : FoldsRovers morphemes kept) :
      FoldsRovers (suffix :: morphemes) (suffix :: kept)
  | fold {suffix rover : Text} {morphemes kept : List Text}
      (hrover : rover = "-be'".toList ∨ rover = "-qu'".toList)
      (hrest : FoldsRovers morphemes kept) :
      FoldsRovers (suffix :: rover :: morphemes) (suffix :: kept)

theorem Affix.colon_not_mem_of_slot? {text : Text} {wordClass : WordClass} {slot : SuffixSlot}
    (h : slot? ("-" ++ text) wordClass = some slot) : ':' ∉ text := by
  have htable : ∀ suffix ∈ suffixes, ':' ∉ suffix.spelling := by decide +kernel
  exact htable _ (mem_of_slot? h)

namespace Attached

variable {wordClass : WordClass} {pieces : List (PieceRole × Text)}

/-- The recorded suffixes are the pieces without the rovers that are recorded with others. -/
theorem foldsRovers (h : Attached wordClass pieces) :
    FoldsRovers (pieces.map fun piece => suffixMorpheme piece.2)
      ((attachments wordClass pieces).map fun a => suffixMorpheme a.text) := by
  fun_induction attachments wordClass pieces with
  | case1 wordClass slot fixed text role following rest suffixClass hrover ih =>
    cases h with
    | cons hslot hfree hrest =>
      have hmorpheme :=
        (eq_of_isRover hrover).imp (congrArg suffixMorpheme) (congrArg suffixMorpheme)
      exact .fold hmorpheme (ih (hrest.of_rover hrover))
  | case2 wordClass slot fixed text role following rest suffixClass hrover ih =>
    cases h with
    | cons hslot hfree hrest => exact .keep (ih hrest)
  | case3 wordClass slot fixed text => exact .keep .nil
  | case4 wordClass pieces hmany hone =>
    cases h.eq_nil hmany hone
    exact .nil

/-- No suffix holds the colon that its class stands behind. -/
theorem colon_not_mem (h : Attached wordClass pieces) :
    ∀ a ∈ attachments wordClass pieces, ':' ∉ a.text :=
  fun a ha => Affix.colon_not_mem_of_slot? (h.slot?_eq a ha)

end Attached

/-! ## The suffixes that the parts of an analysis name -/

namespace Analysis

/-- The suffixes among the parts, without their classes. -/
def suffixParts (analysis : Analysis) : List Text :=
  (analysis.parts.drop (analysis.verbPrefix.toList.length + 1)).map (·.takeWhile (· ≠ ':'))

theorem suffixParts_ofPieces {kind : TemplateKind} {word front headword : Text}
    {attached : List Attachment} {chosen : Option Entry} (hheadword : headword ≠ [])
    (hcolon : ∀ a ∈ attached, ':' ∉ a.text) :
    (ofPieces kind word front headword attached chosen).suffixParts =
      attached.map fun a => suffixMorpheme a.text := by
  have hdrop : (ofPieces kind word front headword attached chosen).parts.drop
      ((ofPieces kind word front headword attached chosen).verbPrefix.toList.length + 1) =
        attached.map (·.part) := by
    by_cases hfront : front = [] <;> simp [ofPieces, hfront, hheadword]
  rw [suffixParts, hdrop, List.map_map]
  apply List.map_congr_left
  intro a ha
  show (suffixMorpheme a.text ++ ":" ++ a.wordClass.key).takeWhile (· ≠ ':') =
    suffixMorpheme a.text
  have htext : ∀ c ∈ suffixMorpheme a.text, decide (c ≠ ':') = true := by
    intro c hc
    rw [decide_eq_true_iff]
    rintro rfl
    rcases List.mem_append.mp hc with hc | hc
    · exact absurd hc (by decide)
    · exact hcolon a ha hc
  rw [List.append_assoc, List.takeWhile_append_of_pos htext]
  exact List.append_nil _

end Analysis

namespace Analyzer

variable {lexicon : Lexicon} {kind : TemplateKind} {word : Text} {d : Division}
  {suffixes : List (PieceRole × Text)}

/-! ## What each template contributes to the morphemes -/

/-- The morphemes of a word by the template of a kind. -/
def segmentation? (lexicon : Lexicon) (kind : TemplateKind) (word : Text) : Option (List Text) :=
  (euphonicCaptures? (lexicon.template kind) word).map (·.map morpheme)

theorem mem_morphemes {segmentation : List Text} :
    segmentation ∈ (ofLexicon lexicon).morphemes word ↔
      ∃ kind, segmentation? lexicon kind word = some segmentation := by
  show segmentation ∈ Ordered.ofList (lexicon.templates.filterMap fun template =>
    (euphonicCaptures? template word).map (·.map morpheme)) ↔ _
  rw [Ordered.mem_ofList, Lexicon.templates_eq, List.filterMap_map, List.mem_filterMap]
  constructor
  · rintro ⟨kind, _, h⟩
    exact ⟨kind, h⟩
  · rintro ⟨kind, h⟩
    exact ⟨kind, kind.mem_all, h⟩

/-- Pieces behind a headword are suffixes. -/
theorem map_morpheme_ofPieces {wordClass : WordClass} (h : Attached wordClass suffixes)
    (start : Nat) : (Capture.ofPieces start suffixes).map morpheme =
      suffixes.map fun piece => suffixMorpheme piece.2 := by
  have hmorpheme : ∀ capture ∈ Capture.ofPieces start suffixes,
      morpheme capture = suffixMorpheme capture.piece.2 := by
    intro capture hcapture
    have hslot : capture.role.slot?.isSome = true := h.isSome_slot? _ (h.piece_mem hcapture)
    unfold morpheme
    cases hrole : capture.role with
    | suffix slot fixed => rfl
    | verbPrefix =>
      rw [hrole] at hslot
      cases hslot
    | headword =>
      rw [hrole] at hslot
      cases hslot
  have hpieces := congrArg (List.map fun piece => suffixMorpheme piece.2)
    (h.map_piece_ofPieces start)
  rw [List.map_map] at hpieces
  rw [List.map_congr_left hmorpheme]
  exact hpieces

/-- The morphemes of a reading: the prefix if there is one, the headword, and the suffixes. -/
theorem map_morpheme_piecesOf {wordClass : WordClass} (h : Attached wordClass suffixes)
    (hheadword : d.headword ≠ []) :
    (Capture.ofPieces 0 (Template.piecesOf d suffixes)).map morpheme =
      (if d.front = [] then none else some (d.front ++ "-")).toList ++
        d.headword :: suffixes.map fun piece => suffixMorpheme piece.2 := by
  by_cases hfront : d.front = [] <;>
    simp [Template.piecesOf, Capture.ofPieces, morpheme, hfront, hheadword, map_morpheme_ofPieces h]

theorem segmentation?_of_reading (h : lexicon.Reading kind word d suffixes)
    (heuphonic : IsEuphonic [] (Capture.ofPieces 0 (Template.piecesOf d suffixes)))
    (hheadword : d.headword ≠ []) :
    segmentation? lexicon kind word = some ((if d.front = [] then none
      else some (d.front ++ "-")).toList ++
        d.headword :: suffixes.map fun piece => suffixMorpheme piece.2) := by
  rw [segmentation?, euphonicCaptures?, h.captures, Option.filter_some,
    if_pos (isEuphonic_iff.mpr heuphonic), Option.map_some, map_morpheme_piecesOf h.attached hheadword]

/-! ## Morphemes and analyses -/

/-- An analysis by a template belongs to the morphemes that the template contributes. -/
theorem exists_segmentation_of_mem {analysis : Analysis}
    (hmem : analysis ∈ contribution lexicon kind word) (hheadword : analysis.headword ≠ []) :
    ∃ back, segmentation? lexicon kind word =
        some (analysis.verbPrefix.toList ++ analysis.headword :: back) ∧
      FoldsRovers back analysis.suffixParts := by
  obtain ⟨d, suffixes, chosen, hreading, _, _, rfl⟩ := exists_reading_of_mem hmem
  have hname : d.headword ≠ [] := hheadword
  have heuphonic := isEuphonic_of_mem hreading hmem
  refine ⟨_, segmentation?_of_reading hreading heuphonic hname, ?_⟩
  rw [Analysis.suffixParts_ofPieces hname hreading.attached.colon_not_mem]
  exact hreading.attached.foldsRovers

/-- Without a required tag the headword of a reading has an entry, or it needs none. -/
theorem contribution_ne_nil_of_segmentation? {segmentation : List Text}
    (htag : kind.requiredTag = none) (h : segmentation? lexicon kind word = some segmentation) :
    contribution lexicon kind word ≠ [] := by
  obtain ⟨captures, hcaptures, _⟩ := Option.map_eq_some_iff.mp h
  obtain ⟨hread, heuphonic⟩ := Option.filter_eq_some_iff.mp hcaptures
  intro hnone
  have hentries := contribution_eq_nil_iff.mp hnone captures hread (isEuphonic_iff.mp heuphonic)
  obtain ⟨_, hhomographs, hall⟩ := entriesOf_eq_nil_iff.mp hentries
  obtain ⟨entry, hentry⟩ := List.exists_mem_of_ne_nil _ hhomographs
  have htagged := hall entry hentry
  rw [htag] at htagged
  cases htagged

/-- An analysis by a template with a headword has morphemes that begin with its prefix, if it has
one, and its headword; its suffixes are what follows, without rovers that stand directly behind other
suffixes. If the template of nouns, of numbers or of verbs divides the word, with a headword or
without, the word has an analysis. -/
theorem morphemes_of_analyses (lexicon : Lexicon) (word : Text) :
    (∀ analysis ∈ (ofLexicon lexicon).analyze word, analysis.broad ≠ .other →
      analysis.headword ≠ [] →
      ∃ back, analysis.verbPrefix.toList ++ analysis.headword :: back ∈
          (ofLexicon lexicon).morphemes word ∧
        FoldsRovers back analysis.suffixParts) ∧
    ∀ kind ∈ [TemplateKind.noun, .number, .verb], ∀ segmentation,
      segmentation? lexicon kind word = some segmentation →
      segmentation ∈ (ofLexicon lexicon).morphemes word ∧ (ofLexicon lexicon).analyze word ≠ [] := by
  constructor
  · intro analysis hmem hclass hheadword
    obtain ⟨kind, found, hfound, rfl⟩ := exists_contribution_of_mem hmem hclass
    obtain ⟨back, hsegmentation, hfolds⟩ := exists_segmentation_of_mem hfound hheadword
    exact ⟨back, mem_morphemes.mpr ⟨kind, hsegmentation⟩, hfolds⟩
  · intro kind hkind segmentation hsegmentation
    have htag : kind.requiredTag = none := by
      simp only [List.mem_cons, List.not_mem_nil, or_false] at hkind
      rcases hkind with rfl | rfl | rfl <;> rfl
    refine ⟨mem_morphemes.mpr ⟨kind, hsegmentation⟩, fun hnone => ?_⟩
    exact contribution_ne_nil_of_segmentation? htag hsegmentation
      ((analyze_eq_nil_iff.mp hnone).1 kind)

/-- A verb with a prefix and two rovers, of which the first is recorded with the suffix before it. -/
theorem morphemes_of_analyses_fighting :
    (∃ analysis ∈ (ofLexicon fighting).analyze "jISuvpu'be'qu'", analysis.broad ≠ .other ∧
      analysis.headword ≠ [] ∧ analysis.verbPrefix = some "jI-".toList ∧
      analysis.suffixParts = ["-pu'".toList, "-qu'".toList] ∧
      ∃ back, analysis.verbPrefix.toList ++ analysis.headword :: back ∈
          (ofLexicon fighting).morphemes "jISuvpu'be'qu'" ∧
        FoldsRovers back analysis.suffixParts) ∧
    ∃ segmentation, segmentation? fighting .verb "jISuvpu'be'qu'" = some segmentation ∧
      segmentation ∈ (ofLexicon fighting).morphemes "jISuvpu'be'qu'" ∧
      (ofLexicon fighting).analyze "jISuvpu'be'qu'" ≠ [] := by
  have hfound : ∃ analysis ∈ (ofLexicon fighting).analyze "jISuvpu'be'qu'",
      analysis.broad ≠ .other ∧ analysis.headword ≠ [] ∧ analysis.verbPrefix = some "jI-".toList ∧
        analysis.suffixParts = ["-pu'".toList, "-qu'".toList] := by
    decide +kernel
  have hdivided : (segmentation? fighting .verb "jISuvpu'be'qu'").isSome = true := by
    decide +kernel
  obtain ⟨hanalyses, hdivisions⟩ := morphemes_of_analyses fighting "jISuvpu'be'qu'"
  obtain ⟨analysis, hmem, hclass, hheadword, hfront, hparts⟩ := hfound
  obtain ⟨segmentation, hsegmentation⟩ := Option.isSome_iff_exists.mp hdivided
  constructor
  · exact ⟨analysis, hmem, hclass, hheadword, hfront, hparts,
      hanalyses analysis hmem hclass hheadword⟩
  · exact ⟨segmentation, hsegmentation, hdivisions .verb (by decide) segmentation hsegmentation⟩

end Analyzer

end Klingon
