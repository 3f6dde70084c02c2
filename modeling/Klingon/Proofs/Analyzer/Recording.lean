import Klingon.Proofs.Analyzer.Spelling

/-!
# Where suffixes are recorded

Walking the captures of a reading looks up each suffix behind the class of the word so far. It finds
the position of the template that captured the suffix; only a rover directly behind a suffix is not
looked up but added to it. No position is taken twice, apart from that of the rovers.
-/

namespace Klingon

open Analyzer (classAfter)

/-! ## The positions of an ending -/

namespace Ending

/-- The suffix positions, in the order in which they are written down. -/
def positions : Ending → List Position
  | stop => []
  | position p _ next => p :: next.positions
  | either first second => first.positions ++ second.positions

/-- Every piece fills a position. -/
theorem Spells.exists_position {ending : Ending} {text : Text} {pieces : List (PieceRole × Text)}
    (h : ending.Spells text pieces) :
    ∀ piece ∈ pieces, ∃ p ∈ ending.positions, piece.1 = p.role ∧ piece.2 ∈ p.spellings := by
  induction h with
  | stop => exact fun piece hpiece => absurd hpiece List.not_mem_nil
  | @fill p required next spelling rest pieces hmem hnext ih =>
    rw [List.forall_mem_cons]
    refine ⟨⟨p, List.mem_cons_self, rfl, hmem⟩, fun piece hpiece => ?_⟩
    obtain ⟨q, hq, hfills⟩ := ih piece hpiece
    exact ⟨q, List.mem_cons_of_mem p hq, hfills⟩
  | @skip p next text pieces hnext ih =>
    intro piece hpiece
    obtain ⟨q, hq, hfills⟩ := ih piece hpiece
    exact ⟨q, List.mem_cons_of_mem p hq, hfills⟩
  | first h ih =>
    intro piece hpiece
    obtain ⟨q, hq, hfills⟩ := ih piece hpiece
    exact ⟨q, List.mem_append_left _ hq, hfills⟩
  | second h ih =>
    intro piece hpiece
    obtain ⟨q, hq, hfills⟩ := ih piece hpiece
    exact ⟨q, List.mem_append_right _ hq, hfills⟩

end Ending

/-! ## Recorded pieces -/

/-- How the suffixes of a reading are recorded behind a word of a class. The affix tables give each
of them the position that captured it, behind this class or behind the class that the position
fixes. A rover directly behind a recorded suffix is added to it and not looked up. -/
inductive Recorded : WordClass → List (PieceRole × Text) → List Attachment → Prop
  | nil {wordClass : WordClass} : Recorded wordClass [] []
  | alone {wordClass : WordClass} {slot : SuffixSlot} {fixed : Option WordClass} {text : Text}
      {rest : List (PieceRole × Text)} {attached : List Attachment}
      (hslot : Affix.slot? ("-" ++ text) (fixed.getD wordClass) = some slot)
      (hnext : ∀ next ∈ rest.head?, Affix.isRover next.2 = false)
      (hrest : Recorded (classAfter (fixed.getD wordClass) text) rest attached) :
      Recorded wordClass ((.suffix slot fixed, text) :: rest)
        (⟨slot, fixed.getD wordClass, text, []⟩ :: attached)
  | withRover {wordClass : WordClass} {slot : SuffixSlot} {fixed : Option WordClass}
      {text rover : Text} {rest : List (PieceRole × Text)} {attached : List Attachment}
      (hslot : Affix.slot? ("-" ++ text) (fixed.getD wordClass) = some slot)
      (hrover : Affix.isRover rover = true)
      (hrest : Recorded (classAfter (fixed.getD wordClass) text) rest attached) :
      Recorded wordClass ((.suffix slot fixed, text) :: (.suffix .vr none, rover) :: rest)
        (⟨slot, fixed.getD wordClass, text, rover⟩ :: attached)

/-- Suffixes at the positions that the affix tables give them are recorded one after the other. -/
theorem Attached.recorded {wordClass : WordClass} {pieces : List (PieceRole × Text)}
    (h : Attached wordClass pieces) : Recorded wordClass pieces (attachments wordClass pieces) := by
  fun_induction attachments wordClass pieces with
  | case1 wordClass slot fixed text role following rest suffixClass hrover ih =>
    cases h with
    | cons hslot hfree hattached =>
      have hbehind := ih (hattached.of_rover hrover)
      cases hattached with
      | cons hslot' hfree' hattached' =>
        obtain ⟨rfl, rfl⟩ := hfree' hrover
        exact .withRover hslot hrover hbehind
  | case2 wordClass slot fixed text role following rest suffixClass hrover ih =>
    cases h with
    | cons hslot hfree hattached =>
      refine .alone hslot (fun next hnext => ?_) (ih hattached)
      cases hnext
      exact Bool.eq_false_iff.mpr hrover
  | case3 wordClass slot fixed text =>
    cases h with
    | cons hslot hfree hattached =>
      exact .alone hslot (fun next hnext => (Option.not_mem_none _ hnext).elim) .nil
  | case4 wordClass pieces hmany hone =>
    cases h.eq_nil hmany hone
    exact .nil

/-- Apart from the rovers, the suffixes of a reading are recorded in the order of their positions. -/
theorem Lexicon.Reading.increasing_slots {lexicon : Lexicon} {kind : TemplateKind} {word : Text}
    {d : Division} {suffixes : List (PieceRole × Text)} (h : lexicon.Reading kind word d suffixes) :
    (((attachments kind.inflectionClass suffixes).map (·.slot)).filter (· ≠ .vr)).Pairwise
      (compare · · = .lt) := by
  obtain ⟨row, hrow, hsub⟩ := h.spells_ending.exists_slotRow
  have hslots := (sublist_slotsOf kind.inflectionClass suffixes).trans hsub
  exact (kind.increasing_slotRows row hrow).sublist (hslots.filter (· ≠ .vr))

/-- Apart from that of the rovers, no position of a reading is taken twice. -/
theorem Lexicon.Reading.nodup_slots {lexicon : Lexicon} {kind : TemplateKind} {word : Text}
    {d : Division} {suffixes : List (PieceRole × Text)} (h : lexicon.Reading kind word d suffixes) :
    (((attachments kind.inflectionClass suffixes).map (·.slot)).filter (· ≠ .vr)).Nodup := by
  refine h.increasing_slots.imp fun {slot slot'} hlt => ?_
  rintro rfl
  rw [Std.ReflOrd.compare_self] at hlt
  cases hlt

namespace Analyzer

variable {lexicon : Lexicon} {template : Template} {word : Text} {captures : List Capture}

/-- The suffixes of every match of a template of a lexicon are captured by positions of the
template, and its analyses record them where they were captured: the affix tables find the position
of each suffix behind the class of the word so far, except for rovers, which may also be added to
the suffix before them. No position but that of the rovers is taken twice. -/
theorem suffixes_recorded (hmem : template ∈ lexicon.templates)
    (hcaptures : euphonicCaptures? template word = some captures) :
    (∀ piece ∈ Capture.suffixPieces captures, ∃ p ∈ template.ending.positions,
      piece.1 = p.role ∧ piece.2 ∈ p.spellings) ∧
    ∃ attached,
      Recorded template.kind.inflectionClass (Capture.suffixPieces captures) attached ∧
      ((attached.map (·.slot)).filter (· ≠ .vr)).Nodup ∧
      byTemplate lexicon template word =
        (entriesOf lexicon template.kind (Capture.textOf .headword captures)).map
          (Analysis.ofPieces template.kind word (Capture.textOf .verbPrefix captures)
            (Capture.textOf .headword captures) attached) := by
  rw [Lexicon.templates_eq] at hmem
  obtain ⟨kind, _, rfl⟩ := List.mem_map.mp hmem
  obtain ⟨hread, heuphonic⟩ := Option.filter_eq_some_iff.mp hcaptures
  obtain ⟨d, suffixes, hreading, rfl⟩ := exists_reading_of_captures hread
  have hholds : Capture.Holds (Capture.ofPieces 0 (Template.piecesOf d suffixes)) d suffixes :=
    Capture.holds_ofPieces hreading.attached
  rw [hholds.suffixes, hholds.headword, hholds.front, Lexicon.kind_template]
  refine ⟨hreading.spells.exists_position, attachments kind.inflectionClass suffixes,
    hreading.attached.recorded, hreading.nodup_slots, ?_⟩
  rw [byTemplate_eq, contribution_eq_of_reading hreading, if_pos (isEuphonic_iff.mp heuphonic)]

/-- A verb that is made a noun behind three rovers, with suffixes that mean something else behind a
verb. -/
theorem suffixes_recorded_fighting :
    fighting.template .verb ∈ fighting.templates ∧
      ∃ captures, euphonicCaptures? (fighting.template .verb) "Suvbe'qu'be'wI'pu'wI'mo'" =
          some captures ∧
        (∀ piece ∈ Capture.suffixPieces captures, ∃ p ∈ (fighting.template .verb).ending.positions,
          piece.1 = p.role ∧ piece.2 ∈ p.spellings) ∧
        ∃ attached, Recorded (fighting.template .verb).kind.inflectionClass
            (Capture.suffixPieces captures) attached ∧
          ((attached.map (·.slot)).filter (· ≠ .vr)).Nodup ∧
          byTemplate fighting (fighting.template .verb) "Suvbe'qu'be'wI'pu'wI'mo'" =
            (entriesOf fighting (fighting.template .verb).kind
              (Capture.textOf .headword captures)).map
              (Analysis.ofPieces (fighting.template .verb).kind "Suvbe'qu'be'wI'pu'wI'mo'"
                (Capture.textOf .verbPrefix captures) (Capture.textOf .headword captures)
                attached) := by
  have hmem := fighting.template_mem_templates .verb
  have hsome :
      (euphonicCaptures? (fighting.template .verb) "Suvbe'qu'be'wI'pu'wI'mo'").isSome = true := by
    decide +kernel
  obtain ⟨captures, hcaptures⟩ := Option.isSome_iff_exists.mp hsome
  exact ⟨hmem, captures, hcaptures, suffixes_recorded hmem hcaptures⟩

end Analyzer

end Klingon
