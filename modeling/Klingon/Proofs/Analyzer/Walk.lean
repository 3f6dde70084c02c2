import Klingon.Proofs.Analyzer.Attachment

/-!
# The analyses of one reading

A reading gives one analysis for each entry that its headword may have: the homographs with the
required tag, or no entry where there is no homograph. The analyses of a reading differ in what they
take from the entry only.
-/

namespace Klingon

/-- What a capture holds, without the byte at which it starts. -/
def Capture.piece (capture : Capture) : PieceRole × Text :=
  (capture.role, capture.text)

namespace Analysis

/-- Records a suffix. -/
def attach (analysis : Analysis) (a : Attachment) : Analysis :=
  { analysis with
    suffixes := Ordered.put a.slot a.written analysis.suffixes
    parts := analysis.parts ++ [a.part] }

/-- The analysis of a word that consists of a prefix, a headword with its entry, and suffixes. -/
def ofPieces (kind : TemplateKind) (word front headword : Text) (attached : List Attachment)
    (chosen : Option Entry) : Analysis :=
  { word
    broad := kind.headwordClass
    headword
    fine := (chosen.map (·.fineTag)).getD .unknown
    sourceTag := (chosen.map (·.pos)).getD "?"
    entryId := (chosen.map (·.id)).getD "?"
    parts :=
      (if front = [] then [] else [front ++ "-:" ++ kind.headwordClass.key]) ++
        (if headword = [] then [] else [(chosen.map (·.id)).getD headword]) ++
          attached.map (·.part)
    verbPrefix := if front = [] then none else some (front ++ "-")
    suffixes := Ordered.ofPairs (attached.map fun a => (a.slot, a.written)) }

theorem foldl_attach (attached : List Attachment) (analysis : Analysis) :
    attached.foldl attach analysis =
      { analysis with
        suffixes := (attached.map fun a => (a.slot, a.written)).foldl
          (fun map p => Ordered.put p.1 p.2 map) analysis.suffixes
        parts := analysis.parts ++ attached.map (·.part) } := by
  induction attached generalizing analysis with
  | nil => simp
  | cons a rest ih =>
    rw [List.foldl_cons, ih]
    simp [attach]

end Analysis

namespace Analyzer

variable {lexicon : Lexicon} {kind : TemplateKind} {wordClass : WordClass}
  {captures : List Capture} {analysis : Analysis}

theorem addSuffix_eq {slot : SuffixSlot} {text rover : Text}
    (h : Affix.slot? ("-" ++ text) wordClass = some slot) :
    addSuffix wordClass text rover analysis = analysis.attach ⟨slot, wordClass, text, rover⟩ := by
  rw [addSuffix, h]
  rfl

/-- Suffixes are recorded one after the other. -/
theorem walk_suffixes (h : Attached wordClass (captures.map (·.piece))) :
    walk lexicon kind wordClass captures analysis =
      [(attachments wordClass (captures.map (·.piece))).foldl Analysis.attach analysis] := by
  fun_induction walk lexicon kind wordClass captures analysis with
  | case1 => rfl
  | case2 wordClass capture rest analysis hrole =>
    obtain ⟨role, text, start⟩ := capture
    cases hrole
    cases h
  | case3 wordClass capture rest analysis hrole =>
    obtain ⟨role, text, start⟩ := capture
    cases hrole
    cases h
  | case4 wordClass capture analysis slot fixed hrole =>
    obtain ⟨role, text, start⟩ := capture
    cases hrole
    cases h with
    | cons hslot hfree hrest =>
      show [addSuffix (fixed.getD wordClass) text [] analysis] = _
      rw [addSuffix_eq hslot]
      rfl
  | case5 wordClass capture analysis slot fixed hrole suffixClass next following rest hrover ih =>
    obtain ⟨role, text, start⟩ := capture
    cases hrole
    cases h with
    | cons hslot hfree hrest =>
      rw [ih (hrest.of_rover hrover), addSuffix_eq hslot]
      simp only [List.map_cons, Capture.piece, attachments, hrover, if_true]
      rfl
  | case6 wordClass capture analysis slot fixed hrole suffixClass next following rest hrover ih =>
    obtain ⟨role, text, start⟩ := capture
    cases hrole
    cases h with
    | cons hslot hfree hrest =>
      rw [ih hrest, addSuffix_eq hslot]
      simp only [List.map_cons, Capture.piece, attachments, hrover]
      rfl

/-- The entries that the headword of a reading may have. An empty headword has none. -/
def entriesOf (lexicon : Lexicon) (kind : TemplateKind) (headword : Text) : List (Option Entry) :=
  if headword = [] ∨ lexicon.homographs headword kind.headwordClass = [] then [none]
  else
    ((lexicon.homographs headword kind.headwordClass).filter fun entry =>
      kind.requiredTag.all entry.hasTag).map some

theorem expandHeadword_eq {headword : Text} (hheadword : headword ≠ []) :
    expandHeadword lexicon kind headword analysis =
      (entriesOf lexicon kind headword).map fun chosen =>
        { analysis with
          headword
          parts := analysis.parts ++ [(chosen.map (·.id)).getD headword]
          fine := (chosen.map (·.fineTag)).getD analysis.fine
          sourceTag := (chosen.map (·.pos)).getD analysis.sourceTag
          entryId := (chosen.map (·.id)).getD analysis.entryId } := by
  rw [expandHeadword, entriesOf]
  cases hentries : lexicon.homographs headword kind.headwordClass with
  | nil => simp
  | cons first rest =>
    rw [if_neg (by simp [hheadword])]
    simp only [List.map_map]
    rfl

/-- Behind the headword every analysis goes on with the same suffixes. -/
theorem walk_headword {headword : Text} {start : Nat}
    (h : Attached kind.inflectionClass (captures.map (·.piece))) :
    walk lexicon kind wordClass (⟨.headword, headword, start⟩ :: captures) analysis =
      (expandHeadword lexicon kind headword analysis).map fun branch =>
        (attachments kind.inflectionClass (captures.map (·.piece))).foldl Analysis.attach branch := by
  show (expandHeadword lexicon kind headword analysis).flatMap
    (walk lexicon kind kind.inflectionClass captures) = _
  rw [List.map_eq_flatMap]
  congr 1
  funext branch
  exact walk_suffixes h

end Analyzer

namespace Attached

variable {wordClass : WordClass} {pieces : List (PieceRole × Text)}

/-- No suffix is empty. -/
theorem ne_nil (h : Attached wordClass pieces) : ∀ piece ∈ pieces, piece.2 ≠ [] := by
  induction h with
  | nil => exact fun piece hpiece => absurd hpiece List.not_mem_nil
  | @cons wordClass slot fixed text rest hslot hrover hrest ih =>
    have hempty : ∀ wordClass, Affix.slot? ("-" ++ ([] : Text)) wordClass = none := by
      intro wordClass
      cases wordClass <;> decide +kernel
    rw [List.forall_mem_cons]
    refine ⟨?_, ih⟩
    rintro rfl
    rw [hempty] at hslot
    cases hslot

theorem map_piece_ofPieces (h : Attached wordClass pieces) (start : Nat) :
    (Capture.ofPieces start pieces).map (·.piece) = pieces := by
  have hne := h.ne_nil
  clear h
  fun_induction Capture.ofPieces start pieces with
  | case1 => rfl
  | case2 start role rest ih => exact absurd rfl (hne _ List.mem_cons_self)
  | case3 start role text rest htext ih =>
    rw [List.map_cons, ih fun piece hpiece => hne piece (List.mem_cons_of_mem _ hpiece)]
    rfl

theorem piece_mem (h : Attached wordClass pieces) {start : Nat} {capture : Capture}
    (hcapture : capture ∈ Capture.ofPieces start pieces) : capture.piece ∈ pieces := by
  rw [← h.map_piece_ofPieces start]
  exact List.mem_map_of_mem hcapture

end Attached

/-! ## The pieces of a reading -/

namespace Capture

/-- The text of the piece with a role; it is empty if there is no such piece. -/
def textOf (role : PieceRole) (captures : List Capture) : Text :=
  ((captures.find? (·.role = role)).map (·.text)).getD []

/-- The suffixes among the pieces. -/
def suffixPieces (captures : List Capture) : List (PieceRole × Text) :=
  (captures.map (·.piece)).filter (·.1.slot?.isSome)

theorem suffixPieces_cons (capture : Capture) (rest : List Capture) :
    suffixPieces (capture :: rest) =
      if capture.role.slot?.isSome then capture.piece :: suffixPieces rest
      else suffixPieces rest := by
  rw [suffixPieces, List.map_cons, List.filter_cons]
  rfl

end Capture

/-- The analysis of a word by the captures of a reading and an entry for the headword. -/
def Analysis.ofCaptures (kind : TemplateKind) (word : Text) (captures : List Capture)
    (chosen : Option Entry) : Analysis :=
  ofPieces kind word (Capture.textOf .verbPrefix captures) (Capture.textOf .headword captures)
    (attachments kind.inflectionClass (Capture.suffixPieces captures)) chosen

theorem Attached.isSome_slot? {wordClass : WordClass} {pieces : List (PieceRole × Text)}
    (h : Attached wordClass pieces) : ∀ piece ∈ pieces, piece.1.slot?.isSome = true := by
  induction h with
  | nil => exact fun piece hpiece => absurd hpiece List.not_mem_nil
  | cons hslot hrover hrest ih =>
    rw [List.forall_mem_cons]
    exact ⟨rfl, ih⟩

/-- The pieces of a reading as they are captured. -/
structure Capture.Holds (captures : List Capture) (d : Division)
    (suffixes : List (PieceRole × Text)) : Prop where
  front : textOf .verbPrefix captures = d.front
  headword : textOf .headword captures = d.headword
  suffixes : suffixPieces captures = suffixes

theorem Capture.holds_ofPieces {wordClass : WordClass} {d : Division}
    {suffixes : List (PieceRole × Text)} (h : Attached wordClass suffixes) :
    Holds (ofPieces 0 (Template.piecesOf d suffixes)) d suffixes := by
  have hsome := h.isSome_slot?
  have hrole : ∀ start role, role.slot? = none →
      (ofPieces start suffixes).find? (·.role = role) = none := by
    intro start role hnone
    rw [List.find?_eq_none]
    intro capture hcapture
    have hslot := hsome _ (h.piece_mem hcapture)
    simp only [decide_eq_true_eq]
    rintro rfl
    rw [show capture.piece.1.slot? = none from hnone] at hslot
    cases hslot
  obtain ⟨front, headword, tail⟩ := d
  unfold Template.piecesOf
  constructor
  · by_cases hfront : front = [] <;> by_cases hheadword : headword = [] <;>
      simp [ofPieces, textOf, hfront, hheadword, hrole _ .verbPrefix rfl]
  · by_cases hfront : front = [] <;> by_cases hheadword : headword = [] <;>
      simp [ofPieces, textOf, hfront, hheadword, hrole _ .headword rfl]
  · have hsuffixes : ∀ start, suffixPieces (ofPieces start suffixes) = suffixes := by
      intro start
      rw [suffixPieces, h.map_piece_ofPieces, List.filter_eq_self.mpr hsome]
    by_cases hfront : front = [] <;> by_cases hheadword : headword = [] <;>
      simp [ofPieces, hfront, hheadword, suffixPieces_cons, PieceRole.slot?, hsuffixes]

theorem Capture.Holds.ofCaptures_eq {kind : TemplateKind} {word : Text} {captures : List Capture}
    {d : Division} {suffixes : List (PieceRole × Text)} (h : Holds captures d suffixes) :
    Analysis.ofCaptures kind word captures =
      Analysis.ofPieces kind word d.front d.headword
        (attachments kind.inflectionClass suffixes) := by
  funext chosen
  rw [Analysis.ofCaptures, h.front, h.headword, h.suffixes]

namespace Analyzer

variable {lexicon : Lexicon} {kind : TemplateKind} {d : Division}
  {suffixes : List (PieceRole × Text)} {word : Text}

/-- A word of which no more than the prefix is read. -/
def opening (kind : TemplateKind) (word front : Text) : Analysis :=
  { word
    broad := kind.headwordClass
    parts := if front = [] then [] else [front ++ "-:" ++ kind.headwordClass.key]
    verbPrefix := if front = [] then none else some (front ++ "-") }

theorem walk_behind {front headword : Text} {start : Nat}
    (h : Attached kind.inflectionClass suffixes)
    (hclass : headword = [] → kind.headwordClass = kind.inflectionClass) :
    walk lexicon kind kind.headwordClass
        (Capture.ofPieces start ((.headword, headword) :: suffixes)) (opening kind word front) =
      (entriesOf lexicon kind headword).map
        (Analysis.ofPieces kind word front headword
          (attachments kind.inflectionClass suffixes)) := by
  have hsuffixes : ∀ start, Attached kind.inflectionClass
      ((Capture.ofPieces start suffixes).map (·.piece)) := by
    intro start
    rwa [h.map_piece_ofPieces]
  by_cases hempty : headword = []
  · rw [hclass hempty, Capture.ofPieces, if_pos hempty, walk_suffixes (hsuffixes start),
      h.map_piece_ofPieces, entriesOf, if_pos (.inl hempty), Analysis.foldl_attach]
    simp [hempty, Analysis.ofPieces, opening, Ordered.ofPairs]
  · rw [Capture.ofPieces, if_neg hempty, walk_headword (hsuffixes _), h.map_piece_ofPieces,
      expandHeadword_eq hempty, List.map_map]
    refine List.map_congr_left fun chosen _ => ?_
    rw [Function.comp_apply, Analysis.foldl_attach]
    simp [hempty, Analysis.ofPieces, opening, Ordered.ofPairs]

/-- A reading gives one analysis for each entry its headword may have. -/
theorem walk_ofPieces (h : Attached kind.inflectionClass suffixes)
    (hclass : d.headword = [] → kind.headwordClass = kind.inflectionClass) :
    walk lexicon kind kind.headwordClass (Capture.ofPieces 0 (Template.piecesOf d suffixes))
        { word, broad := kind.headwordClass } =
      (entriesOf lexicon kind d.headword).map
        (Analysis.ofCaptures kind word (Capture.ofPieces 0 (Template.piecesOf d suffixes))) := by
  rw [(Capture.holds_ofPieces h).ofCaptures_eq, Template.piecesOf, Capture.ofPieces]
  split
  · next hempty =>
    rw [← walk_behind h hclass, opening, if_pos hempty, if_pos hempty]
  · next hne =>
    rw [← walk_behind h hclass, opening, if_neg hne, if_neg hne]
    rfl

end Analyzer

end Klingon
