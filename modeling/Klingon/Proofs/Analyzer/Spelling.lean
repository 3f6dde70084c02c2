import Klingon.Proofs.Analyzer.Readings

/-!
# What the recorded pieces of a word spell

An analysis keeps the prefix, the headword and one suffix for each position. Read in the order of
the positions they spell the word again, unless a rover or -Ha' is recorded on its own behind other
suffixes: its position is the first one, so it is moved to the front, or it replaces what was there.
-/

namespace Klingon

instance : Std.TransOrd SuffixSlot where
  eq_swap := Std.OrientedOrd.eq_swap (α := Nat)
  isLE_trans := Std.TransOrd.isLE_trans (α := Nat)

/-! ## The order of the positions -/

theorem SuffixSlot.vr_lt {slot : SuffixSlot} (hne : slot ≠ .vr) : compare .vr slot = .lt := by
  cases slot
  case vr => exact absurd rfl hne
  all_goals rfl

/-- A rover comes first in a map. -/
theorem eq_cons_of_rover_mem {map : List (SuffixSlot × Text)} {text : Text}
    (hmap : Ordered.Increasing map) (hmem : (.vr, text) ∈ map) :
    ∃ more, map = (.vr, text) :: more := by
  cases map with
  | nil => exact absurd hmem List.not_mem_nil
  | cons least more =>
    refine ⟨more, ?_⟩
    rcases List.mem_cons.mp hmem with heq | hmore
    · rw [← heq]
    · have hlt : compare least.1 .vr = .lt :=
        (List.pairwise_cons.mp hmap).1 .vr (List.mem_map_of_mem hmore)
      have hgt : compare .vr least.1 = .gt := Std.OrientedCmp.gt_of_lt hlt
      by_cases heq : least.1 = .vr
      · rw [heq] at hlt
        cases hlt
      · rw [SuffixSlot.vr_lt heq] at hgt
        cases hgt

namespace Ending

variable {ending : Ending} {text : Text} {pieces : List (PieceRole × Text)}

/-- The positions of the ways to go through an ending. -/
def slotRows : Ending → List (List SuffixSlot)
  | stop => [[]]
  | position p _ next => next.slotRows.map (p.slot :: ·)
  | either first second => first.slotRows ++ second.slotRows

theorem Spells.exists_slotRow (h : ending.Spells text pieces) :
    ∃ row ∈ ending.slotRows, (slotsOf pieces).Sublist row := by
  induction h with
  | stop => exact ⟨[], List.mem_singleton_self [], List.Sublist.refl []⟩
  | @fill p required next spelling rest pieces hmem hnext ih =>
    obtain ⟨row, hrow, hsub⟩ := ih
    exact ⟨p.slot :: row, List.mem_map_of_mem hrow, hsub.cons_cons p.slot⟩
  | @skip p next text pieces hnext ih =>
    obtain ⟨row, hrow, hsub⟩ := ih
    exact ⟨p.slot :: row, List.mem_map_of_mem hrow, hsub.cons p.slot⟩
  | first h ih =>
    obtain ⟨row, hrow, hsub⟩ := ih
    exact ⟨row, List.mem_append_left _ hrow, hsub⟩
  | second h ih =>
    obtain ⟨row, hrow, hsub⟩ := ih
    exact ⟨row, List.mem_append_right _ hrow, hsub⟩

end Ending

/-- Apart from the rovers, the positions of every kind of word are in order. -/
theorem TemplateKind.increasing_slotRows (kind : TemplateKind) : ∀ row ∈ kind.ending.slotRows,
    (row.filter (· ≠ .vr)).Pairwise (compare · · = .lt) := by
  cases kind <;> decide +kernel

/-! ## What is spelled -/

namespace Analysis

/-- The recorded pieces from left to right, without their dashes: the prefix, the headword and the
suffixes in the order of their positions. -/
def spelled (analysis : Analysis) : Text :=
  (analysis.verbPrefix.map List.dropLast).getD [] ++ analysis.headword ++
    (analysis.suffixes.map (·.2.tail)).flatten

theorem spelled_ofPieces (kind : TemplateKind) (word front headword : Text)
    (attached : List Attachment) (chosen : Option Entry) :
    (ofPieces kind word front headword attached chosen).spelled =
      front ++ headword ++
        ((Ordered.ofPairs (attached.map fun a => (a.slot, a.written))).map (·.2.tail)).flatten := by
  have hfront : ((if front = [] then none else some (front ++ "-".toList)).map
      List.dropLast).getD [] = front := by
    split
    · next hempty => exact hempty.symm
    · exact List.dropLast_concat
  show ((if front = [] then none else some (front ++ "-".toList)).map List.dropLast).getD [] ++
    headword ++ _ = _
  rw [hfront]
  rfl

end Analysis

/-- What the affix tables find is one of their rows. -/
theorem Affix.mem_of_slot? {text : Text} {wordClass : WordClass} {slot : SuffixSlot}
    (h : slot? ("-" ++ text) wordClass = some slot) : ⟨text, wordClass, slot⟩ ∈ suffixes := by
  change (suffixes.find? fun s => s.spelling = text && s.wordClass = wordClass).bind
    (fun s => some s.slot) = some slot at h
  obtain ⟨suffix, hfind, hslot⟩ := Option.bind_eq_some_iff.mp h
  have hfound := List.find?_some hfind
  rw [Bool.and_eq_true, decide_eq_true_eq, decide_eq_true_eq] at hfound
  obtain ⟨rfl, rfl⟩ := hfound
  cases hslot
  exact List.mem_of_find?_eq_some hfind

namespace Attached

variable {wordClass : WordClass} {pieces : List (PieceRole × Text)}

/-- Suffixes behind the first that are no rovers are in the order of their positions. -/
theorem increasing_slots {attached : List Attachment} {row : List SuffixSlot}
    (hsub : (attached.map (·.slot)).Sublist row)
    (hrow : (row.filter (· ≠ .vr)).Pairwise (compare · · = .lt))
    (hfree : ∀ a ∈ attached.tail, a.slot ≠ .vr) :
    (attached.map (·.slot)).Pairwise (compare · · = .lt) := by
  have hfiltered := hrow.sublist (hsub.filter (· ≠ .vr))
  cases attached with
  | nil => exact List.Pairwise.nil
  | cons first rest =>
    have hrest : (rest.map (·.slot)).filter (· ≠ .vr) = rest.map (·.slot) := by
      rw [List.filter_eq_self]
      intro slot hslot
      obtain ⟨a, ha, rfl⟩ := List.mem_map.mp hslot
      exact decide_eq_true (hfree a ha)
    rw [List.map_cons, List.filter_cons, hrest] at hfiltered
    split at hfiltered
    · exact hfiltered
    · next hfirst =>
      have hvr : first.slot = .vr := by simpa using hfirst
      rw [List.map_cons, hvr]
      refine List.pairwise_cons.mpr ⟨fun slot hslot => ?_, hfiltered⟩
      obtain ⟨a, ha, rfl⟩ := List.mem_map.mp hslot
      exact SuffixSlot.vr_lt (hfree a ha)

/-- A suffix that is spelled like a rover is one. -/
theorem slot_eq_of_text_eq {text : Text} {wordClass wordClass' : WordClass} {slot : SuffixSlot}
    (hrover : Affix.slot? ("-" ++ text) wordClass = some .vr)
    (h : Affix.slot? ("-" ++ text) wordClass' = some slot) : slot = .vr := by
  have htable : ∀ rover ∈ Affix.suffixes, rover.slot = .vr → ∀ suffix ∈ Affix.suffixes,
      suffix.spelling = rover.spelling → suffix.slot = .vr := by
    decide +kernel
  exact htable _ (Affix.mem_of_slot? hrover) rfl _ (Affix.mem_of_slot? h) rfl

variable {attached : List Attachment}

/-- The recorded suffixes as they are bound to their positions. -/
def bindings (attached : List Attachment) : List (SuffixSlot × Text) :=
  attached.map fun a => (a.slot, a.written)

theorem map_fst_bindings : (bindings attached).map (·.1) = attached.map (·.slot) := by
  rw [bindings, List.map_map]
  rfl

theorem flatten_bindings : ((bindings attached).map (·.2.tail)).flatten =
    (attached.map fun a => a.text ++ a.rover).flatten := by
  rw [bindings, List.map_map]
  rfl

/-- If no text is lost in the map of the recorded suffixes, no position is taken twice. -/
theorem nodup_slots (hne : ∀ a ∈ attached, a.text ≠ [])
    (hkept : (attached.map fun a => a.text ++ a.rover).flatten.length ≤
      ((Ordered.ofPairs (bindings attached)).map (·.2.tail)).flatten.length) :
    (attached.map (·.slot)).Nodup := by
  let length : Text → Nat := fun text => text.tail.length
  have htotal : ∀ map : List (SuffixSlot × Text),
      Ordered.total length map = ((map.map (·.2.tail)).flatten).length := by
    intro map
    induction map with
    | nil => rfl
    | cons p rest ih =>
      rw [Ordered.total_cons, ih, List.map_cons, List.flatten_cons, List.length_append]
  have hpos : ∀ p ∈ bindings attached, 0 < length p.2 := by
    intro p hp
    obtain ⟨a, ha, rfl⟩ := List.mem_map.mp hp
    show 0 < (a.text ++ a.rover).length
    rw [List.length_append]
    exact Nat.add_pos_left (List.length_pos_iff.mpr (hne a ha)) _
  rw [← map_fst_bindings]
  refine Ordered.nodup_of_total_ofPairs hpos ?_
  rw [htotal, htotal, flatten_bindings]
  exact hkept

/-- Two suffixes at the start of one text are the same. -/
theorem eq_of_append_eq {a b rest rest' : Text} (ha : a ∈ Ending.nounAndVerbSpellings)
    (hb : b ∈ Ending.nounAndVerbSpellings) (h : a ++ rest = b ++ rest') : a = b := by
  rcases List.prefix_or_prefix_of_prefix (List.prefix_append a rest)
    (h ▸ List.prefix_append b rest') with hle | hle
  · exact Ending.prefixFree_nounAndVerbSpellings a ha b hb hle
  · exact (Ending.prefixFree_nounAndVerbSpellings b hb a ha hle).symm

/-- If the map of the recorded suffixes spells what they spell themselves, no suffix behind the first
is a rover. -/
theorem rovers_first
    (hslots : ∀ a ∈ attached, Affix.slot? ("-" ++ a.text) a.wordClass = some a.slot)
    (htexts : ∀ a ∈ attached, a.text ∈ Ending.nounAndVerbSpellings)
    (hspelled : ((Ordered.ofPairs (bindings attached)).map (·.2.tail)).flatten =
      (attached.map fun a => a.text ++ a.rover).flatten) :
    ∀ a ∈ attached.tail, a.slot ≠ .vr := by
  have hne : ∀ a ∈ attached, a.text ≠ [] := by
    intro a ha hnil
    have hnot : [] ∉ Ending.nounAndVerbSpellings := by decide +kernel
    exact hnot (hnil ▸ htexts a ha)
  have hnodup := nodup_slots hne (Nat.le_of_eq (congrArg List.length hspelled).symm)
  intro a ha hvr
  cases attached with
  | nil => exact absurd ha List.not_mem_nil
  | cons first rest =>
    have hmem : (SuffixSlot.vr, a.written) ∈ Ordered.ofPairs (bindings (first :: rest)) := by
      rw [Ordered.mem_ofPairs (by rwa [map_fst_bindings]), ← hvr]
      exact List.mem_map_of_mem (List.mem_cons_of_mem _ ha)
    -- The rover is the first suffix of the map, so it is what the first suffix is.
    obtain ⟨more, hmore⟩ := eq_cons_of_rover_mem (Ordered.increasing_ofPairs _) hmem
    have htext : a.text = first.text := by
      rw [hmore, List.map_cons, List.flatten_cons, List.map_cons, List.flatten_cons,
        List.append_assoc first.text] at hspelled
      have hsplit : a.text ++ (a.rover ++ (more.map (·.2.tail)).flatten) =
          first.text ++ (first.rover ++ (rest.map fun a => a.text ++ a.rover).flatten) :=
        (List.append_assoc _ _ _).symm.trans hspelled
      exact eq_of_append_eq (htexts a (List.mem_cons_of_mem _ ha)) (htexts first List.mem_cons_self)
        hsplit
    have hfirst : first.slot = .vr := by
      have hrover := hslots a (List.mem_cons_of_mem _ ha)
      rw [hvr, htext] at hrover
      exact slot_eq_of_text_eq hrover (hslots first List.mem_cons_self)
    refine (List.nodup_cons.mp hnodup).1 ?_
    show first.slot ∈ rest.map (·.slot)
    rw [hfirst, ← hvr]
    exact List.mem_map_of_mem ha

end Attached

/-- The pieces of a reading spell the word if no suffix behind the first is recorded as a rover, and
in no other case. -/
theorem Lexicon.Reading.spelled_eq_iff {lexicon : Lexicon} {kind : TemplateKind} {word : Text}
    {d : Division} {suffixes : List (PieceRole × Text)} (h : lexicon.Reading kind word d suffixes)
    (chosen : Option Entry) :
    (Analysis.ofPieces kind word d.front d.headword
        (attachments kind.inflectionClass suffixes) chosen).spelled = word ↔
      ∀ a ∈ (attachments kind.inflectionClass suffixes).tail, a.slot ≠ .vr := by
  have hspells := h.spells_ending
  have hword : word = d.front ++ d.headword ++
      ((attachments kind.inflectionClass suffixes).map fun a => a.text ++ a.rover).flatten := by
    rw [h.attached.flatten_attachments, hspells.flatten_eq, List.append_assoc]
    exact h.division.word
  have hiff : (Analysis.ofPieces kind word d.front d.headword
      (attachments kind.inflectionClass suffixes) chosen).spelled = word ↔
        ((Ordered.ofPairs (Attached.bindings (attachments kind.inflectionClass suffixes))).map
          (·.2.tail)).flatten =
          ((attachments kind.inflectionClass suffixes).map fun a => a.text ++ a.rover).flatten := by
    rw [Analysis.spelled_ofPieces, hword]
    exact List.append_right_inj _
  obtain ⟨row, hrow, hsub⟩ := hspells.exists_slotRow
  have hslots := (sublist_slotsOf kind.inflectionClass suffixes).trans hsub
  rw [hiff]
  constructor
  · intro hspelled
    by_cases hnumber : kind = .number
    · subst hnumber
      intro a ha hvr
      have hrows : ∀ row ∈ TemplateKind.number.ending.slotRows, SuffixSlot.vr ∉ row := by decide
      exact hrows row hrow (hslots.subset (hvr ▸ List.mem_map_of_mem (List.mem_of_mem_tail ha)))
    · have hcode : kind.ending.spellings ⊆ Ending.nounAndVerbSpellings := by
        cases kind
        case noun => exact Ending.spellings_noun_subset
        case number => exact absurd rfl hnumber
        case stativeVerb => exact Ending.spellings_stative_subset
        all_goals exact Ending.spellings_verb_subset
      refine Attached.rovers_first h.attached.slot?_eq (fun a ha => ?_) hspelled
      have hmem := (sublist_texts kind.inflectionClass suffixes).subset (List.mem_map_of_mem ha)
      obtain ⟨piece, hpiece, htext⟩ := List.mem_map.mp hmem
      exact htext ▸ hcode (hspells.mem_spellings piece hpiece)
  · intro hfree
    have hincreasing := Attached.increasing_slots hslots (kind.increasing_slotRows row hrow) hfree
    rw [← Attached.map_fst_bindings] at hincreasing
    rw [Ordered.ofPairs_eq_self hincreasing, Attached.flatten_bindings]

namespace Analyzer

variable {lexicon : Lexicon} {word : Text} {analysis : Analysis}

/-- What is found of a word belongs to one of the templates or to an entry of the other classes. -/
theorem of_mem_contributions (h : analysis ∈ contributions lexicon word) :
    (∃ kind, analysis ∈ contribution lexicon kind word) ∨
      ∃ entry ∈ lexicon.homographs word .other, analysis = ofEntry word entry := by
  rw [contributions_eq] at h
  rcases List.mem_append.mp h with hfound | hother
  · left
    rcases List.mem_append.mp hfound with hfound | hfound
    · obtain ⟨kind, _, hfound⟩ := exists_kind_of_mem_nounFindings hfound
      exact ⟨kind, hfound⟩
    · obtain ⟨kind, _, hfound⟩ := exists_kind_of_mem_verbFindings hfound
      exact ⟨kind, hfound⟩
  · right
    obtain ⟨entry, hentry, rfl⟩ := List.mem_map.mp hother
    exact ⟨entry, hentry, rfl⟩

/-- An analysis of a word belongs to one of the templates, unless its word is of the other
classes. -/
theorem exists_contribution_of_mem (hmem : analysis ∈ (ofLexicon lexicon).analyze word)
    (hclass : analysis.broad ≠ .other) : ∃ kind, ∃ found ∈ contribution lexicon kind word,
      analysis = complete found := by
  obtain ⟨found, hfound, rfl⟩ := mem_analyze.mp hmem
  rcases of_mem_contributions hfound with ⟨kind, hfound⟩ | ⟨entry, _, rfl⟩
  · exact ⟨kind, found, hfound, rfl⟩
  · exact absurd rfl hclass

/-- The pieces of an analysis spell its word exactly if no suffix behind the first is recorded as a
rover. -/
theorem spells_iff_rovers_first (hmem : analysis ∈ (ofLexicon lexicon).analyze word)
    (hclass : analysis.broad ≠ .other) :
    ∃ kind captures, (lexicon.template kind).captures? word = some captures ∧
      (∃ chosen ∈ entriesOf lexicon kind (Capture.textOf .headword captures),
        analysis = complete (Analysis.ofCaptures kind word captures chosen)) ∧
      (analysis.spelled = word ↔
        ∀ a ∈ (attachments kind.inflectionClass (Capture.suffixPieces captures)).tail,
          a.slot ≠ .vr) := by
  obtain ⟨kind, found, hfound, rfl⟩ := exists_contribution_of_mem hmem hclass
  obtain ⟨d, suffixes, chosen, hreading, hentry, _, rfl⟩ := exists_reading_of_mem hfound
  have hholds : Capture.Holds (Capture.ofPieces 0 (Template.piecesOf d suffixes)) d suffixes :=
    Capture.holds_ofPieces hreading.attached
  refine ⟨kind, _, hreading.captures, ⟨chosen, ?_, ?_⟩, ?_⟩
  · rw [hholds.headword]
    exact hentry
  · rw [hholds.ofCaptures_eq]
  · rw [hholds.suffixes]
    exact hreading.spelled_eq_iff chosen

/-- A verb that takes suffixes with rovers. -/
def fighting : Lexicon :=
  .ofEntries [⟨"Suv:v", "Suv", "v:i", []⟩]

theorem spells_iff_rovers_first_fighting :
    ∃ analysis ∈ (ofLexicon fighting).analyze "Suvpu'be'", analysis.broad ≠ .other ∧
      ∃ kind captures, (fighting.template kind).captures? "Suvpu'be'" = some captures ∧
        (∃ chosen ∈ entriesOf fighting kind (Capture.textOf .headword captures),
          analysis = complete (Analysis.ofCaptures kind "Suvpu'be'" captures chosen)) ∧
        (analysis.spelled = "Suvpu'be'" ↔
          ∀ a ∈ (attachments kind.inflectionClass (Capture.suffixPieces captures)).tail,
            a.slot ≠ .vr) := by
  have hfound : ∃ analysis ∈ (ofLexicon fighting).analyze "Suvpu'be'", analysis.broad ≠ .other := by
    decide +kernel
  obtain ⟨analysis, hmem, hclass⟩ := hfound
  exact ⟨analysis, hmem, hclass, spells_iff_rovers_first hmem hclass⟩

/-- Of two rovers behind a suffix the second is moved to the front of the suffixes. -/
theorem spelled_ne_fighting : ∃ analysis ∈ (ofLexicon fighting).analyze "Suvpu'be'qu'",
    analysis.broad = .verb ∧ analysis.headword = "Suv" ∧
      analysis.suffixes = [(.vr, "-qu'".toList), (.v7, "-pu'be'".toList)] ∧
      analysis.spelled ≠ "Suvpu'be'qu'" := by
  decide +kernel

end Analyzer

end Klingon
