import Klingon.Proofs.Analyzer.Grammaticality
import Klingon.Proofs.Conllu.Persons

/-!
# The features of suffixes in a row

The features column looks a suffix up as it is written at its position, and there a rover that follows
the suffix is part of it. The table has the suffixes without rovers. So the column lists the feature of
a suffix exactly if no rover was added to it: a rover hides an aspect or the honorific, which are the
only features that a rover can follow.
-/

namespace Klingon

/-! ## Rovers behind recorded suffixes -/

section Pieces

variable {pieces : List (PieceRole × Text)} {attached : List Attachment} {wordClass : WordClass}

/-- What is added to a suffix is the rover behind it. -/
theorem Recorded.of_rover (h : Recorded wordClass pieces attached) : ∀ a ∈ attached, a.rover ≠ [] →
    Affix.isRover a.rover = true ∧ [a.slot, .vr].Sublist (slotsOf pieces) := by
  induction h with
  | nil => exact fun a ha => absurd ha List.not_mem_nil
  | @alone wordClass slot fixed text rest attached hslot hnext hrest ih =>
    rw [List.forall_mem_cons]
    refine ⟨fun hrover => absurd rfl hrover, fun a ha hrover => ?_⟩
    obtain ⟨hfound, hbehind⟩ := ih a ha hrover
    exact ⟨hfound, hbehind.cons slot⟩
  | @withRover wordClass slot fixed text rover rest attached hslot hfound hrest ih =>
    have hslots : slotsOf ((.suffix slot fixed, text) :: (.suffix .vr none, rover) :: rest) =
        slot :: .vr :: slotsOf rest := rfl
    rw [List.forall_mem_cons, hslots]
    constructor
    · exact fun _ => ⟨hfound, ((List.nil_sublist _).cons_cons SuffixSlot.vr).cons_cons slot⟩
    · intro a ha hrover
      obtain ⟨hfound, hbehind⟩ := ih a ha hrover
      exact ⟨hfound, (hbehind.cons SuffixSlot.vr).cons slot⟩

end Pieces

/-- No rover follows a suffix of these positions. -/
def closedSlots : List SuffixSlot := [.v9, .n2, .n4, .n5, .l2]

theorem TemplateKind.rover_not_behind (kind : TemplateKind) : ∀ row ∈ kind.ending.slotRows,
    ∀ slot ∈ closedSlots, ¬ [slot, .vr].Sublist row := by
  cases kind <;> decide +kernel

namespace Match

variable {m : Match} {lexicon : Lexicon} {word : Text} {analysis : Analysis}

theorem Yields.suffixes_eq (h : m.Yields lexicon word analysis) :
    analysis.suffixes = Ordered.ofPairs (Attached.bindings m.attached) := by
  rw [h.completed]
  rfl

theorem Yields.parts_suffix (h : m.Yields lexicon word analysis) :
    m.attached.map (·.part) <:+ analysis.parts := by
  rw [h.completed]
  exact List.suffix_append _ _

theorem Yields.increasing_slots (h : m.Yields lexicon word analysis) :
    ((m.attached.map (·.slot)).filter (· ≠ .vr)).Pairwise (compare · · = .lt) := by
  obtain ⟨d, suffixes, hreading, hholds⟩ := Analyzer.exists_reading_of_yields h
  rw [attached, hholds.suffixes]
  exact hreading.increasing_slots

/-- A rover is added to suffixes of open positions only. -/
theorem Yields.of_rover (h : m.Yields lexicon word analysis) : ∀ a ∈ m.attached, a.rover ≠ [] →
    Affix.isRover a.rover = true ∧ a.slot ∉ closedSlots := by
  obtain ⟨d, suffixes, hreading, hholds⟩ := Analyzer.exists_reading_of_yields h
  rw [attached, hholds.suffixes]
  intro a ha hrover
  obtain ⟨hfound, hbehind⟩ := hreading.attached.recorded.of_rover a ha hrover
  obtain ⟨row, hrow, hsub⟩ := hreading.spells_ending.exists_slotRow
  refine ⟨hfound, fun hclosed => ?_⟩
  exact m.kind.rover_not_behind row hrow a.slot hclosed (hbehind.trans hsub)

theorem Yields.slot?_eq (h : m.Yields lexicon word analysis) : ∀ a ∈ m.attached,
    Affix.slot? ("-" ++ a.text) a.wordClass = some a.slot := by
  obtain ⟨d, suffixes, hreading, hholds⟩ := Analyzer.exists_reading_of_yields h
  rw [attached, hholds.suffixes]
  exact hreading.attached.slot?_eq

/-- Of two suffixes at one position that is not that of the rovers one is the other. -/
theorem Yields.eq_of_slot_eq (h : m.Yields lexicon word analysis) {a b : Attachment}
    (ha : a ∈ m.attached) (hb : b ∈ m.attached) (hslot : a.slot = b.slot) (hne : a.slot ≠ .vr) :
    a = b := by
  have hfilter : (m.attached.map (·.slot)).filter (· ≠ .vr) =
      (m.attached.filter (·.slot ≠ .vr)).map (·.slot) := by
    rw [List.filter_map]
    rfl
  have hnodup : ((m.attached.filter (·.slot ≠ .vr)).map (·.slot)).Nodup := by
    rw [← hfilter]
    refine h.increasing_slots.imp fun {slot slot'} hlt heq => ?_
    rw [heq, Std.ReflOrd.compare_self] at hlt
    cases hlt
  have hkept : ∀ c ∈ m.attached, c.slot = a.slot → c ∈ m.attached.filter (·.slot ≠ .vr) := by
    intro c hc hsame
    exact List.mem_filter.mpr ⟨hc, decide_eq_true (hsame ▸ hne)⟩
  exact List.inj_on_of_nodup_map hnodup (hkept a ha rfl) (hkept b hb hslot.symm) hslot

end Match

namespace Conllu

/-! ## The table of features -/

theorem mem_suffixFeatures {slot : SuffixSlot} {text feature : Text}
    (h : suffixFeature? slot text = some feature) : (slot, text, feature) ∈ suffixFeatures := by
  obtain ⟨⟨slot', text', feature'⟩, hfind, rfl⟩ := Option.map_eq_some_iff.mp h
  have hfound := List.find?_some hfind
  rw [Bool.and_eq_true, decide_eq_true_iff, decide_eq_true_iff] at hfound
  obtain ⟨rfl, rfl⟩ := hfound
  exact List.mem_of_find?_eq_some hfind

/-- The feature of a suffix, looked up without rover. -/
def featureOf? (a : Attachment) : Option Text :=
  suffixFeature? a.slot ("-" ++ a.text)

/-- Rovers express no feature, and nothing with a rover does. -/
theorem suffixFeature?_eq_none {slot : SuffixSlot} {text : Text}
    (h : slot = .vr ∨ ∃ suffix ∈ Affix.suffixes, ∃ rover ∈ Affix.rovers,
      text = "-" ++ suffix.spelling ++ rover) : suffixFeature? slot text = none := by
  have htable : ∀ entry ∈ suffixFeatures, entry.1 ≠ .vr ∧ ∀ suffix ∈ Affix.suffixes,
      ∀ rover ∈ Affix.rovers, entry.2.1 ≠ "-" ++ suffix.spelling ++ rover := by
    decide +kernel
  rw [Option.eq_none_iff_forall_ne_some]
  intro feature hfeature
  obtain ⟨hslot, htext⟩ := htable _ (mem_suffixFeatures hfeature)
  rcases h with heq | ⟨suffix, hsuffix, rover, hrover, heq⟩
  · exact hslot heq
  · exact htext suffix hsuffix rover hrover heq

/-- Whether a column lists every item of a feature. -/
def ListsFeature (column feature : Text) : Prop :=
  ∀ item ∈ feature.splitOn '|', item ∈ column.splitOn '|'

instance (column feature : Text) : Decidable (ListsFeature column feature) :=
  inferInstanceAs (Decidable (∀ item ∈ _, _))

theorem splitOn_listed {items : List Text} (h : items ≠ []) :
    (Row.listed items).splitOn '|' = items.flatMap (·.splitOn '|') := by
  rw [Row.listed, if_neg h]
  exact Text.splitOn_intercalate h

theorem mem_splitOn_listed {items : List Text} {item : Text}
    (h : item ∈ (Row.listed items).splitOn '|') :
    item = blank ∨ ∃ feature ∈ items, item ∈ feature.splitOn '|' := by
  by_cases hnil : items = []
  · have hblank : (Row.listed items).splitOn '|' = [blank] := by
      rw [Row.listed, if_pos hnil]
      decide
    exact .inl (List.mem_singleton.mp (hblank ▸ h))
  · rw [splitOn_listed hnil] at h
    exact .inr (List.mem_flatMap.mp h)

/-- A feature that is one of the items of a list is listed. -/
theorem listsFeature_of_mem {items : List Text} {feature : Text} (h : feature ∈ items) :
    ListsFeature (Row.listed items) feature := by
  intro item hitem
  rw [splitOn_listed (List.ne_nil_of_mem h)]
  exact List.mem_flatMap_of_mem h hitem

/-- A feature that a rover can hide has an item that neither an agreement has nor a suffix at another
position. -/
theorem exists_own_item {slot : SuffixSlot} {text feature : Text}
    (h : suffixFeature? slot text = some feature) (hopen : slot ∉ closedSlots) :
    ∃ item ∈ feature.splitOn '|', item ≠ blank ∧
      (∀ row ∈ Agreement.rows, item ∉ row.features.splitOn '|') ∧
      ∀ other ∈ suffixFeatures, item ∈ other.2.2.splitOn '|' → other.1 = slot := by
  have htable : ∀ entry ∈ suffixFeatures, entry.1 ∉ closedSlots →
      entry.2.2 ∈ entry.2.2.splitOn '|' ∧ entry.2.2 ≠ blank ∧
      (∀ row ∈ Agreement.rows, entry.2.2 ∉ row.features.splitOn '|') ∧
      ∀ other ∈ suffixFeatures, entry.2.2 ∈ other.2.2.splitOn '|' → other.1 = entry.1 := by
    decide +kernel
  obtain ⟨hitem, hown⟩ := htable _ (mem_suffixFeatures h) hopen
  exact ⟨feature, hitem, hown⟩

/-! ## The features column -/

variable {m : Match} {lexicon : Lexicon} {word : Text} {analysis : Analysis}

/-- The features of the suffixes of an analysis are those of the suffixes without rovers. -/
theorem filterMap_suffixes (h : m.Yields lexicon word analysis) :
    (analysis.suffixes.filterMap fun s => suffixFeature? s.1 s.2) =
      (m.attached.filter (·.rover = [])).filterMap featureOf? := by
  let written := Attached.bindings m.attached
  let feature := fun s : SuffixSlot × Text => suffixFeature? s.1 s.2
  have hkeep : ∀ map : List (SuffixSlot × Text),
      (map.filter (·.1 ≠ .vr)).filterMap feature = map.filterMap feature := by
    intro map
    rw [List.filterMap_filter]
    refine List.filterMap_congr fun s _ => ?_
    split
    · rfl
    · next hslot => exact (suffixFeature?_eq_none (.inl (by simpa using hslot))).symm
  have hincreasing : Ordered.Increasing (written.filter (·.1 ≠ .vr)) := by
    have hslots : (written.filter (·.1 ≠ .vr)).map (·.1) =
        (m.attached.map (·.slot)).filter (· ≠ .vr) := by
      simp only [written, Attached.bindings, List.filter_map, List.map_map]
      rfl
    rw [Ordered.Increasing, hslots]
    exact h.increasing_slots
  have hfilter : (Ordered.ofPairs written).filter (·.1 ≠ .vr) = written.filter (·.1 ≠ .vr) :=
    (Ordered.filter_ofPairs fun slot => decide (slot ≠ SuffixSlot.vr)).trans
      (Ordered.ofPairs_eq_self hincreasing)
  have hrovers : ∀ a ∈ m.attached, suffixFeature? a.slot a.written =
      if a.rover = [] then featureOf? a else none := by
    intro a ha
    split
    · next hnone => rw [Attachment.written, hnone, List.append_nil, featureOf?]
    · next hrover =>
      obtain ⟨hfound, _⟩ := h.of_rover a ha hrover
      have hsuffix := Affix.mem_of_slot? (h.slot?_eq a ha)
      exact suffixFeature?_eq_none
        (.inr ⟨_, hsuffix, a.rover, of_decide_eq_true hfound, rfl⟩)
  calc analysis.suffixes.filterMap feature
    _ = ((Ordered.ofPairs written).filter (·.1 ≠ .vr)).filterMap feature := by
      rw [h.suffixes_eq, hkeep]
    _ = (written.filter (·.1 ≠ .vr)).filterMap feature := by
      rw [hfilter]
    _ = m.attached.filterMap fun a => suffixFeature? a.slot a.written := by
      rw [hkeep]
      exact List.filterMap_map
    _ = (m.attached.filter (·.rover = [])).filterMap featureOf? := by
      rw [List.filterMap_congr hrovers, List.filterMap_filter]
      simp only [decide_eq_true_eq]

theorem Row.mem_rows {row : Agreement} (h : Row.agreement? analysis = some row) :
    row ∈ Agreement.rows := by
  obtain ⟨dashed, _, hfound⟩ := Option.bind_eq_some_iff.mp h
  exact List.mem_of_find?_eq_some hfound

theorem features_eq_append (analysis : Analysis) :
    Row.features analysis = ((Row.agreement? analysis).map Agreement.features).toList ++
      analysis.suffixes.filterMap fun s => suffixFeature? s.1 s.2 := by
  rw [Row.features, Row.agreement?, Option.map_bind]
  rfl

theorem features_of_yields (h : m.Yields lexicon word analysis) :
    Row.features analysis = ((Row.agreement? analysis).map Agreement.features).toList ++
      (m.attached.filter (·.rover = [])).filterMap featureOf? := by
  rw [features_eq_append, filterMap_suffixes h]

/-- The column lists the feature of a suffix exactly if no rover was added to it. -/
theorem listsFeature_iff (h : m.Yields lexicon word analysis) {a : Attachment} {feature : Text}
    (ha : a ∈ m.attached) (hfeature : featureOf? a = some feature) :
    ListsFeature (Row.listed (Row.features analysis)) feature ↔ a.rover = [] := by
  constructor
  · intro hlists
    by_contra hrover
    obtain ⟨_, hopen⟩ := h.of_rover a ha hrover
    obtain ⟨item, hitem, hblank, hrows, hothers⟩ := exists_own_item hfeature hopen
    obtain ⟨shown, hshown, hin⟩ := (mem_splitOn_listed (hlists item hitem)).resolve_left hblank
    rw [features_of_yields h] at hshown
    rcases List.mem_append.mp hshown with hagreement | hsuffix
    · obtain ⟨row, hrow, rfl⟩ := Option.map_eq_some_iff.mp (Option.mem_toList.mp hagreement)
      exact hrows row (Row.mem_rows hrow) hin
    · -- Only the suffix itself has the item, and its rover hides it.
      obtain ⟨b, hb, hother⟩ := List.mem_filterMap.mp hsuffix
      obtain ⟨hb, hnone⟩ := List.mem_filter.mp hb
      have hslot : b.slot = a.slot := hothers _ (mem_suffixFeatures hother) hin
      have hne : b.slot ≠ .vr := by
        intro hvr
        rw [featureOf?, suffixFeature?_eq_none (.inl hvr)] at hother
        cases hother
      cases h.eq_of_slot_eq hb ha hslot hne
      exact hrover (of_decide_eq_true hnone)
  · intro hnone
    refine listsFeature_of_mem ?_
    rw [features_of_yields h]
    refine List.mem_append_right _ (List.mem_filterMap.mpr ⟨a, ?_, hfeature⟩)
    exact List.mem_filter.mpr ⟨ha, decide_eq_true hnone⟩

end Conllu

namespace Analyzer

open Conllu (Row featureOf? ListsFeature)

variable {lexicon : Lexicon} {word : Text} {analysis : Analysis}

/-- The features column of an analysis with suffixes holds its agreement and the features of the
suffixes that no rover was added to. It lists the feature of each suffix among the parts of the analysis
exactly if no rover was added to the suffix. -/
theorem feats_list_suffix_iff (hmem : analysis ∈ (ofLexicon lexicon).analyze word) (index : Nat)
    (form : Text) :
    analysis.broad = .other ∧ analysis.suffixes = [] ∨
      (∃ m : Match, m.Yields lexicon word analysis) ∧
        ∀ m : Match, m.Yields lexicon word analysis →
          m.attached.map (·.part) <:+ analysis.parts ∧
          (Row.word index form [analysis]).feats =
            Row.listed (((Row.agreement? analysis).map Agreement.features).toList ++
              (m.attached.filter (·.rover = [])).filterMap featureOf?) ∧
          ∀ a ∈ m.attached, ∀ feature, featureOf? a = some feature →
            (ListsFeature (Row.word index form [analysis]).feats feature ↔ a.rover = []) := by
  rcases exists_yields_or_ofEntry hmem with hmatch | ⟨entry, rfl⟩
  · refine .inr ⟨hmatch, fun m h => ⟨h.parts_suffix, ?_, fun a ha feature hfeature => ?_⟩⟩
    · rw [← Conllu.features_of_yields h]
      rfl
    · exact Conllu.listsFeature_iff h ha hfeature
  · exact .inl ⟨rfl, rfl⟩

/-- The honorific is listed and the aspect is not, which is what the rover was added to. -/
theorem feats_list_suffix_iff_fighting :
    ∃ analysis ∈ (ofLexicon fighting).analyze "Suvpu'be'neS",
      (Row.word 1 "Suvpu'be'neS" [analysis]).feats = "Person=3|ObjPerson=3,0|Polite=Humb".toList ∧
      (analysis.broad = .other ∧ analysis.suffixes = [] ∨
        (∃ m : Match, m.Yields fighting "Suvpu'be'neS" analysis) ∧
          ∀ m : Match, m.Yields fighting "Suvpu'be'neS" analysis →
            m.attached.map (·.part) <:+ analysis.parts ∧
            (Row.word 1 "Suvpu'be'neS" [analysis]).feats =
              Row.listed (((Row.agreement? analysis).map Agreement.features).toList ++
                (m.attached.filter (·.rover = [])).filterMap featureOf?) ∧
            ∀ a ∈ m.attached, ∀ feature, featureOf? a = some feature →
              (ListsFeature (Row.word 1 "Suvpu'be'neS" [analysis]).feats feature ↔
                a.rover = [])) := by
  have hfound : ∃ analysis ∈ (ofLexicon fighting).analyze "Suvpu'be'neS",
      (Row.word 1 "Suvpu'be'neS" [analysis]).feats =
        "Person=3|ObjPerson=3,0|Polite=Humb".toList := by
    decide +kernel
  obtain ⟨analysis, hmem, hfeats⟩ := hfound
  exact ⟨analysis, hmem, hfeats, feats_list_suffix_iff hmem 1 "Suvpu'be'neS"⟩

/-- The aspect of a verb is not listed if a rover negates it. -/
theorem feats_miss_aspect_fighting : ∃ analysis ∈ (ofLexicon fighting).analyze "Suvpu'be'",
    "-pu':v".toList ∈ analysis.parts ∧ analysis.suffixes = [(.v7, "-pu'be'".toList)] ∧
      Conllu.suffixFeature? .v7 "-pu'" = some "Aspect=Perf".toList ∧
      ¬ ListsFeature (Row.word 1 "Suvpu'be'" [analysis]).feats "Aspect=Perf" := by
  decide +kernel

end Analyzer

end Klingon
