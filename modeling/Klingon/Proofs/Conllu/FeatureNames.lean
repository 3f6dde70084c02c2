import Klingon.Proofs.Conllu.Suffixes

/-!
# The names of the features in a row

The items of the features column are names with values. The names of an agreement are different, and so
are those of suffixes at different positions. An agreement and a suffix share two of them: the mood of
an imperative prefix is also that of a wish, and the number of the subject is also that of a noun that
is made of the verb. Where they meet, the column has the name twice.
-/

namespace Klingon

namespace Conllu

/-! ## Items with names -/

/-- A name and a value with an equals sign between them. -/
def IsItem (item : Text) : Prop :=
  ∃ parts ∈ Text.cut? '=' item, parts.1 ≠ [] ∧ parts.2 ≠ [] ∧ '=' ∉ parts.2

instance (item : Text) : Decidable (IsItem item) :=
  inferInstanceAs (Decidable (∃ _ ∈ _, _))

/-- The names of the items in a column. -/
def namesOf (column : Text) : List Text :=
  (column.splitOn '|').map fun item => item.takeWhile (· ≠ '=')

theorem namesOf_listed {items : List Text} (h : items ≠ []) :
    namesOf (Row.listed items) = items.flatMap namesOf := by
  rw [namesOf, splitOn_listed h, List.map_flatMap]
  rfl

/-- The names of an agreement. -/
def agreementNames : List Text := ["Mood", "Person", "Number", "ObjPerson", "ObjNumber"]

/-- The features of an agreement are items with different names. -/
theorem names_of_agreement : ∀ row ∈ Agreement.rows,
    (∀ item ∈ row.features.splitOn '|', IsItem item) ∧ (namesOf row.features).Nodup ∧
      namesOf row.features ⊆ agreementNames ∧
      ("Mood".toList ∈ namesOf row.features ↔ row.imperative = true) ∧
      ("Number".toList ∈ namesOf row.features ↔ row.subjectNumber.isSome = true) := by
  decide +kernel

/-- The names of the features that the suffixes of a position express. -/
def slotNames : SuffixSlot → List Text
  | .v7 => ["Aspect"]
  | .v8 => ["Polite"]
  | .v9 => ["Mood", "VerbForm"]
  | .n2 => ["Number"]
  | .n4 => ["Poss", "PossPerson", "PossNumber"]
  | .n5 => ["Case"]
  | .l2 => ["NumType"]
  | _ => []

theorem slotNames_disjoint (slot other : SuffixSlot) (hne : slot ≠ other) :
    (slotNames slot).Disjoint (slotNames other) := by
  have hall : ∀ slot : SuffixSlot, slot ∈ SuffixSlot.all := by
    intro slot
    cases slot <;> decide
  have htable : ∀ slot ∈ SuffixSlot.all, ∀ other ∈ SuffixSlot.all, slot ≠ other →
      ∀ name ∈ slotNames slot, name ∉ slotNames other := by
    decide +kernel
  exact fun {name} hname hother => htable slot (hall slot) other (hall other) hne name hname hother

/-- The features of the suffixes are items with different names, of which few are also names of an
agreement. -/
theorem names_of_suffixFeature : ∀ entry ∈ suffixFeatures,
    (∀ item ∈ entry.2.2.splitOn '|', IsItem item) ∧ (namesOf entry.2.2).Nodup ∧
      namesOf entry.2.2 ⊆ slotNames entry.1 ∧
      ∀ name ∈ agreementNames, name ∈ namesOf entry.2.2 →
        name = "Mood" ∧ entry.1 = .v9 ∧ entry.2.1 = "-jaj" ∨
          name = "Number" ∧ entry.1 = .n2 ∧ entry.2.1 ∈ Analysis.pluralSuffixes := by
  decide +kernel

/-! ## Where names meet -/

/-- An imperative prefix and the suffix of a wish in one word. -/
def RepeatsMood (analysis : Analysis) : Prop :=
  (∃ row ∈ Row.agreement? analysis, row.imperative = true) ∧
    (.v9, "-jaj".toList) ∈ analysis.suffixes

/-- A prefix with the number of the subject and a plural suffix in one word. -/
def RepeatsNumber (analysis : Analysis) : Prop :=
  (∃ row ∈ Row.agreement? analysis, row.subjectNumber.isSome = true) ∧
    ∃ text ∈ Analysis.pluralSuffixes, (.n2, text) ∈ analysis.suffixes

variable {analysis : Analysis} {row : Agreement} {name : Text}

/-- The names of the features that the suffixes of an analysis express. -/
def suffixNames (analysis : Analysis) : List Text :=
  (analysis.suffixes.filterMap fun s => suffixFeature? s.1 s.2).flatMap namesOf

theorem nodup_suffixNames (h : Ordered.Increasing analysis.suffixes) :
    (suffixNames analysis).Nodup := by
  refine List.nodup_flatMap.mpr ⟨fun feature hfeature => ?_, ?_⟩
  · obtain ⟨s, _, hshown⟩ := List.mem_filterMap.mp hfeature
    exact (names_of_suffixFeature _ (mem_suffixFeatures hshown)).2.1
  · rw [List.pairwise_filterMap]
    refine (List.pairwise_map.mp h).imp fun {s t} hlt feature hfeature other hother => ?_
    have hne : s.1 ≠ t.1 := by
      intro heq
      rw [heq, Std.ReflOrd.compare_self] at hlt
      cases hlt
    have hnames := (names_of_suffixFeature _ (mem_suffixFeatures hfeature)).2.2.1
    have hnames' := (names_of_suffixFeature _ (mem_suffixFeatures hother)).2.2.1
    exact fun {name} hin hin' => slotNames_disjoint s.1 t.1 hne (hnames hin) (hnames' hin')

/-- The names that suffixes share with an agreement. -/
theorem mem_suffixNames (hname : name ∈ agreementNames) : name ∈ suffixNames analysis ↔
    name = "Mood" ∧ (.v9, "-jaj".toList) ∈ analysis.suffixes ∨
      name = "Number" ∧ ∃ text ∈ Analysis.pluralSuffixes, (.n2, text) ∈ analysis.suffixes := by
  constructor
  · intro h
    obtain ⟨feature, hfeature, hin⟩ := List.mem_flatMap.mp h
    obtain ⟨⟨slot, text⟩, hs, hshown⟩ := List.mem_filterMap.mp hfeature
    have hmem : (slot, text, feature) ∈ suffixFeatures := mem_suffixFeatures hshown
    have hshared := (names_of_suffixFeature _ hmem).2.2.2 name hname hin
    refine hshared.imp (fun ⟨hmood, hslot, htext⟩ => ?_) fun ⟨hnumber, hslot, htext⟩ => ?_
    · cases hslot
      cases htext
      exact ⟨hmood, hs⟩
    · cases hslot
      exact ⟨hnumber, text, htext, hs⟩
  · have htable : "Mood".toList ∈ namesOf "Mood=Jus" ∧ "Number".toList ∈ namesOf "Number=Plur" ∧
        suffixFeature? .v9 "-jaj" = some "Mood=Jus".toList ∧
        ∀ text ∈ Analysis.pluralSuffixes, suffixFeature? .n2 text = some "Number=Plur".toList := by
      decide
    obtain ⟨hmood, hnumber, hwish, hplural⟩ := htable
    intro h
    rcases h with ⟨rfl, hs⟩ | ⟨rfl, text, htext, hs⟩
    · exact List.mem_flatMap_of_mem (List.mem_filterMap.mpr ⟨_, hs, hwish⟩) hmood
    · exact List.mem_flatMap_of_mem (List.mem_filterMap.mpr ⟨_, hs, hplural text htext⟩) hnumber

/-- A column without agreement has the names of the suffixes. -/
theorem nodup_names_of_no_row (h : Row.agreement? analysis = none)
    (hsuffixes : Ordered.Increasing analysis.suffixes) :
    (namesOf (Row.listed (Row.features analysis))).Nodup := by
  have hfeatures : Row.features analysis =
      analysis.suffixes.filterMap fun s => suffixFeature? s.1 s.2 := by
    rw [features_eq_append, h]
    rfl
  by_cases hnil : Row.features analysis = []
  · rw [hnil]
    decide
  · rw [namesOf_listed hnil, hfeatures]
    exact nodup_suffixNames hsuffixes

/-- Of the names of an agreement and of suffixes only the mood and the number can be the same. -/
theorem disjoint_names_iff (h : Row.agreement? analysis = some row) :
    (namesOf row.features).Disjoint (suffixNames analysis) ↔
      ¬ RepeatsMood analysis ∧ ¬ RepeatsNumber analysis := by
  obtain ⟨_, _, hnames, hmood, hnumber⟩ := names_of_agreement row (Row.mem_rows h)
  have hrow : ∀ condition : Agreement → Prop,
      (∃ row ∈ Row.agreement? analysis, condition row) ↔ condition row := by
    intro condition
    rw [h]
    simp
  rw [RepeatsMood, RepeatsNumber, hrow, hrow, ← hmood, ← hnumber]
  constructor
  · intro hdisjoint
    constructor
    · intro ⟨hin, hs⟩
      exact hdisjoint hin ((mem_suffixNames (hnames hin)).mpr (.inl ⟨rfl, hs⟩))
    · intro ⟨hin, hs⟩
      exact hdisjoint hin ((mem_suffixNames (hnames hin)).mpr (.inr ⟨rfl, hs⟩))
  · intro ⟨hnotMood, hnotNumber⟩ name hin hshared
    rcases (mem_suffixNames (hnames hin)).mp hshared with ⟨rfl, hs⟩ | ⟨rfl, hs⟩
    · exact hnotMood ⟨hin, hs⟩
    · exact hnotNumber ⟨hin, hs⟩

/-- A name is repeated in the two ways and in no other. -/
theorem nodup_names_iff (h : Ordered.Increasing analysis.suffixes) :
    (namesOf (Row.listed (Row.features analysis))).Nodup ↔
      ¬ RepeatsMood analysis ∧ ¬ RepeatsNumber analysis := by
  cases hrow : Row.agreement? analysis with
  | none =>
    refine iff_of_true (nodup_names_of_no_row hrow h) ⟨fun hmood => ?_, fun hnumber => ?_⟩
    · obtain ⟨⟨row, hin, _⟩, _⟩ := hmood
      rw [hrow] at hin
      cases hin
    · obtain ⟨⟨row, hin, _⟩, _⟩ := hnumber
      rw [hrow] at hin
      cases hin
  | some row =>
    have hnodup := (names_of_agreement row (Row.mem_rows hrow)).2.1
    rw [Row.features_eq hrow, namesOf_listed (List.cons_ne_nil _ _), List.flatMap_cons,
      List.nodup_append', ← disjoint_names_iff hrow, and_iff_right hnodup]
    exact and_iff_right (nodup_suffixNames h)

/-- All features are made of items. -/
theorem isItem_of_mem_features {feature : Text} (h : feature ∈ Row.features analysis) :
    ∀ item ∈ feature.splitOn '|', IsItem item := by
  rw [features_eq_append] at h
  rcases List.mem_append.mp h with hagreement | hsuffix
  · obtain ⟨row, hrow, rfl⟩ := Option.map_eq_some_iff.mp (Option.mem_toList.mp hagreement)
    exact (names_of_agreement row (Row.mem_rows hrow)).1
  · obtain ⟨s, _, hshown⟩ := List.mem_filterMap.mp hsuffix
    exact (names_of_suffixFeature _ (mem_suffixFeatures hshown)).1

end Conllu

namespace Analyzer

open Conllu (Row IsItem namesOf RepeatsMood RepeatsNumber)

variable {lexicon : Lexicon} {word : Text} {analysis : Analysis}

theorem increasing_suffixes (hmem : analysis ∈ (ofLexicon lexicon).analyze word) :
    Ordered.Increasing analysis.suffixes := by
  rcases exists_yields_or_ofEntry hmem with ⟨m, h⟩ | ⟨entry, rfl⟩
  · rw [h.suffixes_eq]
    exact Ordered.increasing_ofPairs _
  · exact List.Pairwise.nil

/-- The features column of an analysis is empty or lists items, each a name with a value. No name
occurs twice, unless the verb has an imperative prefix and the suffix of a wish, or a prefix with the
number of its subject and, behind a nominalizer, a plural suffix. -/
theorem feats_names_nodup_iff (hmem : analysis ∈ (ofLexicon lexicon).analyze word) (index : Nat)
    (form : Text) :
    ((Row.word index form [analysis]).feats = Conllu.blank ∨
      ∀ item ∈ (Row.word index form [analysis]).feats.splitOn '|', IsItem item) ∧
    ((namesOf (Row.word index form [analysis]).feats).Nodup ↔
      ¬ RepeatsMood analysis ∧ ¬ RepeatsNumber analysis) := by
  refine ⟨?_, Conllu.nodup_names_iff (increasing_suffixes hmem)⟩
  show Row.listed (Row.features analysis) = Conllu.blank ∨
    ∀ item ∈ (Row.listed (Row.features analysis)).splitOn '|', IsItem item
  by_cases hnil : Row.features analysis = []
  · exact .inl (if_pos hnil)
  · right
    rw [Conllu.splitOn_listed hnil]
    intro item hitem
    obtain ⟨feature, hfeature, hin⟩ := List.mem_flatMap.mp hitem
    exact Conllu.isItem_of_mem_features hfeature item hin

/-- A noun that is made of a verb has the number of its plural suffix only. -/
theorem feats_names_nodup_iff_seeing :
    ∃ analysis ∈ (ofLexicon seeing).analyze "leghwI'pu'",
      (Row.word 1 "leghwI'pu'" [analysis]).feats =
        "Person=3|ObjPerson=3,0|VerbForm=Vnoun|Number=Plur".toList ∧
      ((Row.word 1 "leghwI'pu'" [analysis]).feats = Conllu.blank ∨
        ∀ item ∈ (Row.word 1 "leghwI'pu'" [analysis]).feats.splitOn '|', IsItem item) ∧
      ((namesOf (Row.word 1 "leghwI'pu'" [analysis]).feats).Nodup ↔
        ¬ RepeatsMood analysis ∧ ¬ RepeatsNumber analysis) := by
  have hfound : ∃ analysis ∈ (ofLexicon seeing).analyze "leghwI'pu'",
      (Row.word 1 "leghwI'pu'" [analysis]).feats =
        "Person=3|ObjPerson=3,0|VerbForm=Vnoun|Number=Plur".toList := by
    decide +kernel
  obtain ⟨analysis, hmem, hfeats⟩ := hfound
  exact ⟨analysis, hmem, hfeats, feats_names_nodup_iff hmem 1 "leghwI'pu'"⟩

/-- With a prefix the number of the subject is named besides that of the noun. -/
theorem feats_repeat_number_seeing :
    ∃ analysis ∈ (ofLexicon seeing).analyze "vIleghwI'pu'",
      (Row.word 1 "vIleghwI'pu'" [analysis]).feats =
        "Person=1|Number=Sing|ObjPerson=3|VerbForm=Vnoun|Number=Plur".toList ∧
      ¬ (namesOf (Row.word 1 "vIleghwI'pu'" [analysis]).feats).Nodup := by
  decide +kernel

end Analyzer

end Klingon
