import Klingon.Proofs.Analyzer.Walk
import Klingon.Proofs.Ordered

/-!
# What each template contributes to the analyses of a word

A template contributes the analyses of its reading, if the reading is euphonic. From the positions
at which an analysis has suffixes one can tell which template it comes from: number words have
nothing but number suffixes, a noun has no verb suffix, a verb has a noun suffix behind a
nominalizer only, and a stative verb always has a case suffix but never a nominalizer.
-/

namespace Klingon

instance : Std.LawfulEqOrd SuffixSlot where
  compare_self {slot} := Nat.compare_eq_eq.mpr rfl
  eq_of_compare {slot slot'} h := by
    have hmem : slot ∈ SuffixSlot.all := by cases slot <;> decide
    exact (List.idxOf_inj hmem).mp (Nat.compare_eq_eq.mp h)

theorem TemplateKind.mem_all (kind : TemplateKind) : kind ∈ all := by
  cases kind <;> decide

namespace Lexicon

/-- The template of a kind. -/
def template (lexicon : Lexicon) (kind : TemplateKind) : Template :=
  let vocabulary := (Vocabulary.ofLexicon lexicon).withDerived fun word =>
    !Template.anyAccepts lexicon.primaryTemplates word
  match kind with
  | .noun => .noun vocabulary.nouns.headwords
  | .number => .number
  | .pronounVerb => .pronounVerb
  | .verb => .verb vocabulary.verbs.headwords
  | .stativeVerb => .stativeVerb vocabulary.statives.headwords

variable {lexicon : Lexicon} {kind : TemplateKind}

theorem templates_eq (lexicon : Lexicon) :
    lexicon.templates = TemplateKind.all.map lexicon.template := rfl

@[simp]
theorem kind_template (lexicon : Lexicon) (kind : TemplateKind) :
    (lexicon.template kind).kind = kind := by
  cases kind <;> rfl

theorem template_mem_templates (lexicon : Lexicon) (kind : TemplateKind) :
    lexicon.template kind ∈ lexicon.templates := by
  rw [templates_eq]
  exact List.mem_map_of_mem kind.mem_all

/-- What the template of a kind reads, with the suffixes at the positions that the affix tables give
them. -/
structure Reading (lexicon : Lexicon) (kind : TemplateKind) (word : Text) (d : Division)
    (suffixes : List (PieceRole × Text)) : Prop
    extends (lexicon.template kind).PreferredReading (lexicon.IsHeadword kind) word d suffixes where
  attached : Attached kind.inflectionClass suffixes

theorem isRegular_template (lexicon : Lexicon) (kind : TemplateKind) :
    (lexicon.template kind).IsRegular :=
  Template.isRegular_of_mem_templates (lexicon.template_mem_templates kind)

theorem mem_headwords_template {headword : Text} :
    headword ∈ (lexicon.template kind).headwords ↔ lexicon.IsHeadword kind headword := by
  rw [Template.mem_headwords_of_mem_lexicon_templates (lexicon.template_mem_templates kind),
    kind_template]

theorem accepts_template_iff {word : Text} : (lexicon.template kind).accepts word = true ↔
    kind.Describes (lexicon.IsHeadword kind) word := by
  rw [(lexicon.isRegular_template kind).accepts_iff fun _ => mem_headwords_template, kind_template]

theorem exists_reading {word : Text} (h : (lexicon.template kind).accepts word = true) :
    ∃ d suffixes, lexicon.Reading kind word d suffixes := by
  have hregular := lexicon.isRegular_template kind
  obtain ⟨d, suffixes, hreading⟩ := hregular.exists_reading (fun _ => mem_headwords_template) h
  refine ⟨d, suffixes, hreading, ?_⟩
  have hspells := hreading.spells
  rw [hregular.ending, kind_template] at hspells
  exact hspells.attached kind.fits_ending

/-- The suffixes of a reading are spelled by the ending of the kind. -/
theorem Reading.spells_ending {word : Text} {d : Division} {suffixes : List (PieceRole × Text)}
    (h : lexicon.Reading kind word d suffixes) : kind.ending.Spells d.tail suffixes := by
  have hspells := h.spells
  rwa [(lexicon.isRegular_template kind).ending, kind_template] at hspells

/-- Nothing behind the headword has no suffixes. -/
theorem Reading.suffixes_eq_nil {word : Text} {d : Division} {suffixes : List (PieceRole × Text)}
    (h : lexicon.Reading kind word d suffixes) (htail : d.tail = []) : suffixes = [] := by
  have hflat := h.spells.flatten_eq
  rw [htail] at hflat
  cases suffixes with
  | nil => rfl
  | cons piece rest =>
    have hempty : piece.2 = [] := (List.append_eq_nil_iff.mp hflat).1
    exact absurd hempty (h.attached.ne_nil piece List.mem_cons_self)

/-- Only templates whose words stay in their class have an empty headword. -/
theorem Reading.headwordClass_eq {word : Text} {d : Division} {suffixes : List (PieceRole × Text)}
    (h : lexicon.Reading kind word d suffixes) (hempty : d.headword = []) :
    kind.headwordClass = kind.inflectionClass := by
  have hheadword := h.division.headword
  rw [hempty] at hheadword
  cases kind
  case pronounVerb => exact absurd hheadword (by decide : ([] : Text) ∉ Affix.verbalPronouns)
  all_goals rfl

end Lexicon

namespace Analyzer

variable {lexicon : Lexicon} {kind : TemplateKind} {word : Text} {captures : List Capture}
  {analysis : Analysis}

/-! ## Euphony -/

/-- The suffix -oy follows no vowel, and -'oy follows nothing else. -/
def Follows (before suffix : Text) : Prop :=
  (suffix = "oy" → before.endsInVowel = false) ∧ (suffix = "'oy" → before.endsInVowel = true)

theorem isEuphonicSuffix_iff {before suffix : Text} :
    isEuphonicSuffix before suffix = true ↔ Follows before suffix := by
  have hne : ("'oy" : String).toList ≠ "oy".toList := by decide
  unfold isEuphonicSuffix Follows
  split
  · next hoy => simp only [hoy, Bool.not_eq_true', hne.symm, forall_const, false_implies, and_true]
  · next hoy =>
    split
    · next hvowel => simp only [hvowel, hne, forall_const, false_implies, true_and]
    · next hvowel => simp only [hoy, hvowel, false_implies, and_true]

/-- Whether every captured suffix may follow the text before it. -/
def IsEuphonic (before : Text) (captures : List Capture) : Prop :=
  ∀ front capture back, captures = front ++ capture :: back → capture.role.slot?.isSome = true →
    Follows (before ++ (front.map (·.text)).flatten) capture.text

theorem isEuphonic_cons {before : Text} {capture : Capture} :
    IsEuphonic before (capture :: captures) ↔
      (capture.role.slot?.isSome = true → Follows before capture.text) ∧
        IsEuphonic (before ++ capture.text) captures := by
  constructor
  · intro h
    refine ⟨fun hsuffix => ?_, fun front next back hsplit hsuffix => ?_⟩
    · simpa using h [] capture captures rfl hsuffix
    · simpa using h (capture :: front) next back (by rw [hsplit]; rfl) hsuffix
  · rintro ⟨hfirst, hrest⟩ front next back hsplit hsuffix
    cases front with
    | nil =>
      obtain ⟨rfl, rfl⟩ := List.cons.inj hsplit
      simpa using hfirst hsuffix
    | cons first front =>
      obtain ⟨rfl, rfl⟩ := List.cons.inj hsplit
      simpa using hrest front next back rfl hsuffix

theorem isEuphonic_iff {before : Text} :
    isEuphonic before captures = true ↔ IsEuphonic before captures := by
  induction captures generalizing before with
  | nil => simp [isEuphonic, IsEuphonic]
  | cons capture rest ih =>
    rw [isEuphonic, Bool.and_eq_true, ih, isEuphonic_cons]
    refine and_congr_left fun _ => ?_
    cases capture.role with
    | suffix slot fixed => simp [PieceRole.slot?, isEuphonicSuffix_iff]
    | verbPrefix => simp [PieceRole.slot?]
    | headword => simp [PieceRole.slot?]

instance (before : Text) (captures : List Capture) : Decidable (IsEuphonic before captures) :=
  decidable_of_iff _ isEuphonic_iff

/-! ## The contribution of a template -/

/-- The analyses by the template of a kind: one for each entry that the headword of its reading may
have, if the reading is euphonic. -/
def contribution (lexicon : Lexicon) (kind : TemplateKind) (word : Text) : List Analysis :=
  match (lexicon.template kind).captures? word with
  | some captures =>
    if IsEuphonic [] captures then
      (entriesOf lexicon kind (Capture.textOf .headword captures)).map
        (Analysis.ofCaptures kind word captures)
    else []
  | none => []

theorem exists_reading_of_captures (h : (lexicon.template kind).captures? word = some captures) :
    ∃ d suffixes, lexicon.Reading kind word d suffixes ∧
      captures = Capture.ofPieces 0 (Template.piecesOf d suffixes) := by
  have haccepts : (lexicon.template kind).accepts word = true := by
    obtain ⟨pieces, hpieces, _⟩ := Option.map_eq_some_iff.mp h
    rw [Template.accepts, hpieces]
    rfl
  obtain ⟨d, suffixes, hreading⟩ := Lexicon.exists_reading haccepts
  refine ⟨d, suffixes, hreading, ?_⟩
  rw [hreading.captures] at h
  exact (Option.some.inj h).symm

theorem byTemplate_eq (lexicon : Lexicon) (kind : TemplateKind) (word : Text) :
    byTemplate lexicon (lexicon.template kind) word = contribution lexicon kind word := by
  rw [byTemplate, contribution, euphonicCaptures?]
  cases hcaptures : (lexicon.template kind).captures? word with
  | none => rfl
  | some captures =>
    obtain ⟨d, suffixes, hreading, rfl⟩ := exists_reading_of_captures hcaptures
    have hwalk : walk lexicon kind kind.headwordClass
        (Capture.ofPieces 0 (Template.piecesOf d suffixes)) { word, broad := kind.headwordClass } =
          (entriesOf lexicon kind d.headword).map
            (Analysis.ofCaptures kind word (Capture.ofPieces 0 (Template.piecesOf d suffixes))) :=
      walk_ofPieces hreading.attached hreading.headwordClass_eq
    rw [Option.filter_some, Lexicon.kind_template]
    by_cases heuphonic : IsEuphonic [] (Capture.ofPieces 0 (Template.piecesOf d suffixes))
    · rw [if_pos (isEuphonic_iff.mpr heuphonic)]
      simp only [if_pos heuphonic, hwalk, (Capture.holds_ofPieces hreading.attached).headword]
    · rw [if_neg (mt isEuphonic_iff.mp heuphonic)]
      simp only [if_neg heuphonic]

/-- What a template contributes, by the reading of the word. -/
theorem contribution_eq_of_reading {d : Division} {suffixes : List (PieceRole × Text)}
    (h : lexicon.Reading kind word d suffixes) :
    contribution lexicon kind word =
      if IsEuphonic [] (Capture.ofPieces 0 (Template.piecesOf d suffixes)) then
        (entriesOf lexicon kind d.headword).map
          (Analysis.ofPieces kind word d.front d.headword
            (attachments kind.inflectionClass suffixes))
      else [] := by
  have hholds : Capture.Holds (Capture.ofPieces 0 (Template.piecesOf d suffixes)) d suffixes :=
    Capture.holds_ofPieces h.attached
  rw [contribution, h.captures]
  simp only [hholds.headword, hholds.ofCaptures_eq]

/-- A template that contributes an analysis reads the word euphonically. -/
theorem isEuphonic_of_mem {d : Division} {suffixes : List (PieceRole × Text)}
    (h : lexicon.Reading kind word d suffixes) (hmem : analysis ∈ contribution lexicon kind word) :
    IsEuphonic [] (Capture.ofPieces 0 (Template.piecesOf d suffixes)) := by
  rw [contribution_eq_of_reading h] at hmem
  split at hmem
  · assumption
  · exact absurd hmem List.not_mem_nil

/-- An analysis that a template contributes belongs to its reading. -/
theorem exists_reading_of_mem (h : analysis ∈ contribution lexicon kind word) :
    ∃ d suffixes chosen, lexicon.Reading kind word d suffixes ∧
      chosen ∈ entriesOf lexicon kind d.headword ∧
      contribution lexicon kind word = (entriesOf lexicon kind d.headword).map
        (Analysis.ofPieces kind word d.front d.headword
          (attachments kind.inflectionClass suffixes)) ∧
      analysis = Analysis.ofPieces kind word d.front d.headword
        (attachments kind.inflectionClass suffixes) chosen := by
  have hcaptures : ∃ captures, (lexicon.template kind).captures? word = some captures := by
    unfold contribution at h
    split at h
    · exact ⟨_, ‹_›⟩
    · exact absurd h List.not_mem_nil
  obtain ⟨captures, hcaptures⟩ := hcaptures
  obtain ⟨d, suffixes, hreading, _⟩ := exists_reading_of_captures hcaptures
  have heq := contribution_eq_of_reading hreading
  rw [if_pos (isEuphonic_of_mem hreading h)] at heq
  rw [heq] at h ⊢
  obtain ⟨chosen, hentry, rfl⟩ := List.mem_map.mp h
  exact ⟨d, suffixes, chosen, hreading, hentry, rfl, rfl⟩

/-! ## Positions of the suffixes -/

/-- The positions at which an analysis has suffixes. -/
def slots (analysis : Analysis) : List SuffixSlot :=
  analysis.suffixes.map (·.1)

theorem mem_slots_ofPieces {front headword : Text} {attached : List Attachment}
    {chosen : Option Entry} {slot : SuffixSlot} :
    slot ∈ slots (Analysis.ofPieces kind word front headword attached chosen) ↔
      slot ∈ attached.map (·.slot) := by
  show slot ∈ (Ordered.ofPairs (attached.map fun a => (a.slot, a.written))).map (·.1) ↔ _
  rw [Ordered.mem_keys_ofPairs, List.map_map]
  rfl

/-- The positions of an analysis are found in the ending of its template, also without suffixes of
some positions if it has none of them. -/
theorem exists_slotsWithout {avoided : List SuffixSlot} (hrover : SuffixSlot.vr ∉ avoided)
    (h : analysis ∈ contribution lexicon kind word) (havoid : ∀ slot ∈ slots analysis, slot ∉ avoided) :
    ∃ found, kind.ending.slotsWithout avoided = some found ∧ slots analysis ⊆ found := by
  obtain ⟨d, suffixes, chosen, hreading, _, _, rfl⟩ := exists_reading_of_mem h
  have hpieces : ∀ slot ∈ slotsOf suffixes, slot ∉ avoided := by
    intro slot hslot hin
    have hne : slot ≠ .vr := fun heq => hrover (heq ▸ hin)
    exact havoid slot (mem_slots_ofPieces.mpr (hreading.attached.mem_slots hslot hne)) hin
  obtain ⟨found, hfound, hsubset⟩ := hreading.spells_ending.slotsOf_subset hpieces
  refine ⟨found, hfound, fun slot hslot => hsubset ?_⟩
  exact (sublist_slotsOf kind.inflectionClass suffixes).subset (mem_slots_ofPieces.mp hslot)

/-- The positions of nouns. -/
def nounSlots : List SuffixSlot := [.n1, .n2, .n3, .n4, .n5]

/-- The positions of verbs before the last. -/
def innerVerbSlots : List SuffixSlot := [.vr, .v1, .v2, .v3, .v4, .v5, .v6, .v7, .v8, .vq]

theorem slots_noun (h : analysis ∈ contribution lexicon .noun word) :
    slots analysis ⊆ nounSlots := by
  obtain ⟨found, hfound, hsubset⟩ :=
    exists_slotsWithout List.not_mem_nil h fun _ _ => List.not_mem_nil
  have heq : Ending.noun.slotsWithout [] = some nounSlots := by decide
  cases heq.symm.trans hfound
  exact hsubset

theorem slots_number (h : analysis ∈ contribution lexicon .number word) :
    slots analysis ⊆ [.l1, .l2] ∧ slots analysis ≠ [] := by
  obtain ⟨found, hfound, hsubset⟩ :=
    exists_slotsWithout List.not_mem_nil h fun _ _ => List.not_mem_nil
  have heq : Ending.number.slotsWithout [] = some [.l1, .l2, .l1, .l2] := by decide
  cases heq.symm.trans hfound
  refine ⟨List.Subset.trans hsubset (by decide), fun hnil => ?_⟩
  have hsome : ∀ slot ∈ slots analysis, slot ∉ [SuffixSlot.l1, .l2] := by simp [hnil]
  obtain ⟨found, hfound, _⟩ := exists_slotsWithout (by decide) h hsome
  have hnone : Ending.number.slotsWithout [.l1, .l2] = none := by decide
  cases hnone.symm.trans hfound

/-- A verb has noun suffixes behind a suffix of the last verb position only. -/
theorem slots_verb (hending : kind.ending = .verb) (h : analysis ∈ contribution lexicon kind word) :
    slots analysis ⊆ innerVerbSlots ++ .v9 :: nounSlots ∧
      (.v9 ∉ slots analysis → slots analysis ⊆ innerVerbSlots) := by
  constructor
  · obtain ⟨found, hfound, hsubset⟩ :=
      exists_slotsWithout List.not_mem_nil h fun _ _ => List.not_mem_nil
    rw [hending] at hfound
    have heq : (Ending.verb.slotsWithout []).all
        (· ⊆ innerVerbSlots ++ SuffixSlot.v9 :: nounSlots) = true := by
      decide +kernel
    rw [hfound] at heq
    exact List.Subset.trans hsubset (of_decide_eq_true heq)
  · intro hnot
    have havoid : ∀ slot ∈ slots analysis, slot ∉ [SuffixSlot.v9] := by
      intro slot hslot hin
      exact hnot (List.mem_singleton.mp hin ▸ hslot)
    obtain ⟨found, hfound, hsubset⟩ := exists_slotsWithout (by decide) h havoid
    rw [hending] at hfound
    have heq : (Ending.verb.slotsWithout [.v9]).all (· ⊆ innerVerbSlots) = true := by
      decide +kernel
    rw [hfound] at heq
    exact List.Subset.trans hsubset (of_decide_eq_true heq)

theorem slots_stativeVerb (h : analysis ∈ contribution lexicon .stativeVerb word) :
    slots analysis ⊆ [.vr, .n5] ∧ .n5 ∈ slots analysis := by
  obtain ⟨found, hfound, hsubset⟩ :=
    exists_slotsWithout List.not_mem_nil h fun _ _ => List.not_mem_nil
  have heq : Ending.stative.slotsWithout [] = some [.vr, .vr, .vr, .vr, .n5] := by decide
  cases heq.symm.trans hfound
  refine ⟨List.Subset.trans hsubset (by decide), ?_⟩
  by_contra hnot
  have havoid : ∀ slot ∈ slots analysis, slot ∉ [SuffixSlot.n5] := by
    intro slot hslot hin
    exact hnot (List.mem_singleton.mp hin ▸ hslot)
  obtain ⟨found, hfound, _⟩ := exists_slotsWithout (by decide) h havoid
  have hnone : Ending.stative.slotsWithout [.n5] = none := by decide
  cases hnone.symm.trans hfound

end Analyzer

end Klingon
