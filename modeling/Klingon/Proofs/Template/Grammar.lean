import Klingon.Proofs.Template.Inventory

/-!
# What the templates of a lexicon accept and capture

Each template accepts the words of its grammar and no others: a prefix if the kind has any, a
headword and suffixes in their order. It captures the pieces of one division of the word, that with
the first prefix and the longest headword. What stands behind them is divided in one way only.
-/

namespace Klingon

/-! ## The grammar of suffixes -/

namespace Composes

variable {front back : List (List Text)} {column : List Text} {text : Text}

theorem append_iff : Composes (front ++ back) text ↔
    ∃ first second, text = first ++ second ∧ Composes front first ∧ Composes back second := by
  induction front generalizing text with
  | nil => simp [nil_iff]
  | cons column front ih =>
    rw [List.cons_append]
    simp only [cons_iff, ih]
    constructor
    · rintro ⟨piece, hpiece, rest, rfl, first, second, rfl, hfirst, hsecond⟩
      exact ⟨piece ++ first, second, by simp, ⟨piece, hpiece, first, rfl, hfirst⟩, hsecond⟩
    · rintro ⟨_, second, rfl, ⟨piece, hpiece, first, rfl, hfirst⟩, hsecond⟩
      exact ⟨piece, hpiece, first ++ second, by simp, first, second, rfl, hfirst, hsecond⟩

theorem singleton_iff : Composes [column] text ↔ text ∈ column := by
  rw [cons_iff]
  constructor
  · rintro ⟨piece, hpiece, rest, rfl, hrest⟩
    rwa [nil_iff.mp hrest, List.append_nil]
  · intro h
    exact ⟨text, h, [], (List.append_nil text).symm, .nil⟩

end Composes

namespace Affix

/-- A suffix of a position, or nothing. -/
def optionalColumn (wordClass : WordClass) (slot : SuffixSlot) : List Text :=
  [] :: spellings slot wordClass

/-- At most one suffix of each noun position. -/
def nounColumns : List (List Text) :=
  [.n1, .n2, .n3, .n4, .n5].map (optionalColumn .noun)

/-- A rover, or nothing. -/
def roverColumn : List Text :=
  [] :: rovers

/-- The first verb positions: -Ha' and at most one suffix of each of the next eight positions, each
with a rover or none behind it, and the suffix of refusal. -/
def verbColumns : List (List Text) :=
  [[], "Ha'"] :: roverColumn ::
    ([.v1, .v2, .v3, .v4, .v5, .v6, .v7, .v8].flatMap fun slot =>
      [optionalColumn .verb slot, roverColumn]) ++ [optionalColumn .verb .vq]

/-- What may follow the first verb positions: nothing, a clause suffix, or a nominalizer with noun
suffixes. -/
def EndsVerb (text : Text) : Prop :=
  text = [] ∨ text ∈ clauseSuffixes ∨
    ∃ nominalizer ∈ nominalizers, ∃ rest, text = nominalizer ++ rest ∧ Composes nounColumns rest

end Affix

namespace TemplateKind

open Affix

/-- The texts that may follow the headword. -/
def IsInflection : TemplateKind → Text → Prop
  | noun, text => Composes nounColumns text
  | number, text =>
    Composes [spellings .l1 .noun, optionalColumn .noun .l2] text ∨
      Composes [optionalColumn .noun .l1, spellings .l2 .noun] text
  | pronounVerb, text | verb, text =>
    ∃ first second, text = first ++ second ∧ Composes verbColumns first ∧ EndsVerb second
  | stativeVerb, text =>
    Composes [[[], "Ha'"], [[], "be'"], [[], "qu'"], [[], "be'"], spellings .n5 .noun] text

/-- A division of a word into a prefix of a kind, one of the given headwords and what may follow
it. -/
structure IsDivision (kind : TemplateKind) (isHeadword : Text → Prop) (word : Text)
    (d : Division) : Prop where
  front : d.front ∈ kind.fronts
  headword : isHeadword d.headword
  word : word = d.front ++ (d.headword ++ d.tail)
  tail : kind.IsInflection d.tail

/-- The words of a kind with the given headwords. -/
def Describes (kind : TemplateKind) (isHeadword : Text → Prop) (word : Text) : Prop :=
  ∃ d, kind.IsDivision isHeadword word d

theorem columns_noun : Ending.noun.columns = [nounColumns] := by
  decide +kernel

theorem columns_number : Ending.number.columns =
    [[spellings .l1 .noun, optionalColumn .noun .l2],
      [optionalColumn .noun .l1, spellings .l2 .noun]] := by
  decide +kernel

theorem columns_verb : Ending.verb.columns =
    [verbColumns ++ [clauseSuffixes], verbColumns ++ nominalizers :: nounColumns,
      verbColumns ++ []] := by
  decide +kernel

theorem columns_stative : Ending.stative.columns =
    [[[[], "Ha'"], [[], "be'"], [[], "qu'"], [[], "be'"], spellings .n5 .noun]] := by
  decide +kernel

/-- The three ways to end a verb, in the order of the grammar. -/
theorem endsVerb_iff {text : Text} : EndsVerb text ↔
    text ∈ clauseSuffixes ∨ Composes (nominalizers :: nounColumns) text ∨ text = [] := by
  rw [EndsVerb, Composes.cons_iff]
  exact or_rotate

theorem exists_spells_verb_iff {text : Text} :
    (∃ suffixes, Ending.verb.Spells text suffixes) ↔
      ∃ first second, text = first ++ second ∧ Composes verbColumns first ∧ EndsVerb second := by
  rw [Ending.exists_spells_iff, columns_verb]
  simp only [List.mem_cons, List.not_mem_nil, or_false, exists_eq_or_imp, exists_eq_left,
    Composes.append_iff, Composes.singleton_iff, Composes.nil_iff, endsVerb_iff, and_or_left,
    exists_or]

theorem isInflection_iff (kind : TemplateKind) (text : Text) :
    kind.IsInflection text ↔ ∃ suffixes, kind.ending.Spells text suffixes := by
  cases kind
  case noun =>
    rw [ending, Ending.exists_spells_iff, columns_noun]
    simp only [List.mem_singleton, exists_eq_left, IsInflection]
  case number =>
    rw [ending, Ending.exists_spells_iff, columns_number]
    simp only [List.mem_cons, List.not_mem_nil, or_false, exists_eq_or_imp, exists_eq_left,
      IsInflection]
  case stativeVerb =>
    rw [ending, Ending.exists_spells_iff, columns_stative]
    simp only [List.mem_singleton, exists_eq_left, IsInflection]
  all_goals exact exists_spells_verb_iff.symm

end TemplateKind

namespace Template

variable {t : Template} {word : Text} {isHeadword : Text → Prop} {d : Division}
  {suffixes : List (PieceRole × Text)}

theorem IsRegular.divides_iff (ht : t.IsRegular)
    (hheadwords : ∀ headword, headword ∈ t.headwords ↔ isHeadword headword) :
    t.Divides word d ↔ t.kind.IsDivision isHeadword word d := by
  constructor
  · rintro ⟨hfront, hheadword, hword, htail⟩
    refine ⟨ht.fronts ▸ hfront, (hheadwords _).mp hheadword, hword, ?_⟩
    rw [TemplateKind.isInflection_iff, ← ht.ending]
    exact htail
  · rintro ⟨hfront, hheadword, hword, htail⟩
    rw [TemplateKind.isInflection_iff, ← ht.ending] at htail
    exact ⟨ht.fronts ▸ hfront, (hheadwords _).mpr hheadword, hword, htail⟩

theorem IsRegular.accepts_iff (ht : t.IsRegular)
    (hheadwords : ∀ headword, headword ∈ t.headwords ↔ isHeadword headword) :
    t.accepts word = true ↔ t.kind.Describes isHeadword word := by
  rw [Template.accepts_iff]
  exact exists_congr fun d => ht.divides_iff hheadwords

/-- The pieces of a division. -/
def piecesOf (d : Division) (suffixes : List (PieceRole × Text)) : List (PieceRole × Text) :=
  (.verbPrefix, d.front) :: (.headword, d.headword) :: suffixes

/-- The reading of a word by a template. It is the first of all divisions of the word: that with the
first prefix, and with the longest headword behind it. What follows the headword is divided in one
way only. The captures are the nonempty pieces, in a row from the start of the word to its end. -/
structure PreferredReading (t : Template) (isHeadword : Text → Prop) (word : Text) (d : Division)
    (suffixes : List (PieceRole × Text)) : Prop where
  division : t.kind.IsDivision isHeadword word d
  spells : t.ending.Spells d.tail suffixes
  captures : t.captures? word = some (Capture.ofPieces 0 (piecesOf d suffixes))
  first : ∀ d', t.kind.IsDivision isHeadword word d' → d' = d ∨ d.Before t.kind.fronts d'
  only : ∀ suffixes', t.ending.Spells d.tail suffixes' →
    suffixes'.map (·.2) = suffixes.map (·.2)
  inRow : Capture.InRow 0 (Capture.ofPieces 0 (piecesOf d suffixes))
  whole : ((Capture.ofPieces 0 (piecesOf d suffixes)).map (·.text)).flatten = word

theorem IsRegular.exists_reading (ht : t.IsRegular)
    (hheadwords : ∀ headword, headword ∈ t.headwords ↔ isHeadword headword)
    (haccepts : t.accepts word = true) : ∃ d suffixes, t.PreferredReading isHeadword word d suffixes := by
  obtain ⟨pieces, hpieces⟩ := Option.isSome_iff_exists.mp haccepts
  obtain ⟨d, suffixes, hdivides, hsuffixes, rfl, hfirst⟩ :=
    exists_first_of_read? ht.longestFirst hpieces
  have hspells := Ending.spells_of_read? hsuffixes
  have hunambiguous := isUnambiguous_ending t.kind
  rw [← ht.ending] at hunambiguous
  refine ⟨d, suffixes, (ht.divides_iff hheadwords).mp hdivides, hspells, ?_, fun d' hd' => ?_,
    fun suffixes' hsuffixes' => hunambiguous _ _ _ hsuffixes' hspells, Capture.inRow_ofPieces _ _,
    ?_⟩
  · rw [captures?, hpieces]
    rfl
  · have hbefore := hfirst d' ((ht.divides_iff hheadwords).mpr hd')
    rwa [ht.fronts] at hbefore
  · rw [Capture.flatten_ofPieces, hdivides.word, ← hspells.flatten_eq]
    rfl

end Template

namespace Lexicon

/-- The templates of a lexicon accept the words of their grammars. The headwords are the words that
are listed in any case, and the derived words that no template accepts whose headwords are the
others alone. -/
theorem accepts_iff_describes (lexicon : Lexicon) :
    lexicon.templates.map (·.kind) = TemplateKind.all ∧
      lexicon.primaryTemplates.map (·.kind) = TemplateKind.all ∧
      (∀ template ∈ lexicon.primaryTemplates,
        (∀ headword, headword ∈ template.headwords ↔
          lexicon.IsPrimaryHeadword template.kind headword) ∧
        ∀ word, template.accepts word = true ↔
          template.kind.Describes (lexicon.IsPrimaryHeadword template.kind) word) ∧
      ∀ template ∈ lexicon.templates,
        (∀ headword, headword ∈ template.headwords ↔ lexicon.IsHeadword template.kind headword) ∧
        ∀ word, template.accepts word = true ↔
          template.kind.Describes (lexicon.IsHeadword template.kind) word := by
  refine ⟨rfl, rfl, fun template hmem => ?_, fun template hmem => ?_⟩
  · have hheadwords := fun headword =>
      (Template.mem_headwords_of_mem_primaryTemplates hmem : headword ∈ _ ↔ _)
    exact ⟨hheadwords, fun word =>
      (Template.isRegular_of_mem_templates hmem).accepts_iff hheadwords⟩
  · have hheadwords := fun headword =>
      (Template.mem_headwords_of_mem_lexicon_templates hmem : headword ∈ _ ↔ _)
    exact ⟨hheadwords, fun word =>
      (Template.isRegular_of_mem_templates hmem).accepts_iff hheadwords⟩

/-- A template of a lexicon captures the first division of every word it accepts. -/
theorem exists_preferredReading {lexicon : Lexicon} {template : Template} {word : Text}
    (hmem : template ∈ lexicon.templates) (haccepts : template.accepts word = true) :
    ∃ d suffixes,
      template.PreferredReading (lexicon.IsHeadword template.kind) word d suffixes :=
  (Template.isRegular_of_mem_templates hmem).exists_reading
    (fun _ => Template.mem_headwords_of_mem_lexicon_templates hmem) haccepts

/-- Two nouns, one of which begins the other. -/
def crowdNouns : Lexicon :=
  .ofEntries [⟨"qor:n", "qor", "n", []⟩, ⟨"qorDu':n", "qorDu'", "n", []⟩]

theorem exists_preferredReading_crowdNouns :
    Template.noun ["qorDu'", "qor"] ∈ crowdNouns.templates ∧ ∃ d suffixes,
      (Template.noun ["qorDu'", "qor"]).PreferredReading (crowdNouns.IsHeadword .noun) "qorDu'"
        d suffixes := by
  have hmem : Template.noun ["qorDu'", "qor"] ∈ crowdNouns.templates := by decide +kernel
  exact ⟨hmem, exists_preferredReading hmem (by decide +kernel)⟩

end Lexicon

end Klingon
