import Klingon.Conllu
import Klingon.Proofs.Analyzer.Spelling
import Klingon.Proofs.Token

/-!
# Reading rows back

No column of a row holds a tab or a line feed: the form is not blank, the headword and the affixes are
made of its letters, and the rest comes from tables. So the lines of a rendered text are its rows, and
its tokens and sentences can be read back from them.
-/

namespace Klingon

theorem Text.forall_mem_intercalate {P : Char → Prop} {separator : Text} {texts : List Text}
    (hseparator : ∀ c ∈ separator, P c) (h : ∀ text ∈ texts, ∀ c ∈ text, P c) :
    ∀ c ∈ List.intercalate separator texts, P c := by
  induction texts with
  | nil => exact fun c hc => absurd hc List.not_mem_nil
  | cons first rest ih =>
    obtain ⟨hfirst, hrest⟩ := List.forall_mem_cons.mp h
    cases rest with
    | nil =>
      rw [List.intercalate_singleton]
      exact hfirst
    | cons next rest =>
      rw [List.intercalate_cons_cons, List.forall_mem_append, List.forall_mem_append]
      exact ⟨⟨hfirst, hseparator⟩, ih hrest⟩

theorem Text.not_mem_intercalate {char : Char} {separator : Text} {texts : List Text}
    (hseparator : char ∉ separator) (h : ∀ text ∈ texts, char ∉ text) :
    char ∉ List.intercalate separator texts := by
  have hother : ∀ c ∈ List.intercalate separator texts, c ≠ char := by
    apply forall_mem_intercalate
    · exact fun c hc => ne_of_mem_of_not_mem hc hseparator
    · exact fun text htext c hc => ne_of_mem_of_not_mem hc (h text htext)
  exact fun hchar => hother char hchar rfl

/-- Whether a text can stand in a column. -/
def Text.FitsColumn (text : Text) : Prop :=
  ∀ c ∈ text, c ≠ '\t' ∧ c ≠ '\n'

namespace Text.FitsColumn

variable {text more : Text}

instance (text : Text) : Decidable (Text.FitsColumn text) :=
  List.decidableBAll (fun c => c ≠ '\t' ∧ c ≠ '\n') text

theorem append (h : Text.FitsColumn text) (hmore : Text.FitsColumn more) :
    Text.FitsColumn (text ++ more) :=
  List.forall_mem_append.mpr ⟨h, hmore⟩

theorem of_subset (h : Text.FitsColumn more) (hsub : text ⊆ more) : Text.FitsColumn text :=
  fun c hc => h c (hsub hc)

theorem intercalate {separator : Text} {texts : List Text} (hseparator : Text.FitsColumn separator)
    (h : ∀ text ∈ texts, Text.FitsColumn text) :
    Text.FitsColumn (List.intercalate separator texts) :=
  forall_mem_intercalate hseparator h

theorem decimal (n : Nat) : Text.FitsColumn (Text.decimal n) := by
  intro c hc
  have hdigit : c.isDigit = true := Nat.isDigit_of_mem_toDigits (by decide) (by decide) hc
  constructor <;> rintro rfl <;> exact absurd hdigit (by decide)

end Text.FitsColumn

/-- The characters of a token that is not blank fit into a column. -/
theorem Span.fitsColumn {span : Span} {text : Text} (h : span ∈ ofText text)
    (hkind : span.kind ≠ .space) : Text.FitsColumn span.text := by
  intro c hc
  rw [← ofChar_of_mem h c hc] at hkind
  constructor <;> rintro rfl <;> exact hkind rfl

/-! ## What an analysis takes from its word -/

namespace Analyzer

variable {lexicon : Lexicon} {word : Text} {analysis : Analysis}

/-- An analysis whose headword and affixes are made of the letters of a word. -/
structure MadeOf (word : Text) (analysis : Analysis) : Prop where
  headword : analysis.headword ⊆ word
  verbPrefix : ∀ front ∈ analysis.verbPrefix, front ⊆ '-' :: word
  suffixes : ∀ suffix ∈ analysis.suffixes, suffix.2 ⊆ '-' :: word

theorem madeOf_of_mem_contribution {kind : TemplateKind}
    (h : analysis ∈ contribution lexicon kind word) : MadeOf word analysis := by
  obtain ⟨d, suffixes, chosen, hreading, _, _, rfl⟩ := exists_reading_of_mem h
  have hword := hreading.division.word
  have htail : d.tail ⊆ word := by
    rw [hword]
    exact List.subset_append_of_subset_right _ (List.subset_append_right _ _)
  constructor
  · show d.headword ⊆ word
    rw [hword]
    exact List.subset_append_of_subset_right _ (List.subset_append_left _ _)
  · intro front hfront
    change front ∈ (if d.front = [] then none else some (d.front ++ "-".toList)) at hfront
    split at hfront
    · cases hfront
    · cases hfront
      refine List.append_subset.mpr ⟨List.subset_cons_of_subset _ ?_, by simp⟩
      rw [hword]
      exact List.subset_append_left _ _
  · intro suffix hsuffix
    obtain ⟨a, ha, rfl⟩ := List.mem_map.mp (Ordered.mem_of_mem_ofPairs hsuffix)
    have hpiece : a.text ++ a.rover ⊆ d.tail := by
      rw [← hreading.spells.flatten_eq, ← hreading.attached.flatten_attachments]
      exact fun c hc => List.mem_flatten.mpr ⟨_, List.mem_map_of_mem ha, hc⟩
    show "-".toList ++ a.text ++ a.rover ⊆ '-' :: word
    rw [List.append_assoc]
    exact List.cons_subset_cons '-' (List.Subset.trans hpiece htail)

/-- The headword and the affixes of every analysis are made of the letters of the word. -/
theorem exists_madeOf_of_mem (h : analysis ∈ (ofLexicon lexicon).analyze word) :
    ∃ found, MadeOf word found ∧ analysis = complete found := by
  obtain ⟨found, hfound, rfl⟩ := mem_analyze.mp h
  refine ⟨found, ?_, rfl⟩
  rcases of_mem_contributions hfound with ⟨kind, hfound⟩ | ⟨entry, hentry, rfl⟩
  · exact madeOf_of_mem_contribution hfound
  · have hname : entry.name = word := by
      have hfilter := (List.mem_filter.mp hentry).2
      exact of_decide_eq_true ((Bool.and_eq_true _ _).mp hfilter).1
    exact ⟨fun c hc => hname ▸ hc, fun front hfront => (Option.not_mem_none _ hfront).elim,
      fun suffix hsuffix => absurd hsuffix List.not_mem_nil⟩

end Analyzer

/-! ## Columns -/

namespace Conllu

variable {lexicon : Lexicon} {word : Text} {analysis : Analysis}

open Analyzer (MadeOf)

theorem fitsColumn_affix (hword : Text.FitsColumn word) {affix : Text} (h : affix ⊆ '-' :: word) :
    Text.FitsColumn affix := by
  have hdash : Text.FitsColumn ['-'] := by decide
  exact (hdash.append hword).of_subset h

theorem fitsColumn_combinedTag (hword : Text.FitsColumn word) (h : MadeOf word analysis) :
    Text.FitsColumn analysis.combinedTag := by
  have hfine : Text.FitsColumn analysis.fine.symbol := by cases analysis.fine <;> decide
  have hdot : Text.FitsColumn "." := by decide
  rw [Analysis.combinedTag]
  refine List.foldlRecOn _ _ hfine fun tag htag slot _ => ?_
  split
  · next text htext =>
    obtain ⟨front, back, hsuffixes, _⟩ := List.lookup_eq_some_iff.mp htext
    have hmem : (slot, text) ∈ analysis.suffixes :=
      hsuffixes ▸ List.mem_append_right _ List.mem_cons_self
    have hsuffix := fitsColumn_affix hword (h.suffixes _ hmem)
    exact (htag.append hdot).append (hsuffix.of_subset (List.dropWhile_sublist _).subset)
  · exact htag

theorem Row.fitsColumn_listed {items : List Text} (h : ∀ item ∈ items, Text.FitsColumn item) :
    Text.FitsColumn (listed items) := by
  rw [listed]
  split
  · decide
  · exact Text.FitsColumn.intercalate (by decide) h

theorem Row.fitsColumn_features (analysis : Analysis) :
    ∀ item ∈ features analysis, Text.FitsColumn item := by
  have hrows : ∀ row ∈ Agreement.rows, Text.FitsColumn row.features := by decide +kernel
  have htable : ∀ entry ∈ suffixFeatures, Text.FitsColumn entry.2.2 := by decide +kernel
  intro item hitem
  rcases List.mem_append.mp hitem with hbefore | hsuffix
  · obtain ⟨dashed, _, hshown⟩ := Option.bind_eq_some_iff.mp (Option.mem_toList.mp hbefore)
    obtain ⟨row, hrow, rfl⟩ := Option.map_eq_some_iff.mp hshown
    exact hrows row (List.mem_of_find?_eq_some hrow)
  · obtain ⟨suffix, _, hfeature⟩ := List.mem_filterMap.mp hsuffix
    obtain ⟨entry, hentry, rfl⟩ := Option.map_eq_some_iff.mp hfeature
    exact htable entry (List.mem_of_find?_eq_some hentry)

theorem Row.fitsColumn_remarks (hword : Text.FitsColumn word) (h : MadeOf word analysis) :
    ∀ item ∈ remarks analysis, Text.FitsColumn item := by
  intro item hitem
  rcases List.mem_append.mp hitem with hbefore | hsuffix
  · obtain ⟨front, hfront, rfl⟩ := Option.map_eq_some_iff.mp (Option.mem_toList.mp hbefore)
    have hname : Text.FitsColumn "Prefix=" := by decide
    exact hname.append (fitsColumn_affix hword (h.verbPrefix front hfront))
  · obtain ⟨suffix, hmem, rfl⟩ := List.mem_map.mp hsuffix
    have hname : Text.FitsColumn ("Suffix".toList ++ suffix.1.symbol ++ "=") := by
      cases suffix.1 <;> decide
    exact hname.append (fitsColumn_affix hword (h.suffixes suffix hmem))

/-- What is in the columns of a row. -/
theorem Row.forall_columns {P : Text → Prop} {row : Row} (hindex : P (Text.decimal row.index))
    (hform : P row.form) (hheadword : P row.headword) (hupos : P row.upos) (hxpos : P row.xpos)
    (hfeats : P row.feats) (hmisc : P row.misc) (hblank : P blank) :
    ∀ column ∈ row.columns, P column := by
  simp [columns, *]

theorem Row.fitsColumn_word (hword : Text.FitsColumn word) (index : Nat) :
    ∀ column ∈ (Row.word index word ((Analyzer.ofLexicon lexicon).analyze word)).columns,
      Text.FitsColumn column := by
  have hbare : ∀ column ∈ Row.columns { index, form := word }, Text.FitsColumn column := by
    have hblank : Text.FitsColumn blank := by decide
    exact forall_columns (.decimal index) hword hblank hblank hblank hblank hblank hblank
  cases hanalyses : (Analyzer.ofLexicon lexicon).analyze word with
  | nil => exact hbare
  | cons first others =>
    obtain ⟨found, hmade, rfl⟩ :=
      Analyzer.exists_madeOf_of_mem (hanalyses ▸ List.mem_cons_self : first ∈ _)
    rw [Row.word]
    split
    · refine forall_columns (.decimal index) hword ?_ ?_ ?_ ?_ ?_ (by decide)
      · exact hword.of_subset hmade.headword
      · show Text.FitsColumn found.fine.upos
        cases found.fine <;> decide
      · exact fitsColumn_combinedTag hword hmade
      · exact fitsColumn_listed (fitsColumn_features _)
      · exact fitsColumn_listed (fitsColumn_remarks hword ⟨hmade.1, hmade.2, hmade.3⟩)
    · exact hbare

theorem fitsColumn_row (lexicon : Lexicon) {span : Span} (hspan : Text.FitsColumn span.text) (index : Nat) :
    ∀ column ∈ (row (Analyzer.ofLexicon lexicon) index span).columns, Text.FitsColumn column := by
  rw [row]
  split
  · exact Row.fitsColumn_word hspan index
  · have hpunct : Text.FitsColumn "PUNCT" := by decide
    have hblank : Text.FitsColumn blank := by decide
    exact Row.forall_columns (.decimal index) hspan hspan hpunct hpunct hblank hblank hblank

/-! ## Lines -/

/-- The spans of a text that are not blank. -/
def visibleSpans (text : Text) : List Span :=
  (Span.ofText text).filter fun span => span.kind ≠ .space

theorem fitsColumn_of_mem_visibleSpans (text : Text) :
    ∀ span ∈ visibleSpans text, Text.FitsColumn span.text := by
  intro span hspan
  obtain ⟨hmem, hkind⟩ := List.mem_filter.mp hspan
  exact Span.fitsColumn hmem (of_decide_eq_true hkind)

/-- The place behind a span: the first one if the span ends its sentence. -/
def placeAfter (span : Span) (place : Nat) : Nat :=
  if endsSentence span then 1 else place + 1

/-- The places of spans in their sentences; the first span has the given place. -/
def places (place : Nat) : List Span → List Nat
  | [] => []
  | span :: rest => place :: places (placeAfter span place) rest

/-- A line of ten columns that shows a span at a place. -/
structure IsRow (span : Span) (place : Nat) (line : Text) : Prop where
  columns : (line.splitOn '\t').length = 10
  place : (line.splitOn '\t')[0]? = some (Text.decimal place)
  form : (line.splitOn '\t')[1]? = some span.text

/-- The line of a span, with an empty line behind it if the span ends its sentence. -/
def linesOf (span : Span) (line : Text) : List Text :=
  if endsSentence span then [line, []] else [line]

/-- What the lines tell: the form of each row, and whether a sentence ends there. -/
def readLines : List Text → List (Text × Bool)
  | [] => []
  | line :: rest =>
    if line = [] then readLines rest
    else (((line.splitOn '\t')[1]?).getD [], rest.head? = some []) :: readLines rest

theorem IsRow.ne_nil {span : Span} {place : Nat} {line : Text} (h : IsRow span place line) :
    line ≠ [] := by
  rintro rfl
  exact absurd h.columns (by decide)

theorem Row.index_form_word (index : Nat) (form : Text) (analyses : List Analysis) :
    (Row.word index form analyses).index = index ∧ (Row.word index form analyses).form = form := by
  cases analyses with
  | nil => exact ⟨rfl, rfl⟩
  | cons first others =>
    rw [Row.word]
    split <;> exact ⟨rfl, rfl⟩

theorem index_form_row (analyzer : Analyzer) (place : Nat) (span : Span) :
    (row analyzer place span).index = place ∧ (row analyzer place span).form = span.text := by
  rw [row]
  split
  · exact Row.index_form_word place span.text _
  · exact ⟨rfl, rfl⟩

/-- The line of a span that is not blank is a row, and it is a single line. -/
theorem isRow_line {span : Span} (hspan : Text.FitsColumn span.text) (place : Nat) :
    IsRow span place (row (Analyzer.ofLexicon lexicon) place span).line ∧
      '\n' ∉ (row (Analyzer.ofLexicon lexicon) place span).line := by
  have hfits := fitsColumn_row lexicon hspan place
  obtain ⟨hindex, hform⟩ := index_form_row (Analyzer.ofLexicon lexicon) place span
  have hsplit : (row (Analyzer.ofLexicon lexicon) place span).line.splitOn '\t' =
      (row (Analyzer.ofLexicon lexicon) place span).columns := by
    refine List.splitOn_intercalate '\t' (fun column hcolumn htab => ?_) (List.cons_ne_nil _ _)
    exact (hfits column hcolumn '\t' htab).1 rfl
  refine ⟨⟨?columns, ?place, ?form⟩, fun hfeed => ?_⟩
  case columns =>
    rw [hsplit]
    rfl
  case place =>
    rw [hsplit]
    exact congrArg (fun index => some (Text.decimal index)) hindex
  case form =>
    rw [hsplit]
    exact congrArg some hform
  · have htab : '\n' ∉ "\t".toList := by decide
    refine Text.not_mem_intercalate htab (fun column hcolumn hc => ?_) hfeed
    exact (hfits column hcolumn '\n' hc).2 rfl

/-- The rows of spans; the first has the given place. -/
def rowsFrom (analyzer : Analyzer) (place : Nat) : List Span → List Text
  | [] => []
  | span :: rest =>
    (row analyzer place span).line :: rowsFrom analyzer (placeAfter span place) rest

theorem linesFrom_eq (analyzer : Analyzer) (place : Nat) (spans : List Span) :
    linesFrom analyzer place spans =
      ((spans.filter fun span => span.kind ≠ .space).zip
        (rowsFrom analyzer place (spans.filter fun span => span.kind ≠ .space))).flatMap
          fun written => linesOf written.1 written.2 := by
  induction spans generalizing place with
  | nil => rfl
  | cons span rest ih =>
    rw [linesFrom]
    by_cases hspace : span.kind = .space
    · rw [if_pos hspace, ih, List.filter_cons_of_neg (by simp [hspace])]
    · rw [if_neg hspace, List.filter_cons_of_pos (by simp [hspace]), rowsFrom, List.zip_cons_cons,
        List.flatMap_cons, linesOf, placeAfter]
      split
      · rw [ih]
        rfl
      · rw [ih]
        rfl

theorem forall₂_rowsFrom (lexicon : Lexicon) {spans : List Span}
    (h : ∀ span ∈ spans, Text.FitsColumn span.text) (place : Nat) :
    List.Forall₂ (fun numbered line => IsRow numbered.1 numbered.2 line)
      (spans.zip (places place spans)) (rowsFrom (Analyzer.ofLexicon lexicon) place spans) := by
  induction spans generalizing place with
  | nil => exact .nil
  | cons span rest ih =>
    obtain ⟨hspan, hrest⟩ := List.forall_mem_cons.mp h
    exact .cons (isRow_line hspan place).1 (ih hrest _)

theorem feed_not_mem_rowsFrom {spans : List Span} (h : ∀ span ∈ spans, Text.FitsColumn span.text)
    (place : Nat) : ∀ line ∈ rowsFrom (Analyzer.ofLexicon lexicon) place spans, '\n' ∉ line := by
  induction spans generalizing place with
  | nil => exact fun line hline => absurd hline List.not_mem_nil
  | cons span rest ih =>
    obtain ⟨hspan, hrest⟩ := List.forall_mem_cons.mp h
    exact List.forall_mem_cons.mpr ⟨(isRow_line hspan place).2, ih hrest _⟩

theorem feed_not_mem_linesOf {spans : List Span} {rows : List Text}
    (h : ∀ line ∈ rows, '\n' ∉ line) :
    ∀ line ∈ (spans.zip rows).flatMap fun written => linesOf written.1 written.2, '\n' ∉ line := by
  intro line hline
  obtain ⟨⟨span, row⟩, hwritten, hline⟩ := List.mem_flatMap.mp hline
  have hrow := h row (List.of_mem_zip hwritten).2
  dsimp only [linesOf] at hline
  split at hline
  · rcases List.mem_pair.mp hline with rfl | rfl
    · exact hrow
    · exact List.not_mem_nil
  · rw [List.mem_singleton.mp hline]
    exact hrow

/-- Without the empty lines the rows are left. -/
theorem filter_linesOf {numbered : List (Span × Nat)} {rows : List Text}
    (h : List.Forall₂ (fun numbered line => IsRow numbered.1 numbered.2 line) numbered rows) :
    (((numbered.map (·.1)).zip rows).flatMap fun written =>
      linesOf written.1 written.2).filter (· ≠ []) = rows := by
  induction h with
  | nil => rfl
  | cons hrow _ ih =>
    rw [List.map_cons, List.zip_cons_cons, List.flatMap_cons, List.filter_append, ih, linesOf]
    split <;> simp [hrow.ne_nil]

/-- The forms and the ends of the sentences are read back. -/
theorem readLines_linesOf {numbered : List (Span × Nat)} {rows : List Text}
    (h : List.Forall₂ (fun numbered line => IsRow numbered.1 numbered.2 line) numbered rows) :
    readLines (((numbered.map (·.1)).zip rows).flatMap fun written => linesOf written.1 written.2) =
      (numbered.map (·.1)).map fun span => (span.text, endsSentence span) := by
  induction h with
  | nil => rfl
  | @cons numbered line rest more hrow hrest ih =>
    rw [List.map_cons, List.zip_cons_cons, List.flatMap_cons, List.map_cons, ← ih, linesOf]
    split
    · next hends =>
      rw [hends]
      simp [readLines, hrow.ne_nil, hrow.form]
    · next hends =>
      have hnext : (((rest.map (·.1)).zip more).flatMap fun written =>
          linesOf written.1 written.2).head? ≠ some [] := by
        cases hrest with
        | nil => simp
        | cons hnext _ =>
          rw [List.map_cons, List.zip_cons_cons, List.flatMap_cons, linesOf]
          split <;> simp [hnext.ne_nil]
      simp [readLines, hrow.ne_nil, hrow.form, hends, hnext]

theorem map_fst_zip_places (place : Nat) (spans : List Span) :
    (spans.zip (places place spans)).map (·.1) = spans := by
  induction spans generalizing place with
  | nil => rfl
  | cons span rest ih => rw [places, List.zip_cons_cons, List.map_cons, ih]

/-- The lines of a rendered text. A text of blanks has one empty line. -/
theorem splitOn_render (lexicon : Lexicon) (text : Text) :
    (render (.ofLexicon lexicon) text).splitOn '\n' =
      if visibleSpans text = [] then [[]]
      else ((visibleSpans text).zip
        (rowsFrom (.ofLexicon lexicon) 1 (visibleSpans text))).flatMap fun written =>
          linesOf written.1 written.2 := by
  have hwritten : linesFrom (.ofLexicon lexicon) 1 (Span.ofText text) =
      ((visibleSpans text).zip
        (rowsFrom (.ofLexicon lexicon) 1 (visibleSpans text))).flatMap fun written =>
          linesOf written.1 written.2 := linesFrom_eq _ 1 _
  have hsingle : ∀ line ∈ linesFrom (.ofLexicon lexicon) 1 (Span.ofText text), '\n' ∉ line := by
    rw [hwritten]
    exact feed_not_mem_linesOf (feed_not_mem_rowsFrom (fitsColumn_of_mem_visibleSpans text) 1)
  show (List.intercalate ['\n'] (linesFrom _ 1 _)).splitOn '\n' = _
  split
  · next hempty =>
    rw [hwritten, hempty]
    rfl
  · next hne =>
    obtain ⟨first, rest, hcons⟩ := List.exists_cons_of_ne_nil hne
    rw [List.splitOn_intercalate '\n' hsingle, hwritten]
    rw [hwritten, hcons, rowsFrom, List.zip_cons_cons, List.flatMap_cons, linesOf]
    split <;> exact List.cons_ne_nil _ _

/-- Apart from empty ones, the lines of a rendered text are rows of ten columns, one for each token
that is not blank and in their order, with the form and the place in the sentence. An empty line
follows the rows that end a sentence and no other. So the tokens and the ends of the sentences can be
read back. -/
theorem render_rows (lexicon : Lexicon) (text : Text) :
    let spans := visibleSpans text
    let lines := (render (.ofLexicon lexicon) text).splitOn '\n'
    ∃ rows : List Text,
      List.Forall₂ (fun numbered line => IsRow numbered.1 numbered.2 line)
        (spans.zip (places 1 spans)) rows ∧
      lines.filter (· ≠ []) = rows ∧
      lines = (if spans = [] then [[]]
        else (spans.zip rows).flatMap fun written => linesOf written.1 written.2) ∧
      readLines lines = spans.map fun span => (span.text, endsSentence span) := by
  intro spans lines
  have hrows := forall₂_rowsFrom lexicon (fitsColumn_of_mem_visibleSpans text) 1
  have hlines : lines = _ := splitOn_render lexicon text
  have hfilter := filter_linesOf hrows
  have hread := readLines_linesOf hrows
  rw [map_fst_zip_places] at hfilter hread
  refine ⟨rowsFrom (.ofLexicon lexicon) 1 spans, hrows, ?_, hlines, ?_⟩
  · rw [hlines]
    split
    · next hempty =>
      rw [show spans = [] from hempty]
      rfl
    · exact hfilter
  · rw [hlines]
    split
    · next hempty =>
      rw [show spans = [] from hempty]
      rfl
    · exact hread

/-- A run of full stops ends no sentence. -/
example : places 1 (visibleSpans "Suv... Suv! jISuv") = [1, 2, 3, 4, 1] := by decide

end Conllu

end Klingon
