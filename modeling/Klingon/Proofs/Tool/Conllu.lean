import Mathlib.Data.List.Chain
import Mathlib.Data.List.Forall2
import Mathlib.Data.List.TakeWhile
import Klingon.Proofs.Conllu
import Klingon.Proofs.Token.Splitting
import Klingon.Proofs.Tool.Surroundings
import Klingon.Tool.Conllu

/-!
# The blocks of the printed rows

What is printed for an input is a row of blocks, one for each sentence. A sentence ends at its full
stop, exclamation mark or question mark, or with its line. A block has the rows of its sentence,
numbered from one, and one empty line behind them, whether the empty line belongs to the text of the
line or was put behind it.
-/

namespace Klingon

/-! ## Blanks around a text -/

/-- The blanks at the ends of a text are not in the trimmed text, and nothing else is missing. -/
theorem Text.exists_blanks_trimmed (text : Text) : ∃ before after,
    text = before ++ (text.trimmed ++ after) ∧ (∀ c ∈ before, isBlank c = true) ∧
      ∀ c ∈ after, isBlank c = true := by
  have hbefore := List.takeWhile_append_dropWhile (p := isBlank) (l := text)
  have hafter := List.takeWhile_append_dropWhile (p := isBlank)
    (l := (text.dropWhile isBlank).reverse)
  refine ⟨text.takeWhile isBlank, ((text.dropWhile isBlank).reverse.takeWhile isBlank).reverse, ?_,
    fun c => List.mem_takeWhile_imp, fun c hc => List.mem_takeWhile_imp (List.mem_reverse.mp hc)⟩
  rw [trimmed, ← List.reverse_append, hafter, List.reverse_reverse, hbefore]

/-- A trimmed text begins with a character that is not blank, unless it is empty. -/
theorem Text.exists_mem_trimmed {text : Text} (h : text.trimmed ≠ []) :
    ∃ c ∈ text.trimmed, isBlank c = false := by
  rw [trimmed, ne_eq, List.reverse_eq_nil_iff] at h
  obtain ⟨c, rest, hrest⟩ := List.exists_cons_of_ne_nil h
  have hhead := List.head?_dropWhile_not isBlank (text.dropWhile isBlank).reverse
  rw [hrest] at hhead
  refine ⟨c, ?_, hhead⟩
  rw [trimmed, hrest]
  exact List.mem_reverse.mpr List.mem_cons_self

namespace Conllu

/-- What is not blank shows in the spans of a text. -/
theorem visibleSpans_ne_nil {text : Text} {c : Char} (hc : c ∈ text)
    (hblank : Text.isBlank c = false) : visibleSpans text ≠ [] := by
  rw [← Span.flatten_ofText text] at hc
  obtain ⟨characters, hcharacters, hc⟩ := List.mem_flatten.mp hc
  obtain ⟨span, hspan, rfl⟩ := List.mem_map.mp hcharacters
  have hkind : span.kind ≠ .space := by
    intro hspace
    have hof := (Span.ofChar_of_mem hspan c hc).trans hspace
    rw [Span.ofChar_eq_space_iff, hblank] at hof
    cases hof
  exact List.ne_nil_of_mem (List.mem_filter.mpr ⟨hspan, decide_eq_true hkind⟩)

theorem visibleSpans_blanks_append {blanks : Text} (h : ∀ c ∈ blanks, Text.isBlank c = true)
    (text : Text) : visibleSpans (blanks ++ text) = visibleSpans text := by
  induction blanks with
  | nil => rfl
  | cons c blanks ih =>
    obtain ⟨hblank, hblanks⟩ := List.forall_mem_cons.mp h
    rw [← ih hblanks]
    exact Span.filter_push_blank hblank _

theorem visibleSpans_append_blanks {blanks : Text} (h : ∀ c ∈ blanks, Text.isBlank c = true)
    (text : Text) : visibleSpans (text ++ blanks) = visibleSpans text := by
  obtain ⟨front, back, back', htext, hlonger, hback, hback'⟩ := Span.ofText_append_blanks h text
  have hnone : ∀ spans : List Span, (∀ span ∈ spans, span.kind = .space) →
      (spans.filter fun span => span.kind ≠ .space) = [] := by
    intro spans hspans
    rw [List.filter_eq_nil_iff]
    intro span hspan
    simp [hspans span hspan]
  rw [visibleSpans, visibleSpans, htext, hlonger, List.filter_append, List.filter_append,
    hnone back hback, hnone back' hback']

theorem visibleSpans_trimmed (text : Text) : visibleSpans text.trimmed = visibleSpans text := by
  obtain ⟨before, after, htext, hbefore, hafter⟩ := Text.exists_blanks_trimmed text
  have hspans := congrArg visibleSpans htext
  rw [visibleSpans_blanks_append hbefore, visibleSpans_append_blanks hafter] at hspans
  exact hspans.symm

theorem trimmed_eq_nil_iff {text : Text} : text.trimmed = [] ↔ visibleSpans text = [] := by
  rw [← visibleSpans_trimmed]
  constructor
  · intro h
    rw [h]
    rfl
  · intro h
    by_contra hne
    obtain ⟨c, hc, hblank⟩ := Text.exists_mem_trimmed hne
    exact visibleSpans_ne_nil hc hblank h

end Conllu

namespace ConlluTool

open Conllu

/-! ## Sentences -/

/-- Spans divided into sentences. A sentence goes to the first span that ends one, or to the end. -/
inductive Sentences : List Span → List (List Span) → Prop
  | nil : Sentences [] []
  | unended {inner : List Span} {last : Span} : (∀ span ∈ inner, endsSentence span = false) →
    endsSentence last = false → Sentences (inner ++ [last]) [inner ++ [last]]
  | ended {inner rest : List Span} {last : Span} {sentences : List (List Span)} :
    (∀ span ∈ inner, endsSentence span = false) → endsSentence last = true →
    Sentences rest sentences →
    Sentences (inner ++ last :: rest) ((inner ++ [last]) :: sentences)

variable {spans inner rest : List Span} {last : Span} {sentences : List (List Span)}
  {line : Text}

/-- A span that ends no sentence begins the first one. -/
theorem Sentences.exists_cons (h : Sentences spans sentences) {span : Span}
    (hspan : endsSentence span = false) : ∃ more, Sentences (span :: spans) more := by
  cases h with
  | nil => exact ⟨_, .unended (List.forall_mem_nil _) hspan⟩
  | unended hinner hlast =>
    exact ⟨_, .unended (List.forall_mem_cons.mpr ⟨hspan, hinner⟩) hlast⟩
  | ended hinner hlast hrest =>
    exact ⟨_, .ended (List.forall_mem_cons.mpr ⟨hspan, hinner⟩) hlast hrest⟩

theorem exists_sentences (spans : List Span) : ∃ sentences, Sentences spans sentences := by
  induction spans with
  | nil => exact ⟨[], .nil⟩
  | cons span rest ih =>
    obtain ⟨sentences, h⟩ := ih
    cases hspan : endsSentence span with
    | true => exact ⟨_, .ended (List.forall_mem_nil _) hspan h⟩
    | false => exact h.exists_cons hspan

theorem Sentences.flatten_eq (h : Sentences spans sentences) : sentences.flatten = spans := by
  induction h with
  | nil => rfl
  | unended => exact List.append_nil _
  | ended _ _ _ ih => rw [List.flatten_cons, ih, List.append_assoc, List.singleton_append]

theorem Sentences.ne_nil_of_mem (h : Sentences spans sentences) :
    ∀ sentence ∈ sentences, sentence ≠ [] := by
  have hne : ∀ (inner : List Span) (last : Span), inner ++ [last] ≠ [] := by simp
  induction h with
  | nil => exact List.forall_mem_nil _
  | unended => exact List.forall_mem_singleton.mpr (hne _ _)
  | ended _ _ _ ih => exact List.forall_mem_cons.mpr ⟨hne _ _, ih⟩

/-! ## Blocks -/

/-- Rows for the spans of a sentence, numbered from one. -/
structure IsBlock (sentence : List Span) (block : List Text) : Prop where
  rows : List.Forall₂ (fun numbered row => IsRow numbered.1 numbered.2 row) (sentence.zipIdx 1)
    block
  nonempty : block ≠ []

theorem ne_nil_of_mem_rows {numbered : List (Span × Nat)} {rows : List Text}
    (h : List.Forall₂ (fun numbered row => IsRow numbered.1 numbered.2 row) numbered rows) :
    ∀ row ∈ rows, row ≠ [] := by
  induction h with
  | nil => exact List.forall_mem_nil _
  | cons hrow _ ih => exact List.forall_mem_cons.mpr ⟨hrow.ne_nil, ih⟩

/-- Blocks with an empty line behind each. -/
def blockLines (blocks : List (List Text)) : List Text :=
  blocks.flatMap fun block => block ++ [[]]

theorem blockLines_cons (block : List Text) (blocks : List (List Text)) :
    blockLines (block :: blocks) = block ++ [] :: blockLines blocks := by
  rw [blockLines, List.flatMap_cons, List.append_assoc]
  rfl

theorem blockLines_append (blocks more : List (List Text)) :
    blockLines (blocks ++ more) = blockLines blocks ++ blockLines more :=
  List.flatMap_append

section BlockLines

variable {block : List Text} {blocks : List (List Text)}

/-- The lines of blocks do not begin with an empty one. -/
theorem head?_blockLines (h : ∀ block ∈ blocks, block ≠ [] ∧ ∀ row ∈ block, row ≠ []) :
    (blockLines blocks).head? ≠ some [] := by
  cases blocks with
  | nil => exact (Option.some_ne_none _).symm
  | cons block blocks =>
    obtain ⟨hblock, hrows⟩ := h block List.mem_cons_self
    obtain ⟨row, more, rfl⟩ := List.exists_cons_of_ne_nil hblock
    rw [blockLines_cons]
    exact fun hrow => hrows row List.mem_cons_self (Option.some.inj hrow)

/-- No two empty lines follow each other. -/
theorem isChain_blockLines (h : ∀ block ∈ blocks, block ≠ [] ∧ ∀ row ∈ block, row ≠ []) :
    (blockLines blocks).IsChain fun line next => ¬ (line = [] ∧ next = []) := by
  induction blocks with
  | nil => exact List.isChain_nil
  | cons block blocks ih =>
    obtain ⟨⟨-, hrows⟩, hblocks⟩ := List.forall_mem_cons.mp h
    have hblock : block.IsChain fun line next => ¬ (line = [] ∧ next = []) :=
      List.Pairwise.isChain (List.pairwise_of_forall_mem_list fun row hrow _ _ hempty =>
        hrows row hrow hempty.1)
    rw [blockLines_cons, List.isChain_append]
    refine ⟨hblock, List.isChain_cons.mpr ⟨fun next hnext hempty => ?_, ih hblocks⟩,
      fun row hrow next _ hempty => hrows row (List.mem_of_mem_getLast? hrow) hempty.1⟩
    rw [hempty.2] at hnext
    exact head?_blockLines hblocks hnext

/-- The last line of blocks is empty. -/
theorem eq_nil_of_mem_getLast?_blockLines : ∀ last ∈ (blockLines blocks).getLast?, last = [] := by
  cases blocks using List.reverseRecOn with
  | nil => exact fun last hlast => (Option.not_mem_none last hlast).elim
  | append_singleton blocks block =>
    intro last hlast
    rw [blockLines, List.flatMap_append, List.flatMap_singleton, ← List.append_assoc,
      List.getLast?_concat] at hlast
    exact (Option.some.inj hlast).symm

end BlockLines

/-! ## The lines of a text -/

/-- The rows of spans, numbered from a place on. -/
def numberedRows (analyzer : Analyzer) (place : Nat) (spans : List Span) : List Text :=
  (spans.zipIdx place).map fun numbered => (row analyzer numbered.2 numbered.1).line

/-- The empty line that lines lack at their end. -/
def missingEnd (lines : List Text) : List Text :=
  if lines.getLast?.getD [] = [] then [] else [[]]

variable {lexicon : Lexicon}

theorem isBlock_numberedRows (hfits : ∀ span ∈ spans, Text.FitsColumn span.text)
    (hne : spans ≠ []) : IsBlock spans (numberedRows (.ofLexicon lexicon) 1 spans) where
  rows := by
    rw [numberedRows, List.forall₂_map_right_iff, List.forall₂_same]
    intro numbered hnumbered
    obtain ⟨span, place⟩ := numbered
    exact (isRow_line (hfits span (List.fst_mem_of_mem_zipIdx hnumbered)) place).1
  nonempty := by
    rw [numberedRows, ne_eq, List.map_eq_nil_iff, List.zipIdx_eq_nil_iff]
    exact hne

theorem Sentences.fitsColumn (h : Sentences spans sentences)
    (hfits : ∀ span ∈ spans, Text.FitsColumn span.text) :
    ∀ sentence ∈ sentences, ∀ span ∈ sentence, Text.FitsColumn span.text := by
  intro sentence hsentence span hspan
  exact hfits span (h.flatten_eq ▸ List.mem_flatten.mpr ⟨sentence, hsentence, hspan⟩)

/-- The rows of each sentence are a block for it. -/
theorem Sentences.isBlock (lexicon : Lexicon) (h : Sentences spans sentences)
    (hfits : ∀ span ∈ spans, Text.FitsColumn span.text) :
    List.Forall₂ IsBlock sentences (sentences.map (numberedRows (.ofLexicon lexicon) 1)) := by
  rw [List.forall₂_map_right_iff, List.forall₂_same]
  intro sentence hsentence
  exact isBlock_numberedRows (h.fitsColumn hfits _ hsentence) (h.ne_nil_of_mem _ hsentence)

/-- The lines of the blocks hold no line feed, so they can be told apart when they are printed. -/
theorem Sentences.not_mem_of_mem_blockLines (lexicon : Lexicon) (h : Sentences spans sentences)
    (hfits : ∀ span ∈ spans, Text.FitsColumn span.text) :
    ∀ row ∈ blockLines (sentences.map (numberedRows (.ofLexicon lexicon) 1)), '\n' ∉ row := by
  intro row hrow
  obtain ⟨block, hblock, hrow⟩ := List.mem_flatMap.mp hrow
  obtain ⟨sentence, hsentence, rfl⟩ := List.mem_map.mp hblock
  rcases List.mem_append.mp hrow with hrow | hempty
  · obtain ⟨⟨span, place⟩, hnumbered, rfl⟩ := List.mem_map.mp hrow
    have hspan := h.fitsColumn hfits _ hsentence span (List.fst_mem_of_mem_zipIdx hnumbered)
    exact (isRow_line hspan place).2
  · rw [List.mem_singleton.mp hempty]
    exact List.not_mem_nil

theorem linesFrom_ne_nil (analyzer : Analyzer) (place : Nat) (hne : spans ≠ [])
    (hvisible : ∀ span ∈ spans, span.kind ≠ .space) : linesFrom analyzer place spans ≠ [] := by
  obtain ⟨span, rest, rfl⟩ := List.exists_cons_of_ne_nil hne
  rw [linesFrom, if_neg (hvisible span List.mem_cons_self)]
  split
  · exact List.cons_ne_nil _ _
  · exact List.cons_ne_nil _ _

/-- The lines up to the end of a sentence and behind it. -/
theorem linesFrom_sentence (analyzer : Analyzer)
    (hvisible : ∀ span ∈ inner ++ [last], span.kind ≠ .space)
    (hinner : ∀ span ∈ inner, endsSentence span = false) (place : Nat) (rest : List Span) :
    linesFrom analyzer place (inner ++ last :: rest) =
      numberedRows analyzer place (inner ++ [last]) ++
        if endsSentence last then [] :: linesFrom analyzer 1 rest
        else linesFrom analyzer (place + inner.length + 1) rest := by
  induction inner generalizing place with
  | nil =>
    rw [List.nil_append, linesFrom, if_neg (hvisible last List.mem_cons_self)]
    split <;> rfl
  | cons span inner ih =>
    obtain ⟨hspan, hmore⟩ := List.forall_mem_cons.mp hvisible
    obtain ⟨hends, hinner⟩ := List.forall_mem_cons.mp hinner
    rw [List.cons_append, linesFrom, if_neg hspan, hends, if_neg Bool.false_ne_true,
      ih hmore hinner, List.length_cons, Nat.add_assoc place, Nat.add_comm 1]
    rfl

theorem missingEnd_append (front more : List Text) :
    missingEnd (front ++ [] :: more) = missingEnd more := by
  rw [missingEnd, missingEnd, List.getLast?_append, List.getLast?_cons, Option.some_or,
    Option.getD_some]

theorem missingEnd_of_nonempty {lines : List Text} (hne : lines ≠ [])
    (h : ∀ line ∈ lines, line ≠ []) : missingEnd lines = [[]] := by
  have hlast := h _ (List.getLast_mem hne)
  rw [missingEnd, List.getLast?_eq_some_getLast hne, Option.getD_some, if_neg hlast]

/-- The lines of sentences, each with an empty line behind it. -/
theorem Sentences.linesFrom_eq (lexicon : Lexicon) (h : Sentences spans sentences)
    (hvisible : ∀ span ∈ spans, span.kind ≠ .space)
    (hfits : ∀ span ∈ spans, Text.FitsColumn span.text) :
    let lines := linesFrom (.ofLexicon lexicon) 1 spans
    lines ++ missingEnd lines =
      blockLines (sentences.map (numberedRows (.ofLexicon lexicon) 1)) := by
  induction h with
  | nil => rfl
  | @unended inner last hinner hlast =>
    have hlines := linesFrom_sentence (.ofLexicon lexicon) hvisible hinner 1 []
    rw [hlast, if_neg Bool.false_ne_true, linesFrom, List.append_nil] at hlines
    have hblock : IsBlock (inner ++ [last]) (numberedRows (.ofLexicon lexicon) 1 _) :=
      isBlock_numberedRows hfits (by simp)
    show linesFrom _ 1 _ ++ missingEnd (linesFrom _ 1 _) = _
    rw [hlines, missingEnd_of_nonempty hblock.nonempty (ne_nil_of_mem_rows hblock.rows),
      List.map_singleton, blockLines_cons]
    rfl
  | @ended inner rest last sentences hinner hlast _ ih =>
    rw [← List.singleton_append, ← List.append_assoc, List.forall_mem_append] at hvisible hfits
    have hlines := linesFrom_sentence (.ofLexicon lexicon) hvisible.1 hinner 1 rest
    rw [hlast, if_pos rfl] at hlines
    show linesFrom _ 1 _ ++ missingEnd (linesFrom _ 1 _) = _
    rw [hlines, missingEnd_append, List.append_assoc, List.cons_append, ih hvisible.2 hfits.2,
      List.map_cons, blockLines_cons]

/-- Blanks have no rows. -/
theorem linesFrom_ofText (analyzer : Analyzer) (text : Text) :
    linesFrom analyzer 1 (Span.ofText text) = linesFrom analyzer 1 (visibleSpans text) := by
  rw [Conllu.linesFrom_eq, Conllu.linesFrom_eq analyzer 1 (visibleSpans text), visibleSpans,
    List.filter_filter]
  simp only [Bool.and_self]

/-- Separated lines end with a line feed if the last one is empty. -/
theorem getLast?_intercalate {front : List Text} {last : Text}
    (hhead : (front ++ [last]).head? ≠ some []) (hfeed : '\n' ∉ last) :
    (List.intercalate ['\n'] (front ++ [last])).getLast? = some '\n' ↔ last = [] := by
  rw [intercalate_concat, List.getLast?_append]
  constructor
  · intro h
    by_contra hlast
    rw [List.getLast?_eq_some_getLast hlast, Option.some_or, Option.some.injEq] at h
    exact hfeed (h ▸ List.getLast_mem hlast)
  · rintro rfl
    have hfront : front ≠ [] := by
      rintro rfl
      exact hhead rfl
    rw [getLast?_endLines hfront]
    rfl

/-- Separated lines get the end of the last one and the empty line that is missing. -/
theorem renderLine_eq {analyzer : Analyzer} {lines : List Text}
    (hlines : linesFrom analyzer 1 (Span.ofText line) = lines) (hne : lines ≠ [])
    (hhead : lines.head? ≠ some []) (hfeed : ∀ row ∈ lines, '\n' ∉ row) :
    renderLine analyzer line = endLines (lines ++ missingEnd lines) := by
  obtain ⟨front, last, rfl⟩ := (List.eq_nil_or_concat' lines).resolve_left hne
  have hlast := getLast?_intercalate hhead (hfeed last (by simp))
  have hend : endLines [last] = last ++ ['\n'] := List.flatMap_singleton _ _
  rw [renderLine, Conllu.render, hlines, missingEnd, List.getLast?_concat, Option.getD_some,
    endLines_append, endLines_append, hend]
  change (if (List.intercalate ['\n'] (front ++ [last])).getLast? = some '\n'
    then List.intercalate ['\n'] (front ++ [last]) ++ ['\n']
    else List.intercalate ['\n'] (front ++ [last]) ++ ['\n', '\n']) = _
  by_cases hempty : last = []
  · rw [if_pos (hlast.mpr hempty), if_pos hempty, intercalate_concat, List.append_assoc]
    exact (List.append_nil _).symm
  · rw [if_neg (mt hlast.mp hempty), if_neg hempty, intercalate_concat]
    simp [endLines]

/-! ## Everything that is printed -/

/-- Blocks that show a line, one for each of its sentences. -/
def ShowsLine (line : Text) (blocks : List (List Text)) : Prop :=
  ∃ sentences, Sentences (visibleSpans line) sentences ∧ sentences ≠ [] ∧
    List.Forall₂ IsBlock sentences blocks

theorem ShowsLine.nonempty {blocks : List (List Text)} (h : ShowsLine line blocks) :
    ∀ block ∈ blocks, block ≠ [] ∧ ∀ row ∈ block, row ≠ [] := by
  obtain ⟨sentences, -, -, hblocks⟩ := h
  induction hblocks with
  | nil => exact List.forall_mem_nil _
  | cons hblock _ ih =>
    exact List.forall_mem_cons.mpr ⟨⟨hblock.nonempty, ne_nil_of_mem_rows hblock.rows⟩, ih⟩

/-- A line that is not blank is printed as the blocks of its sentences. -/
theorem exists_showsLine (lexicon : Lexicon) (hne : visibleSpans line ≠ []) :
    ∃ blocks, ShowsLine line blocks ∧ (∀ row ∈ blockLines blocks, '\n' ∉ row) ∧
      renderLine (.ofLexicon lexicon) line.trimmed = endLines (blockLines blocks) := by
  obtain ⟨sentences, hsentences⟩ := exists_sentences (visibleSpans line)
  have hfits := fitsColumn_of_mem_visibleSpans line
  have hvisible : ∀ span ∈ visibleSpans line, span.kind ≠ .space :=
    fun span hspan => of_decide_eq_true (List.mem_filter.mp hspan).2
  have hsome : sentences ≠ [] := by
    rintro rfl
    exact hne hsentences.flatten_eq.symm
  have hshows : ShowsLine line (sentences.map (numberedRows (.ofLexicon lexicon) 1)) :=
    ⟨sentences, hsentences, hsome, hsentences.isBlock lexicon hfits⟩
  have hfeed := hsentences.not_mem_of_mem_blockLines lexicon hfits
  refine ⟨_, hshows, hfeed, ?_⟩
  have hlines : linesFrom (.ofLexicon lexicon) 1 (Span.ofText line.trimmed) =
      linesFrom (.ofLexicon lexicon) 1 (visibleSpans line) := by
    rw [linesFrom_ofText, visibleSpans_trimmed]
  have hlinesSome := linesFrom_ne_nil (.ofLexicon lexicon) 1 hne hvisible
  have hblocks := hsentences.linesFrom_eq lexicon hvisible hfits
  dsimp only at hblocks
  have hhead := head?_blockLines hshows.nonempty
  rw [← hblocks] at hhead hfeed ⊢
  rw [List.head?_append_of_ne_nil _ hlinesSome] at hhead
  exact renderLine_eq hlines hlinesSome hhead
    fun row hrow => hfeed row (List.mem_append_left _ hrow)

/-- The lines of the input that are not blank. -/
def shownLines (input : Text) : List Text :=
  input.lines.filter fun line => visibleSpans line ≠ []

theorem render_eq (analyzer : Analyzer) (input : Text) :
    render analyzer input =
      (shownLines input).flatMap fun line => renderLine analyzer line.trimmed := by
  have hsame : ((fun line : Text => !line.isEmpty) ∘ Text.trimmed) =
      fun line => decide (visibleSpans line ≠ []) := by
    funext line
    rw [Function.comp_apply, Bool.eq_iff_iff, decide_eq_true_iff, ne_eq, ← trimmed_eq_nil_iff]
    simp
  rw [render, List.filter_map, hsame, List.flatMap_map]
  rfl

theorem exists_showsLines (lexicon : Lexicon) {lines : List Text}
    (h : ∀ line ∈ lines, visibleSpans line ≠ []) :
    ∃ shown, List.Forall₂ ShowsLine lines shown ∧
      (∀ row ∈ blockLines shown.flatten, '\n' ∉ row) ∧
      (lines.flatMap fun line => renderLine (.ofLexicon lexicon) line.trimmed) =
        endLines (blockLines shown.flatten) := by
  induction lines with
  | nil => exact ⟨[], .nil, List.forall_mem_nil _, rfl⟩
  | cons line lines ih =>
    obtain ⟨hline, hlines⟩ := List.forall_mem_cons.mp h
    obtain ⟨blocks, hshows, hfeed, hprinted⟩ := exists_showsLine lexicon hline
    obtain ⟨shown, hall, hfeeds, hmore⟩ := ih hlines
    refine ⟨blocks :: shown, .cons hshows hall, ?_, ?_⟩
    · rw [List.flatten_cons, blockLines_append, List.forall_mem_append]
      exact ⟨hfeed, hfeeds⟩
    · rw [List.flatMap_cons, hprinted, hmore, List.flatten_cons, blockLines_append, endLines_append]

theorem nonempty_of_showsLines {lines : List Text} {shown : List (List (List Text))}
    (h : List.Forall₂ ShowsLine lines shown) :
    ∀ block ∈ shown.flatten, block ≠ [] ∧ ∀ row ∈ block, row ≠ [] := by
  induction h with
  | nil => exact List.forall_mem_nil _
  | cons hline _ ih =>
    rw [List.flatten_cons, List.forall_mem_append]
    exact ⟨hline.nonempty, ih⟩

/-- Whatever the lexicon and the input, the lines that are printed are those of blocks, each a run
of rows numbered from one and an empty line. The blocks of a line of the input are those of its
sentences: each ends where a sentence ends or with the line. So no empty line comes first or behind
another one, and the last line is empty. -/
theorem render_blocks (lexicon : Lexicon) (input : Text) :
    ∃ shown : List (List (List Text)), List.Forall₂ ShowsLine (shownLines input) shown ∧
      (render (.ofLexicon lexicon) input).splitOn '\n' = blockLines shown.flatten ++ [[]] ∧
      (blockLines shown.flatten).head? ≠ some [] ∧
      (blockLines shown.flatten).IsChain (fun line next => ¬ (line = [] ∧ next = [])) ∧
      ∀ last ∈ (blockLines shown.flatten).getLast?, last = [] := by
  have hvisible : ∀ line ∈ shownLines input, visibleSpans line ≠ [] :=
    fun line hline => of_decide_eq_true (List.mem_filter.mp hline).2
  obtain ⟨shown, hshows, hfeed, hprinted⟩ := exists_showsLines lexicon hvisible
  have hnonempty := nonempty_of_showsLines hshows
  refine ⟨shown, hshows, ?_, head?_blockLines hnonempty, isChain_blockLines hnonempty,
    eq_nil_of_mem_getLast?_blockLines⟩
  rw [render_eq, hprinted, splitOn_endLines hfeed]

/-- A run of full stops ends no sentence, and a line of one mark is a block. -/
example : render (.ofLexicon (.ofEntries [])) "Suv... !?\n\n .\n" =
    ("1\tSuv\t_\t_\t_\t_\t_\t_\t_\t_\n2\t...\t...\tPUNCT\tPUNCT\t_\t_\t_\t_\t_\n" ++
      "3\t!\t!\tPUNCT\tPUNCT\t_\t_\t_\t_\t_\n\n" ++
      "1\t?\t?\tPUNCT\tPUNCT\t_\t_\t_\t_\t_\n\n" ++
      "1\t.\t.\tPUNCT\tPUNCT\t_\t_\t_\t_\t_\n\n" : String).toList := by
  decide +kernel

end ConlluTool

end Klingon
