import Klingon.Proofs.Proofreading.Spans

/-!
# Proofreading and blanks

Rules see the tokens that are not blank, and the analyses of a word depend on its text alone. Texts
with the same words and punctuation therefore have the same faults, on the same of these tokens and
put into the same words, however many blanks stand between and around them. Blanks in front of a text
move every fault by their number.
-/

namespace Klingon

variable {tokens tokens' : List Token} {token token' : Token}

/-! ## Tokens -/

/-- Two tokens that differ in their places only. -/
structure Token.SameWord (token token' : Token) : Prop where
  kind : token.kind = token'.kind
  text : token.text = token'.text
  analyses : token.analyses = token'.analyses

namespace Token.SameWord

theorem mark_eq (h : token.SameWord token') : token.mark = token'.mark := by
  funext bit
  unfold mark
  rw [h.kind, h.text, h.analyses]

theorem headword_eq (h : token.SameWord token') : token.headword = token'.headword := by
  unfold headword
  rw [h.text, h.analyses]

end Token.SameWord

/-- Lists that agree place by place, with the places. -/
theorem forall₂_getElem? {α β : Type} {R : α → β → Prop} {l : List α} {l' : List β}
    (h : List.Forall₂ R l l') :
    List.Forall₂ (fun a b => R a b ∧ ∃ i : Nat, l[i]? = some a ∧ l'[i]? = some b) l l' := by
  obtain ⟨hlength, hget⟩ := List.forall₂_iff_get.mp h
  refine List.forall₂_iff_get.mpr ⟨hlength, fun i hi hi' => ⟨hget i hi hi', i, ?_, ?_⟩⟩
  · exact List.getElem?_eq_getElem hi
  · exact List.getElem?_eq_getElem hi'

theorem Token.analyses_of_mem_ofSpans {offset : Nat} {spans : List Span}
    (h : token ∈ ofSpans offset spans) : token.analyses = [] := by
  induction spans generalizing offset with
  | nil => exact absurd h List.not_mem_nil
  | cons span rest ih =>
    rcases List.mem_cons.mp h with rfl | h
    · rfl
    · exact ih h

namespace Analyzer

variable {analyzer : Analyzer} {text text' : Text}

/-- The analyses of a token are those of its text if it is a word. -/
theorem analyses_of_mem_tokens (h : token ∈ analyzer.tokens text) :
    token.analyses = if token.span.kind = .word then analyzer.analyze token.span.text else [] := by
  obtain ⟨plain, hplain, rfl⟩ := List.mem_map.mp h
  by_cases hword : plain.isWord = true
  · rw [Token.analyzed, if_pos hword]
    exact (if_pos (of_decide_eq_true hword)).symm
  · rw [Token.analyzed, if_neg hword, Token.analyses_of_mem_ofSpans hplain]
    exact (if_neg fun heq => hword (decide_eq_true heq)).symm

theorem visible_sameWord
    (h : (visible (analyzer.tokens text)).map Token.span =
      (visible (analyzer.tokens text')).map Token.span) :
    List.Forall₂ Token.SameWord (visible (analyzer.tokens text))
      (visible (analyzer.tokens text')) := by
  have hspans : List.Forall₂ (fun token token' => token.span = token'.span)
      (visible (analyzer.tokens text)) (visible (analyzer.tokens text')) := by
    rw [← List.forall₂_map_right_iff, ← List.forall₂_map_left_iff, h]
    exact List.forall₂_same.mpr fun _ _ => rfl
  refine (forall₂_getElem? hspans).imp ?_
  rintro token token' ⟨hspan, i, htoken, htoken'⟩
  have hin := (List.mem_filter.mp (List.mem_of_getElem? htoken)).1
  have hin' := (List.mem_filter.mp (List.mem_of_getElem? htoken')).1
  refine ⟨congrArg Span.kind hspan, congrArg Span.text hspan, ?_⟩
  rw [analyses_of_mem_tokens hin, analyses_of_mem_tokens hin', hspan]

end Analyzer

/-! ## Faults -/

/-- Two diagnostics that say the same and stand on the same of some tokens. -/
structure Diagnostic.SameFinding (tokens tokens' : List Token) (d d' : Diagnostic) : Prop where
  kind : d.kind = d'.kind
  rule : d.rule = d'.rule
  message : d.message = d'.message
  replacement : d.replacement = d'.replacement
  start : ∃ (i : Nat) (first first' : Token), tokens[i]? = some first ∧ tokens'[i]? = some first' ∧
    d.start = first.offset ∧ d'.start = first'.offset
  stop : ∃ (j : Nat) (last last' : Token), tokens[j]? = some last ∧ tokens'[j]? = some last' ∧
    d.stop = last.stop ∧ d'.stop = last'.stop

/-- A blank by itself gives rise to nothing. -/
theorem wordFaults_visible (options : ProofreadingOptions) (tokens : List Token) :
    wordFaults options (visible tokens) = wordFaults options tokens := by
  rw [wordFaults, visible, List.filterMap_filter, wordFaults]
  refine List.filterMap_congr fun token _ => ?_
  split
  · rfl
  · next hblank =>
    have hkind : token.kind = .space := by simpa [Token.isSpace] using hblank
    simp [Token.fault?, Token.isWord, hkind]

theorem Token.SameWord.fault?_sameFinding {i : Nat} (h : token.SameWord token')
    (htoken : tokens[i]? = some token) (htoken' : tokens'[i]? = some token')
    (options : ProofreadingOptions) :
    Option.Rel (Diagnostic.SameFinding tokens tokens') (token.fault? options)
      (token'.fault? options) := by
  have hword : token.isWord = token'.isWord := by rw [isWord, h.kind, isWord]
  have hstart : ∃ (i : Nat) (first first' : Token), tokens[i]? = some first ∧
      tokens'[i]? = some first' ∧ token.offset = first.offset ∧ token'.offset = first'.offset :=
    ⟨i, token, token', htoken, htoken', rfl, rfl⟩
  have hstop : ∃ (j : Nat) (last last' : Token), tokens[j]? = some last ∧
      tokens'[j]? = some last' ∧ token.stop = last.stop ∧ token'.stop = last'.stop :=
    ⟨i, token, token', htoken, htoken', rfl, rfl⟩
  unfold fault?
  rw [hword, h.analyses, h.text]
  split
  · exact .none
  · split <;> split
    · exact .some ⟨rfl, rfl, rfl, rfl, hstart, hstop⟩
    · exact .none
    · exact .some ⟨rfl, rfl, rfl, rfl, hstart, hstop⟩
    · exact .none

theorem wordFaults_sameFinding (h : List.Forall₂ Token.SameWord tokens tokens')
    (options : ProofreadingOptions) :
    List.Forall₂ (Diagnostic.SameFinding tokens tokens') (wordFaults options tokens)
      (wordFaults options tokens') := by
  refine List.rel_filterMap ?_ (forall₂_getElem? h)
  rintro token token' ⟨hsame, i, htoken, htoken'⟩
  exact hsame.fault?_sameFinding htoken htoken' options

/-! ## Wordings -/

theorem spellTokens_congr (h : List.Forall₂ Token.SameWord tokens tokens') (byHeadword : Bool)
    (numbers : List Nat) :
    spellTokens tokens byHeadword numbers = spellTokens tokens' byHeadword numbers := by
  have hnumbered : List.Forall₂ Token.SameWord (numbers.filterMap (tokens[·]?))
      (numbers.filterMap (tokens'[·]?)) := by
    refine List.rel_filterMap (fun i i' hi => ?_) (List.forall₂_same.mpr fun _ _ => rfl)
    rw [hi]
    exact rel_getElem? h i'
  rw [spellTokens, spellTokens]
  congr 1
  rw [← List.forall₂_eq_eq_eq, List.forall₂_map_left_iff, List.forall₂_map_right_iff]
  refine hnumbered.imp fun token token' hsame => ?_
  rw [hsame.headword_eq, hsame.text]

theorem fillIn_congr (h : List.Forall₂ Token.SameWord tokens tokens')
    (groups : List (Text × List Nat)) (wording : Text) :
    fillIn tokens groups wording = fillIn tokens' groups wording := by
  refine List.flatMap_congr fun piece _ => ?_
  cases piece with
  | literal c => rfl
  | reference name byHeadword =>
    rw [WordingPiece.spell, WordingPiece.spell]
    split
    · exact spellTokens_congr h byHeadword _
    · rfl

/-! ## Faults that rules find -/

theorem Rule.report_sameFinding (rule : Rule) (h : List.Forall₂ Token.SameWord tokens tokens')
    (found : PatternMatch) :
    Option.Rel (Diagnostic.SameFinding tokens tokens') (rule.report tokens found)
      (rule.report tokens' found) := by
  have hfill : fillIn tokens found.groups = fillIn tokens' found.groups :=
    funext (fillIn_congr h found.groups)
  refine rel_bind (rel_refl (faultTokens found).head?) fun i i' hi => ?_
  subst hi
  refine rel_bind (rel_getElem? (forall₂_getElem? h) i) ?_
  rintro first first' ⟨-, hfirst⟩
  refine rel_bind (rel_refl (faultTokens found).getLast?) fun j j' hj => ?_
  subst hj
  refine rel_bind (rel_getElem? (forall₂_getElem? h) j) ?_
  rintro last last' ⟨-, hlast⟩
  obtain ⟨i, hi, hi'⟩ := hfirst
  obtain ⟨j, hj, hj'⟩ := hlast
  rw [hfill]
  exact .some ⟨rfl, rfl, rfl, rfl, ⟨i, first, first', hi, hi', rfl, rfl⟩,
    ⟨j, last, last', hj, hj', rfl, rfl⟩⟩

theorem Rule.check_sameFinding (rule : Rule)
    (h : List.Forall₂ Token.SameWord (visible tokens) (visible tokens')) :
    Option.Rel (Diagnostic.SameFinding (visible tokens) (visible tokens')) (rule.check tokens)
      (rule.check tokens') := by
  have hencode := encode_congr rule.pattern.vocabulary (h.imp fun _ _ hsame => hsame.mark_eq)
  rw [check_eq, check_eq, hencode]
  exact rel_bind (rel_refl _) fun found _ hfound => hfound ▸ rule.report_sameFinding h found

theorem diagnose_sameFinding (options : ProofreadingOptions) (rules : List Rule)
    (h : List.Forall₂ Token.SameWord (visible tokens) (visible tokens')) :
    List.Forall₂ (Diagnostic.SameFinding (visible tokens) (visible tokens'))
      (diagnose options rules tokens) (diagnose options rules tokens') := by
  rw [diagnose, diagnose, ← wordFaults_visible options tokens, ← wordFaults_visible options tokens']
  refine List.rel_append (wordFaults_sameFinding h options) ?_
  refine List.rel_filterMap (fun rule rule' hrule => ?_) (List.forall₂_same.mpr fun _ _ => rfl)
  rw [hrule]
  exact rule'.check_sameFinding h

/-! ## Blanks in front of a text -/

/-- The token with some characters more in front of it. -/
def Token.shift (k : Nat) (token : Token) : Token :=
  { token with offset := token.offset + k }

/-- The diagnostic of the same fault with some characters more in front of it. -/
def Diagnostic.shift (k : Nat) (d : Diagnostic) : Diagnostic :=
  { d with start := d.start + k, stop := d.stop + k }

namespace Token

theorem stop_shift (k : Nat) (token : Token) : (token.shift k).stop = token.stop + k :=
  Nat.add_right_comm _ _ _

theorem analyzed_shift (analyzer : Analyzer) (k : Nat) (token : Token) :
    (token.shift k).analyzed analyzer = (token.analyzed analyzer).shift k := by
  unfold analyzed
  rw [show (token.shift k).isWord = token.isWord from rfl]
  split <;> rfl

theorem isSpace_analyzed (analyzer : Analyzer) (token : Token) :
    (token.analyzed analyzer).isSpace = token.isSpace := by
  unfold analyzed
  split <;> rfl

theorem ofSpans_add (offset k : Nat) (spans : List Span) :
    ofSpans (offset + k) spans = (ofSpans offset spans).map (shift k) := by
  induction spans generalizing offset with
  | nil => rfl
  | cons span rest ih =>
    rw [ofSpans, ofSpans, List.map_cons, ← ih, Nat.add_right_comm]
    rfl

end Token

theorem visible_map_shift (k : Nat) (tokens : List Token) :
    visible (tokens.map (Token.shift k)) = (visible tokens).map (Token.shift k) :=
  List.filter_map

/-- A blank in front of spans of a text joins the first of them or becomes a token of its own. -/
theorem visible_ofSpans_push {c : Char} {text : Text} (offset : Nat)
    (hblank : TokenKind.ofChar c = .space) :
    visible (Token.ofSpans offset (Span.push c (Span.ofText text))) =
      visible (Token.ofSpans (offset + 1) (Span.ofText text)) := by
  cases hspans : Span.ofText text with
  | nil => simp [Span.push, Token.ofSpans, visible, Token.isSpace, hblank]
  | cons first rest =>
    rw [Span.push]
    split
    · next hjoins =>
      obtain ⟨d, hd, hsame⟩ := Span.exists_of_joins hjoins
      have hfirst : first ∈ Span.ofText text := hspans ▸ List.mem_cons_self
      have hkind : first.kind = .space := by
        rw [← Span.ofChar_of_mem hfirst d hd, ← hsame, hblank]
      simp [Token.ofSpans, visible, Token.isSpace, hkind, Nat.add_assoc, Nat.add_comm 1]
    · simp [Token.ofSpans, visible, Token.isSpace, hblank]

theorem visible_ofSpans_blanks {blanks : Text} (hblanks : ∀ c ∈ blanks, Text.isBlank c = true)
    (offset : Nat) (text : Text) :
    visible (Token.ofSpans offset (Span.ofText (blanks ++ text))) =
      visible (Token.ofSpans (offset + blanks.length) (Span.ofText text)) := by
  induction blanks generalizing offset with
  | nil => rfl
  | cons c blanks ih =>
    have hblank := TokenKind.ofChar_of_isBlank (hblanks c List.mem_cons_self)
    have hstep : visible (Token.ofSpans offset (Span.ofText (c :: blanks ++ text))) =
        visible (Token.ofSpans (offset + 1) (Span.ofText (blanks ++ text))) :=
      visible_ofSpans_push offset hblank
    rw [hstep, ih (fun d hd => hblanks d (List.mem_cons_of_mem _ hd)), List.length_cons,
      Nat.add_right_comm, Nat.add_assoc]

theorem Analyzer.visible_tokens (analyzer : Analyzer) (text : Text) :
    visible (analyzer.tokens text) =
      (visible (Token.ofText text)).map (Token.analyzed analyzer) := by
  rw [visible, tokens, List.filter_map, visible]
  congr 1
  exact List.filter_congr fun token _ => congrArg (!·) (Token.isSpace_analyzed analyzer token)

/-- Blanks in front of a text move the tokens that are not blank. -/
theorem Analyzer.visible_tokens_blanks (analyzer : Analyzer) {blanks : Text}
    (hblanks : ∀ c ∈ blanks, Text.isBlank c = true) (text : Text) :
    visible (analyzer.tokens (blanks ++ text)) =
      (visible (analyzer.tokens text)).map (Token.shift blanks.length) := by
  rw [visible_tokens, visible_tokens, Token.ofText, visible_ofSpans_blanks hblanks,
    Token.ofSpans_add, visible_map_shift, List.map_map, List.map_map, Token.ofText]
  exact List.map_congr_left fun token _ => Token.analyzed_shift analyzer _ token

/-- A fault on the same of some moved tokens has moved like them. -/
theorem Diagnostic.SameFinding.eq_shift {k : Nat} {d d' : Diagnostic}
    (h : SameFinding tokens (tokens.map (Token.shift k)) d d') : d' = d.shift k := by
  have hmoved : ∀ {i : Nat} {token token' : Token}, tokens[i]? = some token →
      (tokens.map (Token.shift k))[i]? = some token' → token' = token.shift k := by
    intro i token token' htoken htoken'
    rw [List.getElem?_map, htoken] at htoken'
    exact (Option.some.inj htoken').symm
  obtain ⟨i, first, first', hi, hi', hstart, hstart'⟩ := h.start
  obtain ⟨j, last, last', hj, hj', hstop, hstop'⟩ := h.stop
  have hstart'' : d'.start = d.start + k := by
    rw [hstart', hmoved hi hi', hstart]
    rfl
  have hstop'' : d'.stop = d.stop + k := by
    rw [hstop', hmoved hj hj', Token.stop_shift, hstop]
  cases d'
  simp only [shift, mk.injEq]
  exact ⟨h.kind.symm, h.rule.symm, h.message.symm, hstart'', hstop'', h.replacement.symm⟩

/-- Texts of the same words and punctuation have the same faults on the same of these, put into the
same words, whatever blanks stand around and between them; and blanks in front of a text move every
fault by their number and change nothing else. -/
theorem diagnose_blanks (lexicon : Lexicon) (options : ProofreadingOptions) (rules : List Rule) :
    let tokens := (Analyzer.ofLexicon lexicon).tokens
    (∀ text text', (visible (tokens text)).map Token.span = (visible (tokens text')).map Token.span →
      List.Forall₂ (Diagnostic.SameFinding (visible (tokens text)) (visible (tokens text')))
        (diagnose options rules (tokens text)) (diagnose options rules (tokens text'))) ∧
    ∀ blanks text, (∀ c ∈ blanks, Text.isBlank c = true) →
      diagnose options rules (tokens (blanks ++ text)) =
        (diagnose options rules (tokens text)).map (Diagnostic.shift blanks.length) := by
  intro tokens
  refine ⟨fun text text' h => diagnose_sameFinding options rules (Analyzer.visible_sameWord h),
    fun blanks text hblanks => ?_⟩
  have hmoved : visible (tokens (blanks ++ text)) = _ :=
    Analyzer.visible_tokens_blanks (Analyzer.ofLexicon lexicon) hblanks text
  have hspans : (visible (tokens text)).map Token.span =
      (visible (tokens (blanks ++ text))).map Token.span := by
    rw [hmoved, List.map_map]
    rfl
  have hfound := diagnose_sameFinding options rules (Analyzer.visible_sameWord hspans)
  rw [hmoved] at hfound
  rw [← List.forall₂_eq_eq_eq, List.forall₂_map_right_iff]
  exact hfound.flip.imp fun d' d h => h.eq_shift

/-- A lexicon in which a word is missing. -/
def greetings : Lexicon :=
  .ofEntries [⟨"nuqneH:excl", "nuqneH", "excl", []⟩]

theorem diagnose_blanks_greeting :
    let tokens := (Analyzer.ofLexicon greetings).tokens
    (visible (tokens "nuqneH qoH")).map Token.span =
        (visible (tokens "\n nuqneH\t\tqoH ")).map Token.span ∧
      (∀ c ∈ ['\n', ' '], Text.isBlank c = true) ∧
      .unknownWord "qoH" 7 10 ∈ diagnose {} Rule.builtin (tokens "nuqneH qoH") ∧
      List.Forall₂
        (Diagnostic.SameFinding (visible (tokens "nuqneH qoH"))
          (visible (tokens "\n nuqneH\t\tqoH ")))
        (diagnose {} Rule.builtin (tokens "nuqneH qoH"))
        (diagnose {} Rule.builtin (tokens "\n nuqneH\t\tqoH ")) ∧
      diagnose {} Rule.builtin (tokens (['\n', ' '] ++ "nuqneH qoH".toList)) =
        (diagnose {} Rule.builtin (tokens "nuqneH qoH")).map (Diagnostic.shift 2) := by
  intro tokens
  have hsame : (visible (tokens "nuqneH qoH")).map Token.span =
      (visible (tokens "\n nuqneH\t\tqoH ")).map Token.span := by
    decide +kernel
  have hblank : ∀ c ∈ ['\n', ' '], Text.isBlank c = true := List.all_eq_true.mp rfl
  have hfault : .unknownWord "qoH" 7 10 ∈ wordFaults {} (tokens "nuqneH qoH") := by
    decide +kernel
  obtain ⟨hspans, hshift⟩ := diagnose_blanks greetings {} Rule.builtin
  exact ⟨hsame, hblank, List.mem_append_left _ hfault, hspans _ _ hsame, hshift _ _ hblank⟩

end Klingon
