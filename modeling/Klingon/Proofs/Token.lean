import Klingon.Token

/-!
# The tokens of a text

The spans of a text are not empty and make up the text, each of characters of its kind. Each token
therefore starts where the token before it stops, and none goes beyond the end of the text.
-/

namespace Klingon

/-- The kind and the text of a token, without its place. -/
def Token.span (token : Token) : Span :=
  ⟨token.kind, token.text⟩

/-- No blank is a word character. -/
theorem Text.not_isWordChar_of_isBlank {c : Char} (h : isBlank c = true) : isWordChar c = false := by
  simp only [isBlank, inRanges, blankRanges, List.any_cons, List.any_nil, Bool.or_false,
    Bool.or_eq_true, Bool.and_eq_true, decide_eq_true_eq] at h
  have hne : c ≠ '\'' := by
    rintro rfl
    exact absurd h (by decide)
  have hbounds : 'A'.val.toNat = 65 ∧ 'Z'.val.toNat = 90 ∧ 'a'.val.toNat = 97 ∧
      'z'.val.toNat = 122 ∧ '0'.val.toNat = 48 ∧ '9'.val.toNat = 57 := by decide
  have hnat : c.toNat = c.val.toNat := rfl
  have hranges : c.isAlphanum =
      ((decide ('A'.val ≤ c.val ∧ c.val ≤ 'Z'.val) ||
        decide ('a'.val ≤ c.val) && decide (c.val ≤ 'z'.val)) ||
          decide ('0'.val ≤ c.val) && decide (c.val ≤ '9'.val)) := rfl
  rw [isWordChar, decide_eq_false hne, Bool.or_false, hranges]
  simp only [Bool.or_eq_false_iff, Bool.and_eq_false_iff, decide_eq_false_iff_not,
    UInt32.le_iff_toNat_le]
  omega

theorem TokenKind.ofChar_of_isBlank {c : Char} (h : Text.isBlank c = true) : ofChar c = space := by
  rw [ofChar, Text.not_isWordChar_of_isBlank h, if_neg Bool.false_ne_true, if_pos h]

namespace Span

variable {span : Span} {text : Text}

theorem flatten_push (c : Char) (spans : List Span) :
    ((push c spans).map (·.text)).flatten = c :: (spans.map (·.text)).flatten := by
  cases spans with
  | nil => rfl
  | cons first rest =>
    rw [push]
    split <;> rfl

/-- The spans of a text make up the text. -/
theorem flatten_ofText (text : Text) : ((ofText text).map (·.text)).flatten = text := by
  induction text with
  | nil => rfl
  | cons c rest ih =>
    show ((push c (ofText rest)).map (·.text)).flatten = c :: rest
    rw [flatten_push, ih]

theorem ne_nil_of_mem_push {c : Char} {spans : List Span} (h : ∀ span ∈ spans, span.text ≠ []) :
    ∀ span ∈ push c spans, span.text ≠ [] := by
  cases spans with
  | nil =>
    intro span hspan
    rw [List.mem_singleton.mp hspan]
    exact List.cons_ne_nil _ _
  | cons first rest =>
    intro span hspan
    rw [push] at hspan
    split at hspan
    · rcases List.mem_cons.mp hspan with rfl | hspan
      · exact List.cons_ne_nil _ _
      · exact h span (List.mem_cons_of_mem _ hspan)
    · rcases List.mem_cons.mp hspan with rfl | hspan
      · exact List.cons_ne_nil _ _
      · exact h span hspan

theorem ne_nil_of_mem (h : span ∈ ofText text) : span.text ≠ [] := by
  have hall : ∀ text : Text, ∀ span ∈ ofText text, span.text ≠ [] := by
    intro text
    induction text with
    | nil => exact fun span hspan => absurd hspan List.not_mem_nil
    | cons c rest ih => exact ne_nil_of_mem_push ih
  exact hall text span h

/-- A character that joins a span is of the kind of one of its characters. -/
theorem exists_of_joins {c : Char} (h : span.text.head?.any (joins c) = true) :
    ∃ d ∈ span.text, TokenKind.ofChar c = TokenKind.ofChar d := by
  obtain ⟨d, hd, hjoin⟩ := (Option.any_eq_true _ _).mp h
  exact ⟨d, List.mem_of_head? hd, of_decide_eq_true ((Bool.and_eq_true _ _).mp hjoin).1⟩

theorem ofChar_of_mem_push {c : Char} {spans : List Span}
    (h : ∀ span ∈ spans, ∀ d ∈ span.text, TokenKind.ofChar d = span.kind) :
    ∀ span ∈ push c spans, ∀ d ∈ span.text, TokenKind.ofChar d = span.kind := by
  have hsingle : ∀ d ∈ [c], TokenKind.ofChar d = TokenKind.ofChar c := by
    intro d hd
    rw [List.mem_singleton.mp hd]
  cases spans with
  | nil =>
    intro span hspan
    rw [List.mem_singleton.mp hspan]
    exact hsingle
  | cons first rest =>
    intro span hspan
    rw [push] at hspan
    split at hspan
    · next hjoins =>
      rcases List.mem_cons.mp hspan with rfl | hspan
      · intro d hd
        rcases List.mem_cons.mp hd with rfl | hd
        · obtain ⟨e, he, hsame⟩ := exists_of_joins hjoins
          rw [hsame]
          exact h first List.mem_cons_self e he
        · exact h first List.mem_cons_self d hd
      · exact h span (List.mem_cons_of_mem _ hspan)
    · rcases List.mem_cons.mp hspan with rfl | hspan
      · exact hsingle
      · exact h span hspan

/-- The characters of a span are of its kind. -/
theorem ofChar_of_mem (h : span ∈ ofText text) : ∀ c ∈ span.text, TokenKind.ofChar c = span.kind := by
  have hall : ∀ text : Text, ∀ span ∈ ofText text, ∀ c ∈ span.text,
      TokenKind.ofChar c = span.kind := by
    intro text
    induction text with
    | nil => exact fun span hspan => absurd hspan List.not_mem_nil
    | cons c rest ih => exact ofChar_of_mem_push ih
  exact hall text span h

end Span

namespace Token

variable {token : Token} {text : Text} {offset : Nat} {spans : List Span}

/-- The tokens of some spans lie between their start and their end. -/
theorem within_of_mem_ofSpans (h : token ∈ ofSpans offset spans) :
    offset ≤ token.offset ∧ token.stop ≤ offset + ((spans.map (·.text)).flatten).length := by
  induction spans generalizing offset with
  | nil => exact absurd h List.not_mem_nil
  | cons span rest ih =>
    rw [List.map_cons, List.flatten_cons, List.length_append]
    rcases List.mem_cons.mp h with rfl | h
    · refine ⟨Nat.le_refl _, ?_⟩
      show offset + span.text.length ≤ _
      omega
    · have := ih h
      omega

/-- The text of a token stands as far into the spans as its offset says. -/
theorem exists_front_of_mem_ofSpans (h : token ∈ ofSpans offset spans) :
    ∃ front, token.offset = offset + front.length ∧
      front ++ token.text <+: (spans.map (·.text)).flatten := by
  induction spans generalizing offset with
  | nil => exact absurd h List.not_mem_nil
  | cons span rest ih =>
    rw [List.map_cons, List.flatten_cons]
    rcases List.mem_cons.mp h with rfl | h
    · exact ⟨[], rfl, List.prefix_append _ _⟩
    · obtain ⟨front, hoffset, hfront⟩ := ih h
      refine ⟨span.text ++ front, ?_, ?_⟩
      · rw [hoffset, List.length_append, Nat.add_assoc]
      · rw [List.append_assoc]
        exact (List.prefix_append_right_inj _).mpr hfront

/-- Tokens start behind the tokens before them. -/
theorem pairwise_ofSpans (offset : Nat) (spans : List Span) :
    (ofSpans offset spans).Pairwise fun a b => a.stop ≤ b.offset := by
  induction spans generalizing offset with
  | nil => exact List.Pairwise.nil
  | cons span rest ih =>
    refine List.pairwise_cons.mpr ⟨fun token htoken => ?_, ih _⟩
    exact (within_of_mem_ofSpans htoken).1

theorem exists_span_of_mem (h : token ∈ ofSpans offset spans) :
    ∃ span ∈ spans, token.kind = span.kind ∧ token.text = span.text := by
  induction spans generalizing offset with
  | nil => exact absurd h List.not_mem_nil
  | cons span rest ih =>
    rcases List.mem_cons.mp h with rfl | h
    · exact ⟨span, List.mem_cons_self, rfl, rfl⟩
    · obtain ⟨span', hspan, hsame⟩ := ih h
      exact ⟨span', List.mem_cons_of_mem _ hspan, hsame⟩

@[simp]
theorem offset_analyzed (analyzer : Analyzer) (token : Token) :
    (token.analyzed analyzer).offset = token.offset := by
  rw [analyzed]
  split <;> rfl

@[simp]
theorem kind_analyzed (analyzer : Analyzer) (token : Token) :
    (token.analyzed analyzer).kind = token.kind := by
  rw [analyzed]
  split <;> rfl

@[simp]
theorem text_analyzed (analyzer : Analyzer) (token : Token) :
    (token.analyzed analyzer).text = token.text := by
  rw [analyzed]
  split <;> rfl

@[simp]
theorem stop_analyzed (analyzer : Analyzer) (token : Token) :
    (token.analyzed analyzer).stop = token.stop := by
  rw [stop, offset_analyzed, text_analyzed, stop]

end Token

namespace Analyzer

variable {analyzer : Analyzer} {text : Text} {token : Token}

/-- The tokens of a text start behind the tokens before them. -/
theorem pairwise_tokens (analyzer : Analyzer) (text : Text) :
    (analyzer.tokens text).Pairwise fun a b => a.stop ≤ b.offset := by
  rw [tokens, List.pairwise_map]
  simp only [Token.stop_analyzed, Token.offset_analyzed]
  exact Token.pairwise_ofSpans 0 _

/-- A token of a text is not empty and lies in the text. -/
theorem within_of_mem_tokens (h : token ∈ analyzer.tokens text) :
    token.offset < token.stop ∧ token.stop ≤ text.length := by
  obtain ⟨plain, hplain, rfl⟩ := List.mem_map.mp h
  rw [Token.offset_analyzed, Token.stop_analyzed]
  constructor
  · obtain ⟨span, hspan, -, htext⟩ := Token.exists_span_of_mem hplain
    rw [Token.stop, htext]
    exact Nat.lt_add_of_pos_right (List.length_pos_iff.mpr (Span.ne_nil_of_mem hspan))
  · have hle := (Token.within_of_mem_ofSpans hplain).2
    rwa [Span.flatten_ofText, Nat.zero_add] at hle

/-- The text of a token stands at its offset. -/
theorem text_of_mem_tokens (h : token ∈ analyzer.tokens text) :
    token.text <+: text.drop token.offset := by
  obtain ⟨plain, hplain, rfl⟩ := List.mem_map.mp h
  obtain ⟨front, hoffset, back, hback⟩ := Token.exists_front_of_mem_ofSpans hplain
  rw [Span.flatten_ofText, List.append_assoc] at hback
  rw [Token.text_analyzed, Token.offset_analyzed, hoffset, Nat.zero_add, ← hback, List.drop_left]
  exact List.prefix_append _ _

/-- The characters of a token are of its kind. -/
theorem ofChar_of_mem_tokens (h : token ∈ analyzer.tokens text) :
    ∀ c ∈ token.text, TokenKind.ofChar c = token.kind := by
  obtain ⟨plain, hplain, rfl⟩ := List.mem_map.mp h
  obtain ⟨span, hspan, hkind, htext⟩ := Token.exists_span_of_mem hplain
  rw [Token.kind_analyzed, Token.text_analyzed, hkind, htext]
  exact Span.ofChar_of_mem hspan

end Analyzer

end Klingon
