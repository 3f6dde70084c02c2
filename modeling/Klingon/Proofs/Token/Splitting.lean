import Mathlib.Data.List.Chain
import Klingon.Proofs.Token

/-!
# The split of a text

A text can be divided in one way only into runs of word characters, runs of blanks and runs of one
other character such that no two neighbours make up a longer run. The spans of a text are these runs,
and its tokens are the spans at the offsets where they start.
-/

namespace Klingon

namespace Span

/-- A run of the characters that the kind of a span stands for. -/
def IsRun (span : Span) : Prop :=
  match span.kind with
  | .word => ∀ c ∈ span.text, Text.isWordChar c = true
  | .space => ∀ c ∈ span.text, Text.isBlank c = true
  | .punct => ∃ mark, Text.isWordChar mark = false ∧ Text.isBlank mark = false ∧
      ∀ c ∈ span.text, c = mark

/-- Whether a run is continued by the one behind it: both are words, both are blank, or both repeat
one character. -/
def ContinuedBy (span next : Span) : Prop :=
  span.kind = next.kind ∧ (span.kind = .punct → ∃ c ∈ span.text, c ∈ next.text)

/-- A division of a text into runs that are as long as they can be. -/
structure Splits (text : Text) (spans : List Span) : Prop where
  whole : (spans.map (·.text)).flatten = text
  nonempty : ∀ span ∈ spans, span.text ≠ []
  runs : ∀ span ∈ spans, span.IsRun
  longest : spans.IsChain fun span next => ¬ span.ContinuedBy next

variable {kind kind' : TokenKind} {c d e : Char} {run run' text : Text} {spans : List Span}

/-! ## Characters of one run -/

theorem joins_iff : joins c d = true ↔
    TokenKind.ofChar c = TokenKind.ofChar d ∧ (TokenKind.ofChar c = .punct → c = d) := by
  rw [joins, Bool.and_eq_true, Bool.or_eq_true, decide_eq_true_iff, decide_eq_true_iff,
    decide_eq_true_iff, imp_iff_not_or]

theorem joins_self (c : Char) : joins c c = true :=
  joins_iff.mpr ⟨rfl, fun _ => rfl⟩

theorem joins_symm (h : joins c d = true) : joins d c = true := by
  obtain ⟨hkind, hmark⟩ := joins_iff.mp h
  exact joins_iff.mpr ⟨hkind.symm, fun hpunct => (hmark (hkind.trans hpunct)).symm⟩

theorem joins_trans (h : joins c d = true) (h' : joins d e = true) : joins c e = true := by
  obtain ⟨hkind, hmark⟩ := joins_iff.mp h
  obtain ⟨hkind', hmark'⟩ := joins_iff.mp h'
  refine joins_iff.mpr ⟨hkind.trans hkind', fun hpunct => ?_⟩
  exact (hmark hpunct).trans (hmark' (hkind.symm.trans hpunct))

/-- Characters that are joined are joined to the same ones. -/
theorem joins_congr (h : joins c d = true) : joins c e = joins d e :=
  Bool.eq_iff_iff.mpr ⟨joins_trans (joins_symm h), joins_trans h⟩

theorem ofChar_eq_word_iff : TokenKind.ofChar c = .word ↔ Text.isWordChar c = true := by
  rw [TokenKind.ofChar]
  split
  · next hword => simp [hword]
  · next hword => split <;> simp [hword]

theorem ofChar_eq_space_iff : TokenKind.ofChar c = .space ↔ Text.isBlank c = true := by
  constructor
  · intro h
    rw [TokenKind.ofChar] at h
    split at h
    · cases h
    · split at h
      · assumption
      · cases h
  · exact TokenKind.ofChar_of_isBlank

theorem ofChar_eq_punct_iff : TokenKind.ofChar c = .punct ↔
    Text.isWordChar c = false ∧ Text.isBlank c = false := by
  rw [TokenKind.ofChar]
  split
  · next hword => simp [hword]
  · next hword => split <;> simp [*]

/-- A run is made of one character and others that are joined to it. -/
theorem isRun_cons : IsRun ⟨kind, c :: run⟩ ↔
    TokenKind.ofChar c = kind ∧ ∀ d ∈ run, joins c d = true := by
  cases kind with
  | word =>
    show (∀ d ∈ c :: run, Text.isWordChar d = true) ↔ _
    simp only [List.forall_mem_cons, ← ofChar_eq_word_iff, joins_iff]
    refine and_congr_right fun hc => forall₂_congr fun d _ => ?_
    simp [hc, eq_comm]
  | space =>
    show (∀ d ∈ c :: run, Text.isBlank d = true) ↔ _
    simp only [List.forall_mem_cons, ← ofChar_eq_space_iff, joins_iff]
    refine and_congr_right fun hc => forall₂_congr fun d _ => ?_
    simp [hc, eq_comm]
  | punct =>
    show (∃ mark, Text.isWordChar mark = false ∧ Text.isBlank mark = false ∧
      ∀ d ∈ c :: run, d = mark) ↔ _
    constructor
    · rintro ⟨mark, hword, hblank, hall⟩
      obtain ⟨rfl, hrun⟩ := List.forall_mem_cons.mp hall
      refine ⟨ofChar_eq_punct_iff.mpr ⟨hword, hblank⟩, fun d hd => ?_⟩
      rw [hrun d hd]
      exact joins_self c
    · rintro ⟨hpunct, hrun⟩
      obtain ⟨hword, hblank⟩ := ofChar_eq_punct_iff.mp hpunct
      refine ⟨c, hword, hblank, List.forall_mem_cons.mpr ⟨rfl, fun d hd => ?_⟩⟩
      exact ((joins_iff.mp (hrun d hd)).2 hpunct).symm

theorem isRun_singleton : IsRun ⟨kind, [c]⟩ ↔ TokenKind.ofChar c = kind := by
  rw [isRun_cons, and_iff_left (List.forall_mem_nil _)]

theorem isRun_cons_cons :
    IsRun ⟨kind, c :: d :: run⟩ ↔ joins c d = true ∧ IsRun ⟨kind, d :: run⟩ := by
  rw [isRun_cons, isRun_cons, List.forall_mem_cons]
  constructor
  · rintro ⟨hkind, hjoins, hrun⟩
    refine ⟨hjoins, (joins_iff.mp hjoins).1.symm.trans hkind, fun e he => ?_⟩
    rw [← joins_congr hjoins]
    exact hrun e he
  · rintro ⟨hjoins, hkind, hrun⟩
    refine ⟨(joins_iff.mp hjoins).1.trans hkind, hjoins, fun e he => ?_⟩
    rw [joins_congr hjoins]
    exact hrun e he

theorem IsRun.eq_of_mem (h : IsRun ⟨.punct, run⟩) (hc : c ∈ run) (hd : d ∈ run) : c = d := by
  obtain ⟨mark, -, -, hall⟩ := h
  rw [hall c hc, hall d hd]

/-- Whether a run is continued by the next one is seen from their first characters. -/
theorem continuedBy_iff (h : IsRun ⟨kind, c :: run⟩) (h' : IsRun ⟨kind', d :: run'⟩) :
    ContinuedBy ⟨kind, c :: run⟩ ⟨kind', d :: run'⟩ ↔ joins c d = true := by
  obtain ⟨hkind, -⟩ := isRun_cons.mp h
  obtain ⟨hkind', -⟩ := isRun_cons.mp h'
  rw [joins_iff, hkind, hkind']
  refine and_congr_right fun hsame => imp_congr_right fun hpunct => ?_
  change kind = kind' at hsame
  change kind = .punct at hpunct
  subst hsame hpunct
  constructor
  · rintro ⟨e, he, he'⟩
    exact (h.eq_of_mem List.mem_cons_self he).trans (h'.eq_of_mem he' List.mem_cons_self)
  · rintro rfl
    exact ⟨c, List.mem_cons_self, List.mem_cons_self⟩

/-- What continues a run continues it without its first character too. -/
theorem continuedBy_congr {next : Span} (h : IsRun ⟨kind, c :: d :: run⟩) (hne : next.text ≠ [])
    (hnext : next.IsRun) :
    ContinuedBy ⟨kind, c :: d :: run⟩ next ↔ ContinuedBy ⟨kind, d :: run⟩ next := by
  obtain ⟨hjoins, hrest⟩ := isRun_cons_cons.mp h
  obtain ⟨kind', text⟩ := next
  cases text with
  | nil => exact absurd rfl hne
  | cons e text =>
    rw [continuedBy_iff h hnext, continuedBy_iff hrest hnext, joins_congr hjoins]

/-! ## The only split -/

theorem splits_nil_iff : Splits [] spans ↔ spans = [] := by
  constructor
  · intro h
    cases spans with
    | nil => rfl
    | cons span rest =>
      have hempty := (List.append_eq_nil_iff.mp h.whole).1
      exact absurd hempty (h.nonempty span List.mem_cons_self)
  · rintro rfl
    exact ⟨rfl, List.forall_mem_nil _, List.forall_mem_nil _, List.isChain_nil⟩

/-- A split with a run in front of it. -/
theorem splits_cons_iff {span : Span} : Splits text (span :: spans) ↔
    span.text ≠ [] ∧ span.IsRun ∧ (∀ next ∈ spans.head?, ¬ span.ContinuedBy next) ∧
      ∃ rest, text = span.text ++ rest ∧ Splits rest spans := by
  constructor
  · rintro ⟨hwhole, hnonempty, hruns, hlongest⟩
    obtain ⟨hspan, hspans⟩ := List.forall_mem_cons.mp hnonempty
    obtain ⟨hrun, hmore⟩ := List.forall_mem_cons.mp hruns
    obtain ⟨hnext, hchain⟩ := List.isChain_cons.mp hlongest
    exact ⟨hspan, hrun, hnext, _, hwhole.symm, rfl, hspans, hmore, hchain⟩
  · rintro ⟨hspan, hrun, hnext, rest, rfl, hwhole, hspans, hmore, hchain⟩
    refine ⟨?_, List.forall_mem_cons.mpr ⟨hspan, hspans⟩, List.forall_mem_cons.mpr ⟨hrun, hmore⟩,
      List.isChain_cons.mpr ⟨hnext, hchain⟩⟩
    rw [List.map_cons, List.flatten_cons, hwhole]

/-- A split whose first run has more than one character. -/
theorem splits_cons_cons_iff : Splits (c :: text) (⟨kind, c :: d :: run⟩ :: spans) ↔
    joins c d = true ∧ Splits text (⟨kind, d :: run⟩ :: spans) := by
  constructor
  · intro h
    obtain ⟨-, hrun, hnext, rest, htext, hrest⟩ := splits_cons_iff.mp h
    obtain ⟨hjoins, hshorter⟩ := isRun_cons_cons.mp hrun
    obtain ⟨-, rfl⟩ := List.cons.inj htext
    refine ⟨hjoins, splits_cons_iff.mpr
      ⟨List.cons_ne_nil d run, hshorter, fun next hin => ?_, rest, rfl, hrest⟩⟩
    have hmem := List.mem_of_mem_head? hin
    rw [← continuedBy_congr hrun (hrest.nonempty next hmem) (hrest.runs next hmem)]
    exact hnext next hin
  · rintro ⟨hjoins, h⟩
    obtain ⟨-, hshorter, hnext, rest, rfl, hrest⟩ := splits_cons_iff.mp h
    have hrun : IsRun ⟨kind, c :: d :: run⟩ := isRun_cons_cons.mpr ⟨hjoins, hshorter⟩
    refine splits_cons_iff.mpr
      ⟨List.cons_ne_nil c _, hrun, fun next hin => ?_, rest, rfl, hrest⟩
    have hmem := List.mem_of_mem_head? hin
    rw [continuedBy_congr hrun (hrest.nonempty next hmem) (hrest.runs next hmem)]
    exact hnext next hin

/-- A split whose first run is a single character. -/
theorem splits_singleton_iff : Splits (c :: text) (⟨kind, [c]⟩ :: spans) ↔
    TokenKind.ofChar c = kind ∧ Splits text spans ∧
      ∀ next ∈ spans.head?, ¬ next.text.head?.any (joins c) = true := by
  -- The first character of the next run tells whether it continues this one.
  have hparted : ∀ rest, Splits rest spans → TokenKind.ofChar c = kind → ∀ next ∈ spans.head?,
      (ContinuedBy ⟨kind, [c]⟩ next ↔ next.text.head?.any (joins c) = true) := by
    intro rest hrest hkind next hin
    have hmem := List.mem_of_mem_head? hin
    have hrun := hrest.runs next hmem
    have hne := hrest.nonempty next hmem
    obtain ⟨kind', run⟩ := next
    cases run with
    | nil => exact absurd rfl hne
    | cons d run => exact continuedBy_iff (isRun_singleton.mpr hkind) hrun
  constructor
  · intro h
    obtain ⟨-, hrun, hnext, rest, htext, hrest⟩ := splits_cons_iff.mp h
    obtain ⟨-, rfl⟩ := List.cons.inj htext
    have hkind := isRun_singleton.mp hrun
    refine ⟨hkind, hrest, fun next hin => ?_⟩
    rw [← hparted _ hrest hkind next hin]
    exact hnext next hin
  · rintro ⟨hkind, h, hnext⟩
    refine splits_cons_iff.mpr ⟨List.cons_ne_nil c [], isRun_singleton.mpr hkind, fun next hin => ?_,
      text, rfl, h⟩
    rw [hparted text h hkind next hin]
    exact hnext next hin

/-- The spans with a character in front of them split the text with the character in front of it. -/
theorem Splits.push (h : Splits text spans) (c : Char) : Splits (c :: text) (push c spans) := by
  cases spans with
  | nil =>
    have hnone : ∀ next ∈ ([] : List Span).head?, ¬ next.text.head?.any (joins c) = true :=
      fun next hnext => (Option.not_mem_none next hnext).elim
    exact splits_singleton_iff.mpr ⟨rfl, h, hnone⟩
  | cons first rest =>
    rw [Span.push]
    split
    · next hjoins =>
      obtain ⟨kind, run⟩ := first
      cases run with
      | nil => cases hjoins
      | cons d run => exact splits_cons_cons_iff.mpr ⟨hjoins, h⟩
    · next hjoins =>
      refine splits_singleton_iff.mpr ⟨rfl, h, fun next hin => ?_⟩
      cases hin
      exact hjoins

/-- Every split of a text with a first character comes from a split of the rest. -/
theorem Splits.exists_push (h : Splits (c :: text) spans) :
    ∃ rest, Splits text rest ∧ spans = Span.push c rest := by
  cases spans with
  | nil => cases h.whole
  | cons span rest =>
    obtain ⟨kind, run⟩ := span
    cases run with
    | nil => exact absurd rfl (h.nonempty _ List.mem_cons_self)
    | cons first run =>
      obtain ⟨rfl, -⟩ := List.cons.inj h.whole
      cases run with
      | nil =>
        obtain ⟨rfl, hrest, hnext⟩ := splits_singleton_iff.mp h
        refine ⟨rest, hrest, ?_⟩
        cases rest with
        | nil => rfl
        | cons next rest => exact (if_neg (hnext next rfl)).symm
      | cons second run =>
        obtain ⟨hjoins, hrest⟩ := splits_cons_cons_iff.mp h
        exact ⟨⟨kind, second :: run⟩ :: rest, hrest, (if_pos hjoins).symm⟩

theorem splits_iff : Splits text spans ↔ spans = ofText text := by
  induction text generalizing spans with
  | nil => exact splits_nil_iff
  | cons c text ih =>
    constructor
    · intro h
      obtain ⟨rest, hrest, rfl⟩ := h.exists_push
      rw [ih.mp hrest]
      rfl
    · rintro rfl
      exact (ih.mpr rfl).push c

/-! ## Blanks around a text -/

theorem kind_of_mem_push {span : Span} (h : span ∈ push c spans) :
    span.kind = TokenKind.ofChar c ∨ ∃ other ∈ spans, span.kind = other.kind := by
  cases spans with
  | nil =>
    rw [List.mem_singleton.mp h]
    exact .inl rfl
  | cons first rest =>
    rw [push] at h
    split at h
    · rcases List.mem_cons.mp h with rfl | h
      · exact .inr ⟨first, List.mem_cons_self, rfl⟩
      · exact .inr ⟨span, List.mem_cons_of_mem _ h, rfl⟩
    · rcases List.mem_cons.mp h with rfl | h
      · exact .inl rfl
      · exact .inr ⟨span, h, rfl⟩

/-- A character stays apart from a span of another kind. -/
theorem push_of_kind_ne {span : Span} (hkind : TokenKind.ofChar c ≠ span.kind)
    (hspan : ∀ d ∈ span.text, TokenKind.ofChar d = span.kind) :
    push c (span :: spans) = ⟨TokenKind.ofChar c, [c]⟩ :: span :: spans := by
  rw [push, if_neg]
  intro hjoins
  obtain ⟨d, hd, hsame⟩ := exists_of_joins hjoins
  exact hkind (hsame.trans (hspan d hd))

/-- A blank in front of a text is not seen. -/
theorem filter_push_blank (hblank : Text.isBlank c = true) (text : Text) :
    ((push c (ofText text)).filter fun span => span.kind ≠ .space) =
      (ofText text).filter fun span => span.kind ≠ .space := by
  have hspace := TokenKind.ofChar_of_isBlank hblank
  cases hspans : ofText text with
  | nil => simp [push, hspace]
  | cons first rest =>
    have hfirst : first ∈ ofText text := hspans ▸ List.mem_cons_self
    by_cases hkind : first.kind = .space
    · rw [push]
      split <;> simp [hspace, hkind]
    · rw [push_of_kind_ne (hspace.trans_ne (Ne.symm hkind)) (ofChar_of_mem hfirst)]
      simp [hspace]

/-- A blank before blanks makes no other kind of span. -/
theorem space_of_mem_push (hc : TokenKind.ofChar c = .space)
    (h : ∀ span ∈ spans, span.kind = .space) : ∀ span ∈ push c spans, span.kind = .space := by
  intro span hspan
  rcases kind_of_mem_push hspan with hkind | ⟨other, hother, hkind⟩
  · rw [hkind, hc]
  · rw [hkind, h other hother]

/-- A character that is not blank stays apart from the blanks behind it. -/
theorem push_ofText_of_spaces (hc : TokenKind.ofChar c ≠ .space)
    (h : ∀ span ∈ ofText text, span.kind = .space) :
    push c (ofText text) = ⟨TokenKind.ofChar c, [c]⟩ :: ofText text := by
  cases hspans : ofText text with
  | nil => rfl
  | cons span rest =>
    have hspan : span ∈ ofText text := hspans ▸ List.mem_cons_self
    refine push_of_kind_ne ?_ (ofChar_of_mem hspan)
    rw [h span hspan]
    exact hc

/-- The spans of blanks are blank. -/
theorem space_of_mem_ofText (h : ∀ c ∈ text, Text.isBlank c = true) :
    ∀ span ∈ ofText text, span.kind = .space := by
  induction text with
  | nil => exact List.forall_mem_nil _
  | cons c text ih =>
    obtain ⟨hc, htext⟩ := List.forall_mem_cons.mp h
    exact space_of_mem_push (TokenKind.ofChar_of_isBlank hc) (ih htext)

/-- Blanks behind a text change nothing but the blank spans at its end. -/
theorem ofText_append_blanks {blanks : Text} (hblanks : ∀ c ∈ blanks, Text.isBlank c = true)
    (text : Text) : ∃ front back back', ofText text = front ++ back ∧
      ofText (text ++ blanks) = front ++ back' ∧ (∀ span ∈ back, span.kind = .space) ∧
      ∀ span ∈ back', span.kind = .space := by
  induction text with
  | nil => exact ⟨[], [], ofText blanks, rfl, rfl, List.forall_mem_nil _, space_of_mem_ofText hblanks⟩
  | cons c text ih =>
    obtain ⟨front, back, back', htext, hlonger, hback, hback'⟩ := ih
    show ∃ front back back', push c (ofText text) = front ++ back ∧
      push c (ofText (text ++ blanks)) = front ++ back' ∧ _
    cases front with
    | cons first front =>
      rw [htext, hlonger, List.cons_append, List.cons_append, push, push]
      split
      · exact ⟨_ :: front, back, back', rfl, rfl, hback, hback'⟩
      · exact ⟨_ :: first :: front, back, back', rfl, rfl, hback, hback'⟩
    | nil =>
      -- Everything behind the character is blank.
      rw [List.nil_append] at htext hlonger
      rw [← htext] at hback
      rw [← hlonger] at hback'
      by_cases hspace : TokenKind.ofChar c = .space
      · exact ⟨[], _, _, rfl, rfl, space_of_mem_push hspace hback, space_of_mem_push hspace hback'⟩
      · exact ⟨[_], _, _, push_ofText_of_spaces hspace hback, push_ofText_of_spaces hspace hback',
          hback, hback'⟩

end Span

namespace Token

variable {offset : Nat} {spans : List Span} {front back : List Token} {token : Token}

theorem map_span_ofSpans (offset : Nat) (spans : List Span) :
    (ofSpans offset spans).map span = spans := by
  induction spans generalizing offset with
  | nil => rfl
  | cons span rest ih => rw [ofSpans, List.map_cons, ih]; rfl

/-- A token starts behind the characters of the tokens before it. -/
theorem offset_of_ofSpans (h : ofSpans offset spans = front ++ token :: back) :
    token.offset = offset + (front.map (·.text)).flatten.length := by
  induction front generalizing offset spans with
  | nil =>
    cases spans with
    | nil => cases h
    | cons span rest =>
      obtain ⟨rfl, -⟩ := List.cons.inj h
      rfl
  | cons first front ih =>
    cases spans with
    | nil => cases h
    | cons span rest =>
      obtain ⟨rfl, hrest⟩ := List.cons.inj h
      rw [ih hrest, List.map_cons, List.flatten_cons, List.length_append, Nat.add_assoc]

/-- The spans of a text are its only split into longest runs. Its tokens are these spans; each starts
behind the characters of the tokens before it and stops where the next one starts, the last one at
the end of the text. -/
theorem ofText_splits_once (text : Text) :
    (∀ spans, Span.Splits text spans ↔ spans = Span.ofText text) ∧
      (ofText text).map span = Span.ofText text ∧
      ∀ front token back, ofText text = front ++ token :: back →
        token.offset = (front.map (·.text)).flatten.length ∧
          token.stop = (back.head?.map (·.offset)).getD text.length := by
  refine ⟨fun spans => Span.splits_iff, map_span_ofSpans 0 _, fun front token back h => ?_⟩
  have hoffset : token.offset = (front.map (·.text)).flatten.length := by
    rw [offset_of_ofSpans h, Nat.zero_add]
  refine ⟨hoffset, ?_⟩
  cases back with
  | nil =>
    have hwhole : ((ofText text).map (·.text)).flatten = text := by
      have hspans := congrArg (List.map (·.text)) (map_span_ofSpans 0 (Span.ofText text))
      rw [List.map_map] at hspans
      exact (congrArg List.flatten hspans).trans (Span.flatten_ofText text)
    show token.offset + token.text.length = text.length
    rw [← hwhole, h, hoffset]
    simp
  | cons next back =>
    have hnext : ofText text = (front ++ [token]) ++ next :: back := by
      rw [h, List.append_assoc]
      rfl
    show token.offset + token.text.length = next.offset
    rw [offset_of_ofSpans hnext, hoffset]
    simp

/-- Marks of one kind are apart if they differ, and blanks of any kind are one run. -/
example : (ofText "...?\t 'e'").map (fun token => (token.offset, token.text)) =
    [(0, "...".toList), (3, "?"), (4, "\t "), (6, "'e'")] := by decide

end Token

end Klingon
