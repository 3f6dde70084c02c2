import Klingon.Proofs.Proofreading.Spans
import Klingon.Proofs.Tool.Surroundings
import Klingon.Session
import Klingon.Tool.Report

/-!
# Faults under their sentences

A text is cut into sentences at its breaks. A report shows the sentence that a fault starts in, and a
caret under the first character of the fault. There is such a sentence because no fault starts at a
blank: the space of a break is in neither of the sentences beside it.
-/

namespace Klingon

variable {analyzer : Analyzer} {session : Session} {text : Text} {token : Token} {d : Diagnostic}

/-! ## Where faults start -/

/-- A token that rules see starts with a character that is not blank. -/
theorem Analyzer.exists_char_of_mem_visible (h : token ∈ visible (analyzer.tokens text)) :
    ∃ c, text[token.offset]? = some c ∧ Text.isBlank c = false := by
  obtain ⟨htoken, hvisible⟩ := List.mem_filter.mp h
  have hkind : token.kind ≠ .space := by simpa [Token.isSpace] using hvisible
  cases htext : token.text with
  | nil =>
    have hnonempty := (within_of_mem_tokens htoken).1
    rw [Token.stop, htext, List.length_nil] at hnonempty
    exact absurd hnonempty (Nat.lt_irrefl _)
  | cons c more =>
    obtain ⟨rest, hrest⟩ := text_of_mem_tokens htoken
    have hc : TokenKind.ofChar c = token.kind :=
      ofChar_of_mem_tokens htoken c (htext ▸ List.mem_cons_self)
    refine ⟨c, ?_, ?_⟩
    · rw [← Nat.add_zero token.offset, ← List.getElem?_drop, ← hrest, htext]
      rfl
    · rw [← Bool.not_eq_true]
      exact fun hblank => hkind (hc ▸ TokenKind.ofChar_of_isBlank hblank)

/-- No fault starts at a blank. -/
theorem Session.exists_char_of_mem_check (h : d ∈ session.check text) :
    ∃ c, text[d.start]? = some c ∧ Text.isBlank c = false := by
  obtain ⟨token, htoken, hstart⟩ := exists_visible_of_mem_diagnose h
  rw [hstart]
  exact Analyzer.exists_char_of_mem_visible htoken

/-! ## The sentences of a text -/

namespace Report

/-- A sentence ends after the character at `i`: it is a stop, and a space follows. -/
def BreaksAt (text : Text) (i : Nat) : Prop :=
  ∃ c, text[i]? = some c ∧ isStop c = true ∧ text[i + 1]? = some ' '

/-- A sentence starts with the text or right after the space of a break. -/
def BeginsAt (text : Text) (start : Nat) : Prop :=
  start = 0 ∨ ∃ i, BreaksAt text i ∧ start = i + 2

/-- From where a sentence begins to the next break, with its stop, or to the end of the text. -/
structure IsSentence (text : Text) (start : Nat) (sentence : Text) : Prop where
  begins : BeginsAt text start
  stands : sentence <+: text.drop start
  unbroken : ∀ i, start ≤ i → BreaksAt text i → start + sentence.length ≤ i + 1
  ends : start + sentence.length = text.length ∨
    ∃ i, start ≤ i ∧ BreaksAt text i ∧ start + sentence.length = i + 1

variable {sentence : Text} {c : Char} {start offset i : Nat}

theorem breaksAt_drop : BreaksAt (text.drop start) i ↔ BreaksAt text (start + i) := by
  simp only [BreaksAt, List.getElem?_drop, Nat.add_assoc]

theorem BeginsAt.le_length (h : BeginsAt text start) : start ≤ text.length := by
  rcases h with rfl | ⟨i, ⟨_, _, _, hspace⟩, rfl⟩
  · exact Nat.zero_le _
  · obtain ⟨hlt, _⟩ := List.getElem?_eq_some_iff.mp hspace
    exact hlt

/-! ### The first sentence -/

theorem sentenceLength_le (text : Text) : sentenceLength text ≤ text.length := by
  fun_induction sentenceLength text with
  | case1 => exact Nat.le_refl 0
  | case2 => exact Nat.le_refl 1
  | case3 c d rest => simp
  | case4 c d rest _ ih =>
    rw [List.length_cons]
    omega

/-- The first sentence does not go on behind a break. -/
theorem sentenceLength_le_of_breaksAt (h : BreaksAt text i) : sentenceLength text ≤ i + 1 := by
  obtain ⟨stop, hstop, hisStop, hspace⟩ := h
  fun_induction sentenceLength text generalizing i with
  | case1 => cases hstop
  | case2 => exact Nat.le_add_left 1 i
  | case3 c d rest => exact Nat.le_add_left 1 i
  | case4 c d rest hno ih =>
    cases i with
    | zero =>
      cases hstop
      cases hspace
      exact absurd (by simp [hisStop]) hno
    | succ i =>
      have := ih hstop hspace
      omega

/-- The first sentence ends at a break unless it is the whole text. -/
theorem breaksAt_of_sentenceLength_lt (h : sentenceLength text < text.length) :
    ∃ i, BreaksAt text i ∧ sentenceLength text = i + 1 := by
  fun_induction sentenceLength text with
  | case1 => cases h
  | case2 => exact absurd h (Nat.lt_irrefl 1)
  | case3 c d rest hbreak =>
    obtain ⟨hstop, hspace⟩ := (Bool.and_eq_true _ _).mp hbreak
    exact ⟨0, ⟨c, rfl, hstop, congrArg some (of_decide_eq_true hspace)⟩, rfl⟩
  | case4 c d rest _ ih =>
    rw [List.length_cons] at h
    obtain ⟨i, hbreak, hlength⟩ := ih (by omega)
    exact ⟨i + 1, hbreak, by omega⟩

theorem isSentence_first (text : Text) : IsSentence text 0 (text.take (sentenceLength text)) := by
  have hlength : (text.take (sentenceLength text)).length = sentenceLength text :=
    List.length_take_of_le (sentenceLength_le text)
  refine ⟨.inl rfl, List.take_prefix _ _, fun i _ hbreak => ?_, ?_⟩
  · rw [hlength, Nat.zero_add]
    exact sentenceLength_le_of_breaksAt hbreak
  · rw [hlength, Nat.zero_add]
    rcases Nat.lt_or_eq_of_le (sentenceLength_le text) with hlt | hwhole
    · obtain ⟨i, hbreak, hi⟩ := breaksAt_of_sentenceLength_lt hlt
      exact .inr ⟨i, Nat.zero_le i, hbreak, hi⟩
    · exact .inl hwhole

/-! ### Any sentence -/

/-- The first sentence of the rest of a text is a sentence of the text if one begins there. -/
theorem IsSentence.of_drop (h : IsSentence (text.drop start) 0 sentence)
    (hbegins : BeginsAt text start) : IsSentence text start sentence := by
  have hstart := hbegins.le_length
  refine ⟨hbegins, h.stands, fun i hi hbreak => ?_, ?_⟩
  · obtain ⟨k, rfl⟩ := Nat.exists_eq_add_of_le hi
    have := h.unbroken k (Nat.zero_le k) (breaksAt_drop.mpr hbreak)
    omega
  · rcases h.ends with hend | ⟨i, _, hbreak, hend⟩
    · rw [List.length_drop] at hend
      exact .inl (by omega)
    · exact .inr ⟨start + i, Nat.le_add_right start i, breaksAt_drop.mp hbreak, by omega⟩

/-- What is left behind the first sentence of the rest of a text is behind a break. -/
theorem exists_breaksAt_of_drop_eq {space : Char} {more : Text}
    (h : (text.drop start).drop (sentenceLength (text.drop start)) = space :: more) :
    ∃ i, BreaksAt text i ∧ start + sentenceLength (text.drop start) = i + 1 := by
  have hlt : sentenceLength (text.drop start) < (text.drop start).length := by
    rw [← Nat.not_le, ← List.drop_eq_nil_iff, h]
    exact List.cons_ne_nil space more
  obtain ⟨i, hbreak, hlength⟩ := breaksAt_of_sentenceLength_lt hlt
  exact ⟨start + i, breaksAt_drop.mp hbreak, congrArg (start + ·) hlength⟩

/-- The sentence that is found goes beyond the offset, if the offset is in the text and not at the
space of a break. -/
theorem sentenceFrom_isSentence {rest : Text} (hrest : rest = text.drop start)
    (hbegins : BeginsAt text start) (hle : start ≤ offset) (hc : text[offset]? = some c)
    (hne : c ≠ ' ') :
    ∃ first sentence, sentenceFrom start rest offset = (first, sentence) ∧
      IsSentence text first sentence ∧ first ≤ offset ∧ offset < first + sentence.length := by
  obtain ⟨hinside, -⟩ := List.getElem?_eq_some_iff.mp hc
  fun_induction sentenceFrom start rest offset with
  | case1 start rest length hend =>
    subst hrest
    have hsentence := (isSentence_first (text.drop start)).of_drop hbegins
    rw [List.take_of_length_le (List.drop_eq_nil_iff.mp hend)] at hsentence
    refine ⟨start, text.drop start, rfl, hsentence, hle, ?_⟩
    rw [List.length_drop]
    omega
  | case2 start rest length space more hmore hnext ih =>
    subst hrest
    obtain ⟨i, hbreak, hlength⟩ := exists_breaksAt_of_drop_eq hmore
    have hbehind : more = text.drop (start + length + 1) := by
      rw [← List.drop_drop, ← List.drop_drop, hmore]
      rfl
    exact ih hbehind (.inr ⟨i, hbreak, congrArg (· + 1) hlength⟩) hnext
  | case3 start rest length space more hmore hnext =>
    subst hrest
    obtain ⟨i, ⟨_, _, _, hspace⟩, hlength⟩ := exists_breaksAt_of_drop_eq hmore
    -- The offset is no later than the space of the break, and the character at it is no space.
    have hother : offset ≠ start + length := by
      rintro rfl
      rw [← hlength, hc] at hspace
      exact hne (Option.some.inj hspace)
    refine ⟨start, _, rfl, (isSentence_first _).of_drop hbegins, hle, ?_⟩
    rw [List.length_take_of_le (sentenceLength_le _)]
    omega

/-- The space of a break is in no sentence. -/
example : enclosingSentence "jIQuj. Qapla'" 6 = (0, "jIQuj.".toList) := by decide +kernel

/-- The characters of a sentence are those of the text from its start on. -/
theorem IsSentence.getElem?_eq (h : IsSentence text start sentence) (hi : i < sentence.length) :
    sentence[i]? = text[start + i]? := by
  obtain ⟨rest, hrest⟩ := h.stands
  rw [← List.getElem?_drop, ← hrest, List.getElem?_append_left hi]

/-! ### Reports -/

/-- What the rows of a report start with. -/
def heading (number : Nat) : Text :=
  "Line ".toList ++ Text.decimal number ++ ": ".toList

theorem exists_fault_eq (h : enclosingSentence text d.start = (start, sentence)) (number : Nat) :
    ∃ more, fault number text d = heading number ++ sentence ++ '\n' ::
      (heading number ++ List.replicate (d.start - start) ' ' ++ '^' ::
        (d.message ++ '\n' :: more)) := by
  have hrows : ∃ rows, fault number text d = endLines ((heading number ++ sentence) ::
      (heading number ++ List.replicate (d.start - start) ' ' ++ ['^'] ++ d.message) :: rows) := by
    rw [fault, h]
    exact ⟨_, rfl⟩
  obtain ⟨rows, hrows⟩ := hrows
  refine ⟨endLines rows, ?_⟩
  rw [hrows, endLines_cons, endLines_cons]
  simp only [List.append_assoc, List.cons_append, List.nil_append]

/-- Every fault of a text is reported under the sentence that it starts in. The sentence reaches from
the start of the text or from a break to the next break or to the end of the text, and the caret is
below the first character of the fault, which is not blank. -/
theorem fault_under_sentence (session : Session) (number : Nat) {text : Text} {d : Diagnostic}
    (h : d ∈ session.check text) :
    ∃ start sentence pad more, enclosingSentence text d.start = (start, sentence) ∧
      IsSentence text start sentence ∧
      (start ≤ d.start ∧ d.start < start + sentence.length) ∧
      fault number text d = heading number ++ sentence ++ '\n' ::
        (heading number ++ pad ++ '^' :: (d.message ++ '\n' :: more)) ∧
      ((∀ c ∈ pad, c = ' ') ∧ start + pad.length = d.start) ∧
      ∃ c, text[d.start]? = some c ∧ Text.isBlank c = false ∧
        (heading number ++ sentence)[(heading number ++ pad).length]? = some c := by
  obtain ⟨c, hc, hblank⟩ := Session.exists_char_of_mem_check h
  have hne : c ≠ ' ' := by
    rintro rfl
    exact absurd hblank (by decide)
  obtain ⟨start, sentence, hfound, hsentence, hle, hlt⟩ :=
    sentenceFrom_isSentence List.drop_zero.symm (.inl rfl) (Nat.zero_le d.start) hc hne
  have hfound : enclosingSentence text d.start = (start, sentence) := hfound
  obtain ⟨more, hfault⟩ := exists_fault_eq hfound number
  have hpad : start + (List.replicate (d.start - start) ' ').length = d.start := by
    rw [List.length_replicate, Nat.add_sub_cancel' hle]
  refine ⟨start, sentence, List.replicate (d.start - start) ' ', more, hfound, hsentence, ⟨hle, hlt⟩,
    hfault, ⟨fun _ hin => List.eq_of_mem_replicate hin, hpad⟩, c, hc, hblank, ?_⟩
  rw [List.length_append, List.getElem?_append_right (Nat.le_add_right _ _), Nat.add_sub_cancel_left,
    hsentence.getElem?_eq (by omega), hpad, hc]

theorem fault_under_second_sentence :
    let session := Session.ofLexicon (.ofEntries [])
    let d := Diagnostic.unknownWord "vIleghpu'" 15 24
    d ∈ session.check "DaH jIQuj. 'e' vIleghpu'! Qapla'" ∧
      ∃ start sentence pad more,
        enclosingSentence "DaH jIQuj. 'e' vIleghpu'! Qapla'" d.start = (start, sentence) ∧
        IsSentence "DaH jIQuj. 'e' vIleghpu'! Qapla'" start sentence ∧
        (start ≤ d.start ∧ d.start < start + sentence.length) ∧
        fault 4 "DaH jIQuj. 'e' vIleghpu'! Qapla'" d = heading 4 ++ sentence ++ '\n' ::
          (heading 4 ++ pad ++ '^' :: (d.message ++ '\n' :: more)) ∧
        ((∀ c ∈ pad, c = ' ') ∧ start + pad.length = d.start) ∧
        ∃ c, ("DaH jIQuj. 'e' vIleghpu'! Qapla'" : Text)[d.start]? = some c ∧
          Text.isBlank c = false ∧ (heading 4 ++ sentence)[(heading 4 ++ pad).length]? = some c := by
  intro session d
  have hfault : d ∈ wordFaults {} (session.analyzer.tokens "DaH jIQuj. 'e' vIleghpu'! Qapla'") := by
    decide +kernel
  have hd : d ∈ session.check "DaH jIQuj. 'e' vIleghpu'! Qapla'" := List.mem_append_left _ hfault
  exact ⟨hd, fault_under_sentence session 4 hd⟩

end Report

end Klingon
