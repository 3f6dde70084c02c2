import Mathlib.Data.List.Forall2
import Klingon.Proofreading
import Klingon.Proofs.Rule
import Klingon.Proofs.Token

/-!
# Where diagnostics stand

Every diagnostic of a text stands in the text, from the start of a token to the end of the same or a
later token, blanks apart. The faults of single words come first and in order, each on its word; then
comes at most one fault for each rule, in the order of the rules.
-/

namespace Klingon

/-- The tokens that rules see. -/
def visible (tokens : List Token) : List Token :=
  tokens.filter fun token => !token.isSpace

variable {tokens : List Token} {token : Token} {d : Diagnostic} {rule : Rule}

theorem Rule.check_eq (rule : Rule) (tokens : List Token) : rule.check tokens =
    (rule.pattern.find? (encode rule.pattern.vocabulary (visible tokens))).bind
      (rule.report (visible tokens)) := rfl

/-! ## Tokens that agree -/

/-- Rules read a token through its marks only. -/
theorem Token.block_congr {token' : Token} (h : token.mark = token'.mark) (vocabulary : List Text)
    (index : Nat) : token.block vocabulary index = token'.block vocabulary index := by
  rw [block, marks, h, block, marks]

theorem encode_congr {tokens' : List Token} (vocabulary : List Text)
    (h : List.Forall₂ (fun token token' => token.mark = token'.mark) tokens tokens') :
    encode vocabulary tokens = encode vocabulary tokens' := by
  have hfrom : ∀ index,
      encodeFrom vocabulary index tokens = encodeFrom vocabulary index tokens' := by
    induction h with
    | nil => exact fun _ => rfl
    | cons htoken _ ih =>
      intro index
      rw [encodeFrom, Token.block_congr htoken, ih, encodeFrom]
  exact hfrom 0

theorem rel_bind {α β γ δ : Type} {R : α → β → Prop} {S : γ → δ → Prop} {o : Option α}
    {o' : Option β} {f : α → Option γ} {f' : β → Option δ} (h : Option.Rel R o o')
    (hf : ∀ a b, R a b → Option.Rel S (f a) (f' b)) : Option.Rel S (o.bind f) (o'.bind f') := by
  cases h with
  | some hab => exact hf _ _ hab
  | none => exact .none

theorem rel_refl {α : Type} (o : Option α) : Option.Rel (fun a b => a = b) o o := by
  cases o with
  | none => exact .none
  | some a => exact .some rfl

theorem rel_getElem? {α β : Type} {R : α → β → Prop} {l : List α} {l' : List β}
    (h : List.Forall₂ R l l') (i : Nat) : Option.Rel R l[i]? l'[i]? := by
  induction h generalizing i with
  | nil => exact .none
  | cons hab _ ih =>
    cases i with
    | zero => exact .some hab
    | succ i => exact ih i

/-- From the start of one token to the end of the same or a later one. -/
structure Diagnostic.Spans (tokens : List Token) (d : Diagnostic) (i j : Nat) : Prop where
  order : i ≤ j
  start : ∃ first, tokens[i]? = some first ∧ d.start = first.offset
  stop : ∃ last, tokens[j]? = some last ∧ d.stop = last.stop

/-- What stands on tokens of a text stands in the text. -/
theorem Diagnostic.Spans.within {i j : Nat} {text : Text} (h : d.Spans tokens i j)
    (hpairwise : tokens.Pairwise fun a b => a.stop ≤ b.offset)
    (hwithin : ∀ token ∈ tokens, token.offset < token.stop ∧ token.stop ≤ text.length) :
    d.start < d.stop ∧ d.stop ≤ text.length := by
  obtain ⟨hij, ⟨first, hi, hstart⟩, ⟨last, hj, hstop⟩⟩ := h
  obtain ⟨hfirst, _⟩ := hwithin first (List.mem_of_getElem? hi)
  obtain ⟨hlast, hlength⟩ := hwithin last (List.mem_of_getElem? hj)
  rw [hstart, hstop]
  refine ⟨?_, hlength⟩
  rcases Nat.lt_or_eq_of_le hij with hlt | rfl
  · obtain ⟨hi', heq⟩ := List.getElem?_eq_some_iff.mp hi
    obtain ⟨hj', heq'⟩ := List.getElem?_eq_some_iff.mp hj
    have hbefore := List.pairwise_iff_getElem.mp hpairwise i j hi' hj' hlt
    rw [heq, heq'] at hbefore
    omega
  · rw [hi] at hj
    cases hj
    exact hfirst

/-! ## Faults of words -/

/-- The fault of a word stands on the word. -/
theorem Token.fault?_eq_some {options : ProofreadingOptions} (h : token.fault? options = some d) :
    token.isWord = true ∧ d.kind ≠ .ruleViolation ∧ d.start = token.offset ∧
      d.stop = token.stop := by
  unfold fault? at h
  split at h
  · cases h
  · next hword =>
    have hword : token.isWord = true := by simpa using hword
    split at h <;> split at h <;> cases h
    · exact ⟨hword, (by decide : DiagnosticKind.unknownWord ≠ .ruleViolation), rfl, rfl⟩
    · exact ⟨hword, (by decide : DiagnosticKind.ungrammaticalWord ≠ .ruleViolation), rfl, rfl⟩

theorem exists_token_of_mem_wordFaults {options : ProofreadingOptions}
    (hd : d ∈ wordFaults options tokens) : d.kind ≠ .ruleViolation ∧
      ∃ token ∈ tokens, token.isWord = true ∧ d.start = token.offset ∧ d.stop = token.stop := by
  obtain ⟨token, htoken, hfault⟩ := List.mem_filterMap.mp hd
  obtain ⟨hword, hkind, hstart, hstop⟩ := Token.fault?_eq_some hfault
  exact ⟨hkind, token, htoken, hword, hstart, hstop⟩

/-- What stands on a word stands on one of the tokens that rules see. -/
theorem Diagnostic.exists_spans_of_word (htoken : token ∈ tokens) (hword : token.isWord = true)
    (hstart : d.start = token.offset) (hstop : d.stop = token.stop) :
    ∃ i, d.Spans (visible tokens) i i := by
  have hvisible : token ∈ visible tokens := by
    refine List.mem_filter.mpr ⟨htoken, ?_⟩
    simp [Token.isSpace, of_decide_eq_true hword]
  obtain ⟨i, hi⟩ := List.mem_iff_getElem?.mp hvisible
  exact ⟨i, Nat.le_refl i, ⟨token, hi, hstart⟩, token, hi, hstop⟩

theorem pairwise_wordFaults (options : ProofreadingOptions)
    (hpairwise : tokens.Pairwise fun a b => a.offset < b.offset) :
    (wordFaults options tokens).Pairwise fun d d' => d.start < d'.start := by
  refine List.Pairwise.filterMap (Token.fault? options) (fun a a' hlt d hd d' hd' => ?_) hpairwise
  rw [(Token.fault?_eq_some hd).2.2.1, (Token.fault?_eq_some hd').2.2.1]
  exact hlt

/-! ## Faults that rules find -/

theorem Rule.report_eq_some {found : PatternMatch} (h : rule.report tokens found = some d) :
    d.kind = .ruleViolation ∧ d.rule = rule.name ∧
      ∃ i ∈ (faultTokens found).head?, ∃ j ∈ (faultTokens found).getLast?,
        (∃ first, tokens[i]? = some first ∧ d.start = first.offset) ∧
          ∃ last, tokens[j]? = some last ∧ d.stop = last.stop := by
  obtain ⟨i, hi, h⟩ := Option.bind_eq_some_iff.mp h
  obtain ⟨first, hfirst, h⟩ := Option.bind_eq_some_iff.mp h
  obtain ⟨j, hj, h⟩ := Option.bind_eq_some_iff.mp h
  obtain ⟨last, hlast, h⟩ := Option.bind_eq_some_iff.mp h
  cases h
  exact ⟨rfl, rfl, i, hi, j, hj, ⟨first, hfirst, rfl⟩, last, hlast, rfl⟩

/-- The tokens at fault are numbered in order. -/
theorem Rule.increasing_faultTokens {found : PatternMatch}
    (h : found.tokens.Pairwise (· < ·) ∧ ∀ group ∈ found.groups, group.2.Pairwise (· < ·)) :
    (faultTokens found).Pairwise (· < ·) := by
  unfold faultTokens
  split
  · next hgroup =>
    exact h.2 _ (Pattern.mem_of_lookup hgroup)
  · exact h.1

theorem le_of_mem_head?_of_mem_getLast? {numbers : List Nat} {i j : Nat}
    (h : numbers.Pairwise (· < ·)) (hi : i ∈ numbers.head?) (hj : j ∈ numbers.getLast?) : i ≤ j := by
  cases numbers with
  | nil => cases hi
  | cons first rest =>
    cases hi
    rcases List.mem_cons.mp (List.mem_of_mem_getLast? hj) with rfl | hin
    · exact Nat.le_refl _
    · exact Nat.le_of_lt ((List.pairwise_cons.mp h).1 j hin)

theorem Rule.kind_of_check (h : rule.check tokens = some d) :
    d.kind = .ruleViolation ∧ d.rule = rule.name := by
  rw [check_eq] at h
  obtain ⟨found, _, hreport⟩ := Option.bind_eq_some_iff.mp h
  obtain ⟨hkind, hname, _⟩ := report_eq_some hreport
  exact ⟨hkind, hname⟩

/-- A rule whose pattern was read finds a fault from one token to the same or a later one. -/
theorem Rule.spans_of_check {source : Text} (hpattern : Pattern.ofText source = .ok rule.pattern)
    (h : rule.check tokens = some d) : ∃ i j, d.Spans (visible tokens) i j := by
  rw [check_eq] at h
  obtain ⟨found, hfound, hreport⟩ := Option.bind_eq_some_iff.mp h
  obtain ⟨nodes, e, hcompiles⟩ := Pattern.compiles_of_ofText hpattern
  obtain ⟨_, _, i, hi, j, hj, hstart, hstop⟩ := report_eq_some hreport
  have hincreasing := increasing_faultTokens (hcompiles.increasing_find? hfound)
  exact ⟨i, j, le_of_mem_head?_of_mem_getLast? hincreasing hi hj, hstart, hstop⟩

/-! ## All diagnostics of a text -/

/-- Whatever the rules are, a fault starts with a token that rules see. -/
theorem exists_visible_of_mem_diagnose {options : ProofreadingOptions} {rules : List Rule}
    (h : d ∈ diagnose options rules tokens) : ∃ token ∈ visible tokens, d.start = token.offset := by
  rcases List.mem_append.mp h with hword | hrule
  · obtain ⟨-, token, htoken, hisWord, hstart, hstop⟩ := exists_token_of_mem_wordFaults hword
    obtain ⟨i, hspans⟩ := Diagnostic.exists_spans_of_word htoken hisWord hstart hstop
    obtain ⟨first, hi, hstart⟩ := hspans.start
    exact ⟨first, List.mem_of_getElem? hi, hstart⟩
  · obtain ⟨rule, -, hcheck⟩ := List.mem_filterMap.mp hrule
    rw [Rule.check_eq] at hcheck
    obtain ⟨found, -, hreport⟩ := Option.bind_eq_some_iff.mp hcheck
    obtain ⟨-, -, i, -, -, -, ⟨first, hi, hstart⟩, -⟩ := Rule.report_eq_some hreport
    exact ⟨first, List.mem_of_getElem? hi, hstart⟩

/-- What a list of results comes from, in its order. -/
theorem exists_sublist_filterMap {α β : Type} (f : α → Option β) (items : List α) :
    ∃ kept, kept.Sublist items ∧ List.Forall₂ (fun a b => f a = some b) kept (items.filterMap f) := by
  induction items with
  | nil => exact ⟨[], List.Sublist.refl _, .nil⟩
  | cons a rest ih =>
    obtain ⟨kept, hsub, hkept⟩ := ih
    cases hf : f a with
    | none =>
      rw [List.filterMap_cons_none hf]
      exact ⟨kept, hsub.cons a, hkept⟩
    | some b =>
      rw [List.filterMap_cons_some hf]
      exact ⟨a :: kept, hsub.cons_cons a, .cons hf hkept⟩

/-- The diagnostics of a text stand in it, from the start of a token to the end of the same or a later
one. The faults of words stand on one word each and come first, from left to right. The other
diagnostics are those of some of the rules, in the order of the rules. -/
theorem diagnose_spans (lexicon : Lexicon) (options : ProofreadingOptions)
    (definitions : List RuleDefinition) (text : Text) :
    let tokens := (Analyzer.ofLexicon lexicon).tokens text
    let rules := Rule.ofDefinitions definitions
    (∀ d ∈ diagnose options rules tokens,
      d.start < d.stop ∧ d.stop ≤ text.length ∧ (∃ i j, d.Spans (visible tokens) i j) ∧
        (d.kind ≠ .ruleViolation →
          ∃ token ∈ tokens, token.isWord = true ∧ d.start = token.offset ∧ d.stop = token.stop)) ∧
      ∃ faults violations, diagnose options rules tokens = faults ++ violations ∧
        (∀ d ∈ faults, d.kind ≠ .ruleViolation) ∧
        faults.Pairwise (fun d d' => d.start < d'.start) ∧
        ∃ fired, fired.Sublist rules ∧
          List.Forall₂ (fun rule d =>
            rule.check tokens = some d ∧ d.kind = .ruleViolation ∧ d.rule = rule.name)
            fired violations := by
  intro tokens rules
  have hbehind : tokens.Pairwise fun a b => a.stop ≤ b.offset := Analyzer.pairwise_tokens _ text
  have hwithin : ∀ token ∈ tokens, token.offset < token.stop ∧ token.stop ≤ text.length :=
    fun _ htoken => Analyzer.within_of_mem_tokens htoken
  have hspans : ∀ {d : Diagnostic} {i j : Nat}, d.Spans (visible tokens) i j →
      d.start < d.stop ∧ d.stop ≤ text.length := fun h =>
    h.within (hbehind.filter _) fun token htoken => hwithin token (List.mem_filter.mp htoken).1
  refine ⟨fun d hd => ?_, wordFaults options tokens, rules.filterMap (Rule.check · tokens), rfl,
    fun d hd => (exists_token_of_mem_wordFaults hd).1, ?_, ?_⟩
  · rcases List.mem_append.mp hd with hword | hrule
    · obtain ⟨_, token, htoken, hisWord, hstart, hstop⟩ := exists_token_of_mem_wordFaults hword
      obtain ⟨i, hi⟩ := Diagnostic.exists_spans_of_word htoken hisWord hstart hstop
      obtain ⟨hlt, hle⟩ := hspans hi
      exact ⟨hlt, hle, ⟨i, i, hi⟩, fun _ => ⟨token, htoken, hisWord, hstart, hstop⟩⟩
    · obtain ⟨rule, hrule, hcheck⟩ := List.mem_filterMap.mp hrule
      obtain ⟨i, j, hij⟩ := Rule.spans_of_check (Rule.ofText_of_mem hrule) hcheck
      obtain ⟨hlt, hle⟩ := hspans hij
      exact ⟨hlt, hle, ⟨i, j, hij⟩, fun hkind => absurd (Rule.kind_of_check hcheck).1 hkind⟩
  · refine pairwise_wordFaults options (hbehind.imp_of_mem fun {a b} ha _ hle => ?_)
    exact Nat.lt_of_lt_of_le (hwithin a ha).1 hle
  · obtain ⟨fired, hsub, hfired⟩ := exists_sublist_filterMap (Rule.check · tokens) rules
    exact ⟨fired, hsub, hfired.imp fun rule d hcheck => ⟨hcheck, Rule.kind_of_check hcheck⟩⟩

end Klingon
