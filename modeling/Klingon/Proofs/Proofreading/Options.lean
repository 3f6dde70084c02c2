import Klingon.Proofs.Proofreading.Spans

/-!
# What the options leave out

Without any options every word that has no grammatical analysis is reported, and no other token is.
The options leave out some of the unknown words. They do so while the words are checked, but the other
faults and what the rules find are the same, in the same order.
-/

namespace Klingon

/-- Whether the options suppress a diagnostic: that of any unknown word if none is to be reported, and
that of a known word in any case. -/
def ProofreadingOptions.suppresses (options : ProofreadingOptions) (d : Diagnostic) : Bool :=
  d.kind = .unknownWord &&
    (!options.reportUnknown ||
      options.knownWords.any fun word => d = .unknownWord word d.start d.stop)

/-- A word that has no grammatical analysis. -/
def Token.IsFaulty (token : Token) : Prop :=
  token.kind = .word ∧ ∀ analysis ∈ token.analyses, analysis.isUngrammatical = true

instance (token : Token) : Decidable token.IsFaulty :=
  inferInstanceAs (Decidable (_ ∧ _))

/-- What is reported of a word that has no analysis, or no grammatical one. -/
inductive Token.Reported (token : Token) : Diagnostic → Prop
  | unknown : token.analyses = [] →
    Reported token
      { kind := .unknownWord, rule := "unknown word", message := "UNKNOWN WORD " ++ token.text,
        start := token.offset, stop := token.stop }
  | ungrammatical {first : Analysis} {reason : Text} : token.analyses.head? = some first →
    first.ungrammatical = some reason →
    Reported token
      { kind := .ungrammaticalWord, rule := "ungrammatical", message := reason,
        start := token.offset, stop := token.stop }

variable {options : ProofreadingOptions} {token : Token} {d : Diagnostic}

/-! ## Words that are left out -/

/-- The diagnostic of an unknown word tells the word. -/
theorem Diagnostic.unknownWord_inj {word word' : Text} {start stop start' stop' : Nat}
    (h : unknownWord word start stop = unknownWord word' start' stop') : word = word' := by
  have hmessage : "UNKNOWN WORD ".toList ++ word = "UNKNOWN WORD ".toList ++ word' :=
    congrArg Diagnostic.message h
  exact List.append_cancel_left hmessage

theorem suppresses_unknownWord (options : ProofreadingOptions) (word : Text) (start stop : Nat) :
    options.suppresses (.unknownWord word start stop) = !options.reports word := by
  have hknown : (options.knownWords.any fun known =>
      Diagnostic.unknownWord word start stop = .unknownWord known start stop) =
        decide (word ∈ options.knownWords) := by
    rw [Bool.eq_iff_iff, List.any_eq_true, decide_eq_true_iff]
    constructor
    · rintro ⟨known, hmem, heq⟩
      rwa [Diagnostic.unknownWord_inj (of_decide_eq_true heq)]
    · exact fun hmem => ⟨word, hmem, decide_eq_true rfl⟩
  show (true && (!options.reportUnknown || options.knownWords.any fun known =>
    Diagnostic.unknownWord word start stop = .unknownWord known start stop)) = _
  rw [hknown, ProofreadingOptions.reports]
  simp

theorem suppresses_of_kind_ne (h : d.kind ≠ .unknownWord) : options.suppresses d = false := by
  rw [ProofreadingOptions.suppresses, decide_eq_false h, Bool.false_and]

/-- The options decide about a word that has no analysis, and about nothing else. -/
theorem Token.fault?_eq_filter (options : ProofreadingOptions) (token : Token) :
    token.fault? options = (token.fault? {}).filter fun d => !options.suppresses d := by
  unfold fault?
  split
  · rfl
  · split
    · have hreports : ∀ word, ({} : ProofreadingOptions).reports word = true := fun _ => rfl
      rw [if_pos (hreports _), Option.filter_some, suppresses_unknownWord, Bool.not_not]
    · split
      · rw [Option.filter_some, suppresses_of_kind_ne (by simp [Diagnostic.ungrammaticalWord])]
        rfl
      · rfl

theorem wordFaults_eq_filter (options : ProofreadingOptions) (tokens : List Token) :
    wordFaults options tokens = (wordFaults {} tokens).filter fun d => !options.suppresses d := by
  rw [wordFaults, wordFaults, List.filter_filterMap]
  exact List.filterMap_congr fun token _ => token.fault?_eq_filter options

/-- No option suppresses what a rule finds. -/
theorem filter_violations (options : ProofreadingOptions) (rules : List Rule) (tokens : List Token) :
    (rules.filterMap (Rule.check · tokens)).filter (fun d => !options.suppresses d) =
      rules.filterMap (Rule.check · tokens) := by
  rw [List.filter_eq_self]
  intro d hd
  obtain ⟨rule, _, hcheck⟩ := List.mem_filterMap.mp hd
  have hkind : d.kind ≠ .unknownWord := by
    rw [(Rule.kind_of_check hcheck).1]
    decide
  rw [suppresses_of_kind_ne hkind, Bool.not_false]

/-! ## Words that are reported -/

theorem Token.fault?_of_not_isFaulty (h : ¬ token.IsFaulty) : token.fault? {} = none := by
  unfold fault?
  split
  · rfl
  · next hword =>
    have hkind : token.kind = .word := by simpa [isWord] using hword
    have hall : ¬ ∀ analysis ∈ token.analyses, analysis.isUngrammatical = true :=
      fun hall => h ⟨hkind, hall⟩
    split
    · next hnone =>
      rw [hnone] at hall
      exact absurd (fun _ hin => absurd hin List.not_mem_nil) hall
    · next first others hsome =>
      rw [hsome, ← List.all_eq_true] at hall
      exact if_neg hall

theorem Token.fault?_of_isFaulty (h : token.IsFaulty) :
    ∃ d, token.fault? {} = some d ∧ token.Reported d := by
  obtain ⟨hkind, hall⟩ := h
  have hword : ¬ (!token.isWord) = true := by simp [isWord, hkind]
  unfold fault?
  rw [if_neg hword]
  split
  · next hnone => exact ⟨_, rfl, .unknown hnone⟩
  · next first others hsome =>
    rw [hsome] at hall
    obtain ⟨reason, hreason⟩ := Option.isSome_iff_exists.mp (hall first List.mem_cons_self)
    refine ⟨_, if_pos (List.all_eq_true.mpr hall), ?_⟩
    rw [hreason]
    exact .ungrammatical (by rw [hsome]; rfl) hreason

theorem forall₂_filterMap {α β : Type} {R : α → β → Prop} {p : α → Prop} [DecidablePred p]
    {f : α → Option β} (hsome : ∀ a, p a → ∃ b, f a = some b ∧ R a b)
    (hnone : ∀ a, ¬ p a → f a = none) (items : List α) :
    List.Forall₂ R (items.filter p) (items.filterMap f) := by
  induction items with
  | nil => exact .nil
  | cons a rest ih =>
    by_cases hp : p a
    · obtain ⟨b, hb, hab⟩ := hsome a hp
      rw [List.filter_cons, if_pos (decide_eq_true hp), List.filterMap_cons_some hb]
      exact .cons hab ih
    · rw [List.filter_cons, if_neg (by simpa using hp), List.filterMap_cons_none (hnone a hp)]
      exact ih

/-- What is found with some options is what is found without them, unknown words left out that the
options suppress. Without options there is one fault of a single word for each word that has no
grammatical analysis, in their order, and for nothing else. -/
theorem diagnose_with_options (options : ProofreadingOptions) (rules : List Rule)
    (tokens : List Token) :
    diagnose options rules tokens =
        (diagnose {} rules tokens).filter (fun d => !options.suppresses d) ∧
      List.Forall₂ Token.Reported (tokens.filter Token.IsFaulty) (wordFaults {} tokens) := by
  constructor
  · rw [diagnose, diagnose, List.filter_append, filter_violations, wordFaults_eq_filter options]
  · exact forall₂_filterMap (fun _ => Token.fault?_of_isFaulty)
      (fun _ => Token.fault?_of_not_isFaulty) tokens

end Klingon
