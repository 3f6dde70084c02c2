import Klingon.Proofs.Encoding
import Klingon.Proofs.Pattern.Tokens
import Klingon.Proofs.Rule

/-!
# Conditions and their literals

The atom of a condition requires one mark of each bit that the condition names, the mark that the
first literal of the bit asks for. It takes the tokens for which the first literals hold. These are
the tokens for which all its literals hold exactly if the condition does not both ask for a bit and
forbid it.
-/

namespace Klingon.Pattern

/-- Whether a token is as a literal asks: all its readings hold the bit, or none of them does. -/
def Literal.Holds (literal : Literal) (token : Token) : Prop :=
  if literal.expected then token.Carries literal.bit else token.Lacks literal.bit

/-- Whether the pieces of the atom of a condition cover the block of the token with the given number
in an encoded sentence. -/
def Takes (vocabulary : List Text) (literals : List Literal) (tokens : List Token) (i : Nat) :
    Prop :=
  consumePieces (remainders (encode vocabulary tokens)).toArray
      (blockPieces (requirements vocabulary literals)) (offset vocabulary tokens i) =
    some (offset vocabulary tokens (i + 1))

instance (vocabulary : List Text) (literals : List Literal) (tokens : List Token) (i : Nat) :
    Decidable (Takes vocabulary literals tokens i) :=
  inferInstanceAs (Decidable (_ = _))

variable {vocabulary : List Text} {literals : List Literal} {literal : Literal}
  {tokens : List Token} {token : Token} {i : Nat}

theorem Literal.holds_iff_mark : literal.Holds token ↔
    token.mark literal.bit = markFor literal.expected := by
  unfold Holds markFor
  split
  · exact Token.mark_eq_one_iff.symm
  · exact Token.mark_eq_zero_iff.symm

/-- A token is not as two literals of one bit ask if their signs differ. -/
theorem Literal.Holds.expected_eq {other : Literal} (h : literal.Holds token)
    (hother : other.Holds token) (hbit : literal.bit = other.bit) :
    literal.expected = other.expected := by
  rw [holds_iff_mark] at h hother
  rw [hbit, hother] at h
  cases hl : literal.expected <;> cases ho : other.expected <;> simp_all [markFor]

/-- A condition goes by the first literal of each bit. -/
def IsFirst (literals : List Literal) (literal : Literal) : Prop :=
  literals.find? (·.bit = literal.bit) = some literal

instance : Decidable (IsFirst literals literal) :=
  inferInstanceAs (Decidable (_ = _))

theorem exists_isFirst (h : literal ∈ literals) :
    ∃ first ∈ literals, first.bit = literal.bit ∧ IsFirst literals first := by
  have hsome : (literals.find? (·.bit = literal.bit)).isSome = true :=
    List.find?_isSome.mpr ⟨literal, h, decide_eq_true rfl⟩
  obtain ⟨first, hfirst⟩ := Option.isSome_iff_exists.mp hsome
  have hbit : first.bit = literal.bit := by simpa using List.find?_some hfirst
  refine ⟨first, List.mem_of_find?_eq_some hfirst, hbit, ?_⟩
  rw [IsFirst, hbit, hfirst]

/-! ## What the atom of a condition takes -/

theorem takes_iff_meets (h : tokens[i]? = some token) : Takes vocabulary literals tokens i ↔
    token.meets vocabulary (requirements vocabulary literals) = true := by
  have hle : i ≤ tokens.length := Nat.le_of_lt (List.getElem?_eq_some_iff.mp h).1
  rw [Takes, consumePieces_offset (length_requirements _ _) hle, consume_tokenTrack, h,
    Option.bind_some]
  split <;> simp_all

theorem mem_vocabularyOf {nodes : List Node} {name : Option Text}
    (hnode : .condition name literals ∈ nodes) (h : literal ∈ literals) :
    literal.bit ∈ vocabularyOf nodes := by
  rw [vocabularyOf, List.mem_eraseDups]
  exact List.mem_flatMap.mpr ⟨_, hnode, List.mem_map_of_mem h⟩

/-- The atom of a condition takes the tokens that are as its first literals ask. -/
theorem takes_iff_first (h : tokens[i]? = some token)
    (hvocabulary : ∀ literal ∈ literals, literal.bit ∈ vocabulary) :
    Takes vocabulary literals tokens i ↔
      ∀ literal ∈ literals, IsFirst literals literal → literal.Holds token := by
  rw [takes_iff_meets h, meets_requirements]
  simp only [Literal.holds_iff_mark]
  constructor
  · intro hmeets literal hin hfirst
    exact hmeets literal.bit (hvocabulary literal hin) literal hfirst
  · intro hfirst bit _ literal hfind
    have hbit : literal.bit = bit := by simpa using List.find?_some hfind
    subst hbit
    exact hfirst literal (List.mem_of_find?_eq_some hfind) hfind

/-! ## Literals that are not looked at -/

/-- A word with one analysis, which holds the bits that the first literals of a condition ask
for. -/
def tokenFor (literals : List Literal) : Token where
  offset := 0
  kind := .word
  text := []
  analyses := [{
    word := []
    broad := .other
    features := some {
      role := .other
      bits := (literals.filter fun literal =>
        IsFirst literals literal && literal.expected).map (·.bit) } }]

theorem holds_tokenFor (h : IsFirst literals literal) : literal.Holds (tokenFor literals) := by
  have hmem : literal ∈ literals := List.mem_of_find?_eq_some h
  have hbits : literal.bit ∈ (literals.filter fun literal =>
      IsFirst literals literal && literal.expected).map (·.bit) ↔ literal.expected = true := by
    simp only [List.mem_map, List.mem_filter, Bool.and_eq_true, decide_eq_true_eq]
    constructor
    · rintro ⟨other, ⟨_, hfirst, hexpected⟩, hbit⟩
      rw [IsFirst, hbit, h] at hfirst
      cases hfirst
      exact hexpected
    · exact fun hexpected => ⟨literal, ⟨hmem, h, hexpected⟩, rfl⟩
  unfold Literal.Holds
  split
  · next hexpected =>
    refine ⟨List.cons_ne_nil _ _, fun analysis hanalysis => ?_⟩
    rw [List.mem_singleton.mp hanalysis]
    exact decide_eq_true (hbits.mpr hexpected)
  · next hexpected =>
    intro analysis hanalysis
    rw [List.mem_singleton.mp hanalysis]
    exact decide_eq_false fun hin => hexpected (hbits.mp hin)

/-- All literals of a condition count exactly if no bit is asked for and forbidden in it. -/
theorem takes_iff_all (hvocabulary : ∀ literal ∈ literals, literal.bit ∈ vocabulary) :
    (∀ tokens i token, tokens[i]? = some token →
      (Takes vocabulary literals tokens i ↔ ∀ literal ∈ literals, literal.Holds token)) ↔
    ∀ literal ∈ literals, ∀ other ∈ literals, literal.bit = other.bit →
      literal.expected = other.expected := by
  constructor
  · intro hall literal hliteral other hother hbit
    have htoken : [tokenFor literals][0]? = some (tokenFor literals) := rfl
    have htakes : Takes vocabulary literals [tokenFor literals] 0 :=
      (takes_iff_first htoken hvocabulary).mpr fun _ _ hfirst => holds_tokenFor hfirst
    have hholds := (hall _ _ _ htoken).mp htakes
    exact (hholds literal hliteral).expected_eq (hholds other hother) hbit
  · intro hsigns tokens i token htoken
    rw [takes_iff_first htoken hvocabulary]
    refine forall₂_congr fun literal hliteral => ?_
    obtain ⟨first, hmem, hbit, hfirst⟩ := exists_isFirst hliteral
    have heq : first = literal := by
      have hexpected := hsigns first hmem literal hliteral hbit
      cases first
      cases literal
      simp_all
    exact ⟨fun h => h (heq ▸ hfirst), fun h _ => h⟩

/-- The atoms of a pattern are those of its conditions and wildcards, in their order. The atom of a
condition takes a token exactly if the first literal of each of its bits holds: all readings hold a
bit that is asked for, and none holds a bit that is forbidden. It goes by all of its literals
exactly if none of its bits is both asked for and forbidden. -/
theorem condition_takes {source : Text} {pattern : Pattern}
    (h : Pattern.ofText source = .ok pattern) : ∃ nodes e, Compiles source pattern nodes e ∧
      e.atoms = nodes.filterMap (Node.requirements? pattern.vocabulary) ∧
      ∀ name literals, .condition name literals ∈ nodes →
        (∀ tokens i token, tokens[i]? = some token →
          (Takes pattern.vocabulary literals tokens i ↔
            ∀ literal ∈ literals, IsFirst literals literal → literal.Holds token)) ∧
        ((∀ tokens i token, tokens[i]? = some token →
          (Takes pattern.vocabulary literals tokens i ↔
            ∀ literal ∈ literals, literal.Holds token)) ↔
          ∀ literal ∈ literals, ∀ other ∈ literals, literal.bit = other.bit →
            literal.expected = other.expected) := by
  obtain ⟨nodes, e, hcompiles⟩ := compiles_of_ofText h
  refine ⟨nodes, e, hcompiles, atoms_of_expression? hcompiles.expression,
    fun name literals hnode => ?_⟩
  have hvocabulary : ∀ literal ∈ literals, literal.bit ∈ pattern.vocabulary := by
    rw [hcompiles.vocabulary]
    exact fun literal => mem_vocabularyOf hnode
  exact ⟨fun tokens i token htoken => takes_iff_first htoken hvocabulary,
    takes_iff_all hvocabulary⟩

theorem condition_takes_repeated : ∃ pattern,
    Pattern.ofText "{N,!V,N} verb{V7,!V7}" = .ok pattern ∧
      ∃ nodes e, Compiles "{N,!V,N} verb{V7,!V7}" pattern nodes e ∧
        e.atoms = nodes.filterMap (Node.requirements? pattern.vocabulary) ∧
        ∀ name literals, .condition name literals ∈ nodes →
          (∀ tokens i token, tokens[i]? = some token →
            (Takes pattern.vocabulary literals tokens i ↔
              ∀ literal ∈ literals, IsFirst literals literal → literal.Holds token)) ∧
          ((∀ tokens i token, tokens[i]? = some token →
            (Takes pattern.vocabulary literals tokens i ↔
              ∀ literal ∈ literals, literal.Holds token)) ↔
            ∀ literal ∈ literals, ∀ other ∈ literals, literal.bit = other.bit →
              literal.expected = other.expected) := by
  have hcertain : certainlyReads "{N,!V,N} verb{V7,!V7}" = true := by decide +kernel
  obtain ⟨pattern, hpattern⟩ := exists_ofText_of_certainlyReads hcertain
  exact ⟨pattern, hpattern, condition_takes hpattern⟩

/-- A verb is taken although its bit is forbidden, behind the same bit asked for. -/
theorem takes_forbidden_bit : ∃ pattern, Pattern.ofText "{V,!V}" = .ok pattern ∧
    readNodes 0 "{V,!V}" = .ok [.condition none [⟨"V", true⟩, ⟨"V", false⟩]] ∧
    ∃ token ∈ (Analyzer.ofLexicon (.ofEntries [⟨"Suv:v", "Suv", "v:i", []⟩])).tokens "Suv",
      Takes pattern.vocabulary [⟨"V", true⟩, ⟨"V", false⟩] [token] 0 ∧
        ¬ (⟨"V", false⟩ : Literal).Holds token := by
  have hcertain : certainlyReads "{V,!V}" = true := by decide +kernel
  obtain ⟨pattern, hpattern⟩ := exists_ofText_of_certainlyReads hcertain
  obtain ⟨nodes, e, hcompiles⟩ := compiles_of_ofText hpattern
  have hreads : readNodes 0 "{V,!V}" = .ok [.condition none [⟨"V", true⟩, ⟨"V", false⟩]] := by
    decide +kernel
  have hvocabulary : pattern.vocabulary = ["V".toList] := by
    have hnodes := hcompiles.reads
    rw [hreads] at hnodes
    cases hnodes
    exact hcompiles.vocabulary.trans (by decide)
  have htoken : ∃ token ∈ (Analyzer.ofLexicon
      (.ofEntries [⟨"Suv:v", "Suv", "v:i", []⟩])).tokens "Suv",
      Takes ["V"] [⟨"V", true⟩, ⟨"V", false⟩] [token] 0 ∧ token.mark "V" = '1' := by
    decide +kernel
  obtain ⟨token, hmem, htakes, hmark⟩ := htoken
  refine ⟨pattern, hpattern, hreads, token, hmem, hvocabulary ▸ htakes, ?_⟩
  rw [Literal.holds_iff_mark, hmark]
  decide

end Klingon.Pattern
