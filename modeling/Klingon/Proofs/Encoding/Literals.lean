import Klingon.Proofs.Analyzer.Entries
import Klingon.Proofs.Conllu
import Klingon.Proofs.Encoding
import Klingon.Proofs.Proofreading.Blanks

/-!
# The literal bit

Every analysis of a word holds the bit that quotes the word. No other bit begins with a quotation
mark, unless the identifier of an entry does, so a word with analyses is marked for the word that it
literally is and for no other. Punctuation is marked for the names of its character, but never for
itself.
-/

namespace Klingon

theorem literalBit_inj {word word' : Text} : literalBit word = literalBit word' ↔ word = word' := by
  rw [literalBit, literalBit, List.append_left_inj, List.append_right_inj]

theorem ne_literalBit {bit : Text} (h : '«' ∉ bit) (word : Text) : bit ≠ literalBit word := by
  rintro rfl
  exact h List.mem_cons_self

namespace Analysis

/-! ## Bits -/

theorem not_mem_of_mem_personBits {name bit : Text} (hname : '«' ∉ name)
    {number : Option GrammaticalNumber} {persons : List Person}
    (h : bit ∈ personBits name number persons) : '«' ∉ bit := by
  obtain ⟨person, _, hbit⟩ := List.mem_flatMap.mp h
  have hdigit : '«' ∉ Text.decimal person.digit := by cases person <;> decide
  have hperson : '«' ∉ name ++ Text.decimal person.digit := List.not_mem_append hname hdigit
  rcases List.mem_cons.mp hbit with rfl | hbit
  · exact hperson
  · obtain ⟨n, _, rfl⟩ := Option.map_eq_some_iff.mp (Option.mem_toList.mp hbit)
    have hnumber : '«' ∉ n.symbol := by cases n <;> decide
    exact List.not_mem_append hperson hnumber

theorem not_mem_of_mem_phraseBits {features : Features} {bit : Text}
    (h : bit ∈ phraseBits features) : '«' ∉ bit := by
  unfold phraseBits at h
  split at h
  · rcases List.mem_append.mp h with h | h
    · exact not_mem_of_mem_personBits (by decide) h
    · exact not_mem_of_mem_personBits (by decide) h
  · split at h
    · rw [List.mem_singleton.mp h]
      decide
    · rw [List.mem_singleton.mp h]
      decide
    · exact absurd h List.not_mem_nil
  · exact absurd h List.not_mem_nil

theorem mem_partBits {part bit : Text} :
    bit ∈ partBits part ↔ bit = part ∨ ∃ back, Text.cut? ':' part = some (bit, back) := by
  rw [partBits, List.mem_cons, Option.mem_toList, Option.map_eq_some_iff]
  simp

/-- The bits of a part are made of its characters. -/
theorem subset_of_mem_partBits {part bit : Text} (h : bit ∈ partBits part) : bit ⊆ part := by
  rcases mem_partBits.mp h with rfl | ⟨back, hcut⟩
  · exact List.Subset.refl _
  · rw [(Text.cut?_eq_some_iff.mp hcut).1]
    exact List.subset_append_left _ _

theorem not_mem_of_mem_symbols {analysis : Analysis} {bit : Text}
    (h : bit ∈ [analysis.fine.symbol, analysis.broad.symbol, analysis.role.symbol]) :
    '«' ∉ bit := by
  have hfine : '«' ∉ analysis.fine.symbol := by cases analysis.fine <;> decide
  have hbroad : '«' ∉ analysis.broad.symbol := by cases analysis.broad <;> decide
  have hrole : '«' ∉ analysis.role.symbol := by cases analysis.role <;> decide
  simp only [List.mem_cons, List.not_mem_nil, or_false] at h
  rcases h with rfl | rfl | rfl
  · exact hfine
  · exact hbroad
  · exact hrole

theorem mem_bits {analysis : Analysis} {bit : Text} : bit ∈ analysis.bits ↔
    bit ∈ [analysis.fine.symbol, analysis.broad.symbol, analysis.role.symbol] ∨
    bit = literalBit analysis.word ∨ bit ∈ phraseBits analysis.phrase ∨
    (∃ part ∈ analysis.parts, bit ∈ partBits part) ∨
    (∃ suffix ∈ analysis.suffixes, bit = suffix.1.symbol ∨ bit = suffix.2) ∨
    analysis.verbPrefix = some bit := by
  rw [bits, Ordered.mem_ofList]
  simp [or_assoc]

end Analysis

namespace Analyzer

open Analysis

variable {lexicon : Lexicon} {word : Text} {analysis : Analysis}

/-- An analysis of a word whose parts are made of the letters of the word and of the marks of
affixes, apart from the identifier of the entry. -/
structure Unquoted (word : Text) (analysis : Analysis) : Prop extends MadeOf word analysis where
  word_eq : analysis.word = word
  parts : ∀ part ∈ analysis.parts, part = analysis.entryId ∨ '«' ∉ part
  entryId : analysis.entryId ≠ "?" → analysis.entryId ∈ analysis.parts

theorem not_mem_key (wordClass : WordClass) : '«' ∉ wordClass.key := by
  cases wordClass <;> decide

theorem not_mem_part {a : Attachment} (h : '«' ∉ a.text) : '«' ∉ a.part := by
  simp [Attachment.part, h, not_mem_key]

/-- Pieces without quotation marks give parts without them, apart from the identifier of the entry. -/
theorem parts_ofPieces {kind : TemplateKind} {front headword : Text} {attached : List Attachment}
    (hfront : '«' ∉ front) (hheadword : '«' ∉ headword) (htext : ∀ a ∈ attached, '«' ∉ a.text)
    (chosen : Option Entry) : ∀ part ∈ (ofPieces kind word front headword attached chosen).parts,
      part = (ofPieces kind word front headword attached chosen).entryId ∨ '«' ∉ part := by
  show ∀ part ∈ (if front = [] then [] else [front ++ "-:" ++ kind.headwordClass.key]) ++
    (if headword = [] then [] else [(chosen.map (·.id)).getD headword]) ++
      attached.map (·.part), _
  rw [List.forall_mem_append, List.forall_mem_append, List.forall_mem_map]
  refine ⟨⟨fun part hpart => ?_, fun part hpart => ?_⟩, fun a ha => .inr (not_mem_part (htext a ha))⟩
  · split at hpart
    · exact absurd hpart List.not_mem_nil
    · rw [List.mem_singleton.mp hpart]
      right
      simp [hfront, not_mem_key]
  · split at hpart
    · exact absurd hpart List.not_mem_nil
    · rw [List.mem_singleton.mp hpart]
      cases chosen with
      | none => exact .inr hheadword
      | some entry => exact .inl rfl

theorem unquoted_of_mem_contribution {kind : TemplateKind} (hword : '«' ∉ word)
    (h : analysis ∈ contribution lexicon kind word) : Unquoted word analysis := by
  have hmade := madeOf_of_mem_contribution h
  obtain ⟨d, suffixes, chosen, hreading, hchosen, _, rfl⟩ := exists_reading_of_mem h
  refine { hmade with word_eq := rfl, parts := ?parts, entryId := ?entryId }
  case parts =>
    rw [hreading.division.word, List.mem_append, List.mem_append, not_or, not_or] at hword
    obtain ⟨hfront, hheadword, htail⟩ := hword
    refine parts_ofPieces hfront hheadword (fun a ha hin => ?_) chosen
    rw [← hreading.spells.flatten_eq] at htail
    refine htail (List.mem_flatten.mpr ⟨a.text, ?_, hin⟩)
    exact (sublist_texts kind.inflectionClass suffixes).subset (List.mem_map_of_mem ha)
  case entryId =>
    intro hid
    cases chosen with
    | none => exact absurd rfl hid
    | some entry =>
      have hheadword := (some_mem_entriesOf.mp hchosen).1
      simp [ofPieces, hheadword]

theorem unquoted_ofEntry {entry : Entry} (h : entry ∈ lexicon.homographs word .other) :
    Unquoted word (ofEntry word entry) where
  headword := (Lexicon.mem_homographs.mp h).2.1 ▸ List.Subset.refl _
  verbPrefix _ hfront := (Option.not_mem_none _ hfront).elim
  suffixes _ hsuffix := absurd hsuffix List.not_mem_nil
  word_eq := rfl
  parts _ hpart := .inl (List.mem_singleton.mp hpart)
  entryId _ := List.mem_singleton_self entry.id

/-- Which literal bits an analysis of a word without quotation marks has. -/
theorem Unquoted.literalBit_mem_bits_iff (h : Unquoted word analysis) (hword : '«' ∉ word)
    {other : Text} : literalBit other ∈ analysis.bits ↔
      other = word ∨ literalBit other ∈ partBits analysis.entryId := by
  have hquoted : ∀ {bit : Text}, '«' ∉ bit → literalBit other ≠ bit :=
    fun hbit => (ne_literalBit hbit other).symm
  have haffix : ∀ {affix : Text}, affix ⊆ '-' :: word → '«' ∉ affix := by
    intro affix hsub hin
    rcases List.mem_cons.mp (hsub hin) with heq | hin
    · cases heq
    · exact hword hin
  rw [mem_bits, h.word_eq, literalBit_inj]
  constructor
  · rintro (hsymbol | rfl | hphrase | ⟨part, hpart, hbit⟩ |
      ⟨suffix, hsuffix, hslot | hbit⟩ | hprefix)
    · exact absurd rfl (hquoted (not_mem_of_mem_symbols hsymbol))
    · exact .inl rfl
    · exact absurd rfl (hquoted (not_mem_of_mem_phraseBits hphrase))
    · rcases h.parts part hpart with rfl | hnot
      · exact .inr hbit
      · exact absurd (subset_of_mem_partBits hbit List.mem_cons_self) hnot
    · have hsymbol : '«' ∉ suffix.1.symbol := by cases suffix.1 <;> decide
      exact absurd hslot (hquoted hsymbol)
    · exact absurd hbit (hquoted (haffix (h.suffixes suffix hsuffix)))
    · exact absurd rfl (hquoted (haffix (h.verbPrefix _ hprefix)))
  · rintro (rfl | hbit)
    · exact .inr (.inl rfl)
    · refine .inr (.inr (.inr (.inl ⟨analysis.entryId, h.entryId ?_, hbit⟩)))
      intro hmark
      rw [hmark] at hbit
      exact absurd (subset_of_mem_partBits hbit List.mem_cons_self) (by decide)

theorem holds_literalBit_iff (hword : '«' ∉ word)
    (h : analysis ∈ (ofLexicon lexicon).analyze word) {other : Text} :
    analysis.holds (literalBit other) = true ↔
      other = word ∨ literalBit other ∈ partBits analysis.entryId := by
  obtain ⟨found, hfound, rfl⟩ := mem_analyze.mp h
  have hunquoted : Unquoted word found := by
    rcases of_mem_contributions hfound with ⟨kind, hfound⟩ | ⟨entry, hentry, rfl⟩
    · exact unquoted_of_mem_contribution hword hfound
    · exact unquoted_ofEntry hentry
  exact decide_eq_true_iff.trans (hunquoted.literalBit_mem_bits_iff hword)

end Analyzer

/-! ## Marks -/

namespace Token

variable {lexicon : Lexicon} {text : Text} {token : Token}

/-- A quotation mark is no letter of a word. -/
theorem not_mem_text {analyzer : Analyzer} (hmem : token ∈ analyzer.tokens text)
    (hkind : token.kind = .word) : '«' ∉ token.text := by
  intro hin
  have hofChar := Analyzer.ofChar_of_mem_tokens hmem '«' hin
  rw [hkind] at hofChar
  exact absurd hofChar (by decide)

/-- No name of a punctuation character is a literal bit. -/
theorem punctHolds_literalBit (text word : Text) : punctHolds text (literalBit word) = false := by
  have hnames : ∀ row ∈ punctuationNames, ∀ name ∈ row.2, '«' ∉ name := by decide
  have hpunct : "Punct".toList ≠ literalBit word := ne_literalBit (by decide) word
  unfold punctHolds
  rw [Bool.or_eq_false_iff]
  refine ⟨decide_eq_false hpunct.symm, ?_⟩
  split
  · next c =>
    rw [Bool.or_eq_false_iff]
    constructor
    · cases hlookup : punctuationNames.lookup c with
      | none => rfl
      | some names =>
        obtain ⟨front, back, hrow, -⟩ := List.lookup_eq_some_iff.mp hlookup
        have hmem : (c, names) ∈ punctuationNames := by
          rw [hrow]
          exact List.mem_append_right _ List.mem_cons_self
        exact decide_eq_false fun hin => hnames _ hmem _ hin List.mem_cons_self
    · refine decide_eq_false (ne_literalBit (fun hin => ?_) word).symm
      exact absurd (Nat.isDigit_of_mem_toDigits (by decide) (by decide) hin) (by decide)
  · rfl

theorem mark_literalBit_of_punct (hkind : token.kind = .punct) (word : Text) :
    token.mark (literalBit word) = '0' := by
  rw [mark_eq_zero_iff, Lacks, if_pos hkind]
  exact punctHolds_literalBit _ _

theorem holds_literalBit_of_mem (hmem : token ∈ (Analyzer.ofLexicon lexicon).tokens text)
    (hkind : token.kind = .word) {analysis : Analysis} (hanalysis : analysis ∈ token.analyses)
    {word : Text} : analysis.holds (literalBit word) = true ↔
      word = token.text ∨ literalBit word ∈ Analysis.partBits analysis.entryId := by
  have hanalyses : token.analyses = (Analyzer.ofLexicon lexicon).analyze token.text :=
    (Analyzer.analyses_of_mem_tokens hmem).trans (if_pos hkind)
  rw [hanalyses] at hanalysis
  exact Analyzer.holds_literalBit_iff (not_mem_text hmem hkind) hanalysis

theorem mark_literalBit_text (hmem : token ∈ (Analyzer.ofLexicon lexicon).tokens text)
    (hkind : token.kind = .word) (hread : token.analyses ≠ []) :
    token.mark (literalBit token.text) = '1' := by
  rw [mark_eq_one_iff, Carries, if_neg (by simp [hkind])]
  exact ⟨hread, fun analysis hanalysis =>
    (holds_literalBit_of_mem hmem hkind hanalysis).mpr (.inl rfl)⟩

theorem mark_literalBit_eq_zero_iff (hmem : token ∈ (Analyzer.ofLexicon lexicon).tokens text)
    (hkind : token.kind = .word) {word : Text} (hne : token.text ≠ word) :
    token.mark (literalBit word) = '0' ↔
      ∀ analysis ∈ token.analyses, literalBit word ∉ Analysis.partBits analysis.entryId := by
  rw [mark_eq_zero_iff, Lacks, if_neg (by simp [hkind])]
  refine forall₂_congr fun analysis hanalysis => ?_
  rw [← Bool.not_eq_true, holds_literalBit_of_mem hmem hkind hanalysis,
    or_iff_right (Ne.symm hne)]

end Token

/-- No bit that the identifier of an entry gives is a literal bit. -/
def Lexicon.HasPlainIds (lexicon : Lexicon) : Prop :=
  ∀ entry ∈ lexicon.entries, ∀ word, literalBit word ∉ Analysis.partBits entry.id

theorem Lexicon.hasPlainIds_of_not_mem {lexicon : Lexicon}
    (h : ∀ entry ∈ lexicon.entries, '«' ∉ entry.id) : lexicon.HasPlainIds :=
  fun entry hentry _ hin => h entry hentry (Analysis.subset_of_mem_partBits hin List.mem_cons_self)

theorem Lexicon.HasPlainIds.not_mem_partBits {lexicon : Lexicon} (h : lexicon.HasPlainIds)
    {word : Text} {analysis : Analysis}
    (hanalysis : analysis ∈ (Analyzer.ofLexicon lexicon).analyze word) (other : Text) :
    literalBit other ∉ Analysis.partBits analysis.entryId := by
  rcases Analyzer.showsEntry_or_showsNoEntry hanalysis with ⟨entry, hshows⟩ | ⟨hnone, -⟩
  · obtain ⟨hentry, hid⟩ := mem_of_get? hshows.found
    exact hid ▸ h entry hentry other
  · rw [hnone.entryId]
    exact fun hin => absurd (Analysis.subset_of_mem_partBits hin List.mem_cons_self) (by decide)

/-- The literal bit of its own text is marked on a token exactly if that is a word, never if it is
punctuation; the literal bit of another text is not marked exactly if no analysis has it from the
identifier of its entry. In a lexicon with plain identifiers, words are marked for the text that
they are and for no other. -/
theorem encode_literalBit (lexicon : Lexicon) (text : Text) (token : Token)
    (hmem : token ∈ (Analyzer.ofLexicon lexicon).tokens text)
    (hkind : token.kind = .punct ∨ token.kind = .word ∧ token.analyses ≠ []) :
    (∀ word, encode [literalBit word] [token] = ",0:" ++ [if token.text = word then '1' else '0'] ↔
      if token.text = word then token.kind = .word
      else ∀ analysis ∈ token.analyses, literalBit word ∉ Analysis.partBits analysis.entryId) ∧
    (lexicon.HasPlainIds → token.kind = .word → ∀ word,
      encode [literalBit word] [token] = ",0:" ++ [if token.text = word then '1' else '0']) := by
  have hmark : ∀ word, encode [literalBit word] [token] =
      ",0:" ++ [if token.text = word then '1' else '0'] ↔
        token.mark (literalBit word) = if token.text = word then '1' else '0' := by
    intro word
    rw [Token.encode_singleton, List.append_cancel_left_eq, List.singleton_inj]
  have hexact : ∀ word, encode [literalBit word] [token] =
      ",0:" ++ [if token.text = word then '1' else '0'] ↔
        if token.text = word then token.kind = .word
        else ∀ analysis ∈ token.analyses, literalBit word ∉ Analysis.partBits analysis.entryId := by
    intro word
    rw [hmark]
    rcases hkind with hpunct | ⟨hword, hread⟩
    · have hnot : token.kind ≠ .word := by simp [hpunct]
      have hnone : token.analyses = [] :=
        (Analyzer.analyses_of_mem_tokens hmem).trans (if_neg hnot)
      rw [Token.mark_literalBit_of_punct hpunct word, hnone]
      split
      · exact iff_of_false (by decide) hnot
      · exact iff_of_true rfl fun analysis hin => absurd hin List.not_mem_nil
    · split
      · next heq =>
        subst heq
        exact iff_of_true (Token.mark_literalBit_text hmem hword hread) hword
      · next hne => exact Token.mark_literalBit_eq_zero_iff hmem hword hne
  refine ⟨hexact, fun hplain hword word => (hexact word).mpr ?_⟩
  split
  · exact hword
  · intro analysis hanalysis
    have hanalyses : token.analyses = (Analyzer.ofLexicon lexicon).analyze token.text :=
      (Analyzer.analyses_of_mem_tokens hmem).trans (if_pos hword)
    exact hplain.not_mem_partBits (hanalyses ▸ hanalysis) word

theorem encode_literalBit_fighting :
    ∃ token ∈ (Analyzer.ofLexicon Analyzer.fighting).tokens "Suv, Suv", token.kind = .word ∧
      token.analyses ≠ [] ∧ Analyzer.fighting.HasPlainIds ∧
      encode [literalBit "Suv"] [token] = ",0:1" ∧ encode [literalBit ","] [token] = ",0:0" := by
  have hfound : ∃ token ∈ (Analyzer.ofLexicon Analyzer.fighting).tokens "Suv, Suv",
      token.kind = .word ∧ token.analyses ≠ [] ∧ token.text = "Suv" := by
    decide +kernel
  have hplain : Analyzer.fighting.HasPlainIds :=
    Lexicon.hasPlainIds_of_not_mem (by decide)
  obtain ⟨token, hmem, hword, hread, htext⟩ := hfound
  obtain ⟨-, hall⟩ := encode_literalBit _ _ token hmem (.inr ⟨hword, hread⟩)
  refine ⟨token, hmem, hword, hread, hplain, ?_, ?_⟩
  · rw [hall hplain hword, htext]
    rfl
  · rw [hall hplain hword, htext]
    rfl

/-- A comma is not marked for itself. -/
theorem encode_literalBit_comma :
    (Lexicon.ofEntries []).HasPlainIds ∧
      ∃ token ∈ (Analyzer.ofLexicon (.ofEntries [])).tokens ",", token.kind = .punct ∧
        token.text = "," ∧ encode [literalBit ","] [token] = ",0:0" :=
  ⟨Lexicon.hasPlainIds_of_not_mem (by decide), ⟨0, .punct, ",", []⟩, by decide, rfl, rfl, rfl⟩

end Klingon
