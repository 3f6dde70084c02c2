import Mathlib.Data.List.Sort
import Klingon.Template.Inventory
import Klingon.Proofs.Template.Preference

/-!
# The headwords of a lexicon

Which words are on the three headword lists depends on the entries of the lexicon but not on their
order: the names of entries that are not derived, and the derived names that no template accepts
whose headwords are the others alone. The lists have longer words first, so no headword begins one
that comes later.
-/

namespace Klingon

/-! ## Lists under construction -/

namespace Candidates

variable {found : Candidates} {word other : Text} {derived : Bool}

theorem mem_primary_add : other ∈ (found.add word derived).primary ↔
    other ∈ found.primary ∨ (other = word ∧ derived = false) := by
  rw [add]
  split
  · next hword =>
    constructor
    · exact .inl
    · rintro (h | ⟨rfl, _⟩)
      · exact h
      · exact hword
  · split
    · next hderived =>
      have hfalse : derived = false := by simpa using hderived
      rw [List.mem_append, List.mem_singleton]
      simp only [hfalse, and_true]
    · next hderived =>
      have htrue : derived = true := by simpa using hderived
      simp only [htrue, Bool.true_eq_false, and_false, or_false]
      split <;> exact Iff.rfl

theorem mem_derived_of_mem_add (h : other ∈ (found.add word derived).derived) :
    other ∈ found.derived ∨ (other = word ∧ derived = true) := by
  rw [add] at h
  split at h
  · exact .inl h
  · split at h
    · exact .inl h
    · next hderived =>
      split at h
      · exact .inl h
      · rcases List.mem_append.mp h with h | h
        · exact .inl h
        · exact .inr ⟨List.mem_singleton.mp h, by simpa using hderived⟩

theorem mem_derived_add (h : other ∈ found.derived) : other ∈ (found.add word derived).derived := by
  rw [add]
  split
  · exact h
  · split
    · exact h
    · split
      · exact h
      · exact List.mem_append_left _ h

/-- A derived word that was added is on one of the lists. -/
theorem mem_of_add_derived : word ∈ (found.add word true).primary ∨
    word ∈ (found.add word true).derived := by
  rw [add]
  split
  · next hword => exact .inl hword
  · rw [if_neg (by decide)]
    split
    · next hword => exact .inr hword
    · exact .inr (List.mem_append_right _ (List.mem_singleton_self word))

/-- The lists hold the words that are headwords in any case, and of the derived words those that are
not among them. -/
structure Holds (found : Candidates) (isPrimary isDerived : Text → Prop) : Prop where
  primary : ∀ word, word ∈ found.primary ↔ isPrimary word
  derived : ∀ word ∈ found.derived, isDerived word
  rest : ∀ word, isDerived word → word ∈ found.primary ∨ word ∈ found.derived

variable {isPrimary isPrimary' isDerived isDerived' : Text → Prop}

theorem Holds.add (h : found.Holds isPrimary isDerived) (word : Text) (derived : Bool) :
    (found.add word derived).Holds
      (fun other => isPrimary other ∨ (other = word ∧ derived = false))
      (fun other => isDerived other ∨ (other = word ∧ derived = true)) where
  primary other := by rw [mem_primary_add, h.primary]
  derived other hother := (mem_derived_of_mem_add hother).imp (h.derived other) id
  rest other hother := by
    rcases hother with hother | ⟨rfl, rfl⟩
    · rcases h.rest other hother with hother | hother
      · exact .inl (mem_primary_add.mpr (.inl hother))
      · exact .inr (mem_derived_add hother)
    · exact mem_of_add_derived

theorem Holds.congr (h : found.Holds isPrimary isDerived)
    (hprimary : ∀ word, isPrimary word ↔ isPrimary' word)
    (hderived : ∀ word, isDerived word ↔ isDerived' word) : found.Holds isPrimary' isDerived' where
  primary word := (h.primary word).trans (hprimary word)
  derived word hword := (hderived word).mp (h.derived word hword)
  rest word hword := h.rest word ((hderived word).mpr hword)

/-- Headwords are sorted by their length. -/
theorem headwords_eq (found : Candidates) :
    found.headwords = found.primary.insertionSort fun a b => b.length ≤ a.length := by
  have hinsert : ∀ word l, insertByLength word l =
      l.orderedInsert (fun a b : Text => b.length ≤ a.length) word := by
    intro word l
    induction l with
    | nil => rfl
    | cons first rest ih => rw [insertByLength, List.orderedInsert_cons, ih]
  rw [headwords, List.insertionSort]
  congr 1
  funext word l
  exact hinsert word l

theorem mem_headwords : word ∈ found.headwords ↔ word ∈ found.primary := by
  rw [headwords_eq, List.mem_insertionSort]

theorem longestFirst_headwords (found : Candidates) : Template.LongestFirst found.headwords := by
  have htotal : Std.Total fun a b : Text => b.length ≤ a.length := ⟨fun a b => Nat.le_total _ _⟩
  have htrans : IsTrans Text fun a b => b.length ≤ a.length :=
    ⟨fun _ _ _ hab hbc => Nat.le_trans hbc hab⟩
  rw [headwords_eq]
  refine (List.pairwise_insertionSort _ found.primary).imp fun hle hbegins => ?_
  exact hbegins.eq_of_length_le hle

theorem mem_headwords_withDerived {condition : Text → Bool} (h : found.Holds isPrimary isDerived) :
    word ∈ (found.withDerived condition).headwords ↔
      isPrimary word ∨ (isDerived word ∧ condition word = true) := by
  rw [mem_headwords, withDerived, List.mem_append, List.mem_filter, h.primary]
  constructor
  · rintro (hprimary | ⟨hderived, hcondition⟩)
    · exact .inl hprimary
    · exact .inr ⟨h.derived word hderived, hcondition⟩
  · rintro (hprimary | ⟨hderived, hcondition⟩)
    · exact .inl hprimary
    · rcases h.rest word hderived with hin | hin
      · exact .inl ((h.primary word).mp hin)
      · exact .inr ⟨hin, hcondition⟩

end Candidates

/-! ## What is on the lists -/

namespace Entry

/-- Entries that stand for words: they are attested and no affixes. -/
def IsOrdinary (entry : Entry) : Prop :=
  entry.isHypothetical = false ∧ entry.isAffix = false

/-- Entries whose names may have to be taken apart. -/
def IsDerived (entry : Entry) : Prop :=
  entry.hasTag "deriv" = true ∨ entry.name ∈ Affix.valueVerbs

end Entry

/-- The headword lists that depend on the lexicon. -/
inductive HeadwordList where
  | nouns
  | verbs
  | statives
  deriving DecidableEq, Repr

namespace Lexicon

/-- The words that are on a list in any case. -/
def IsPrimary (lexicon : Lexicon) : HeadwordList → Text → Prop
  | .nouns, word => ∃ entry ∈ lexicon.entries,
      entry.IsOrdinary ∧ entry.wordClass = .noun ∧ ¬ entry.IsDerived ∧ entry.name = word
  | .verbs, word => ∃ entry ∈ lexicon.entries,
      entry.IsOrdinary ∧ entry.wordClass = .verb ∧ ¬ entry.IsDerived ∧ entry.name = word
  | .statives, word => word ∈ Affix.valueVerbs ∨ ∃ entry ∈ lexicon.entries,
      entry.IsOrdinary ∧ entry.wordClass = .verb ∧ entry.hasTag "is" = true ∧
        entry.hasTag "deriv" = false ∧ entry.name = word

/-- The words that are on a list if they cannot be taken apart. -/
def IsDerivedWord (lexicon : Lexicon) : HeadwordList → Text → Prop
  | .nouns, word => ∃ entry ∈ lexicon.entries,
      entry.IsOrdinary ∧ entry.wordClass = .noun ∧ entry.IsDerived ∧ entry.name = word
  | .verbs, word => word ∈ Affix.valueVerbs ∨ ∃ entry ∈ lexicon.entries,
      entry.IsOrdinary ∧ entry.wordClass = .verb ∧ entry.IsDerived ∧ entry.name = word
  | .statives, word => ∃ entry ∈ lexicon.entries,
      entry.IsOrdinary ∧ entry.wordClass = .verb ∧ entry.hasTag "is" = true ∧
        entry.hasTag "deriv" = true ∧ entry.name = word

end Lexicon

namespace Vocabulary

def list (found : Vocabulary) : HeadwordList → Candidates
  | .nouns => found.nouns
  | .verbs => found.verbs
  | .statives => found.statives

/-- Whether the name of an entry is put on a list, and as a derived word or not. -/
def listing (list : HeadwordList) (entry : Entry) : Option Bool :=
  if entry.isHypothetical || entry.isAffix then none
  else
    match list with
    | .nouns =>
      if entry.wordClass = .noun then some (entry.hasTag "deriv" || entry.name ∈ Affix.valueVerbs)
      else none
    | .verbs =>
      if entry.wordClass = .verb then some (entry.hasTag "deriv" || entry.name ∈ Affix.valueVerbs)
      else none
    | .statives =>
      if entry.wordClass = .verb ∧ entry.hasTag "is" then some (entry.hasTag "deriv") else none

theorem list_addEntry (found : Vocabulary) (entry : Entry) (list : HeadwordList) :
    (found.addEntry entry).list list =
      match listing list entry with
      | some derived => (found.list list).add entry.name derived
      | none => found.list list := by
  unfold addEntry listing
  split
  · rfl
  · cases hclass : entry.wordClass <;> cases list <;> simp only [Vocabulary.list]
    case verb.statives => cases entry.hasTag "is" <;> simp
    all_goals simp

/-- The candidates of a list after some entries, by what each of them adds to it. -/
theorem holds_foldl {isPrimary isDerived : Text → Prop} (list : HeadwordList)
    (entries : List Entry) {found : Vocabulary} (h : (found.list list).Holds isPrimary isDerived) :
    ((entries.foldl addEntry found).list list).Holds
      (fun word => isPrimary word ∨
        ∃ entry ∈ entries, listing list entry = some false ∧ entry.name = word)
      (fun word => isDerived word ∨
        ∃ entry ∈ entries, listing list entry = some true ∧ entry.name = word) := by
  induction entries generalizing found isPrimary isDerived with
  | nil => exact h.congr (by simp) (by simp)
  | cons entry rest ih =>
    rw [List.foldl_cons]
    cases hlisting : listing list entry with
    | none =>
      have hfound : ((found.addEntry entry).list list).Holds isPrimary isDerived := by
        rw [list_addEntry, hlisting]
        exact h
      refine (ih hfound).congr (fun word => ?_) fun word => ?_
      · simp only [List.mem_cons, exists_eq_or_imp, hlisting, reduceCtorEq, false_and, false_or]
      · simp only [List.mem_cons, exists_eq_or_imp, hlisting, reduceCtorEq, false_and, false_or]
    | some derived =>
      have hfound := h.add entry.name derived
      have hlist : (found.addEntry entry).list list = (found.list list).add entry.name derived := by
        rw [list_addEntry, hlisting]
      rw [← hlist] at hfound
      refine (ih hfound).congr (fun word => ?_) fun word => ?_
      · simp only [List.mem_cons, exists_eq_or_imp, hlisting, Option.some.injEq, or_assoc,
          eq_comm (a := word), and_comm]
      · simp only [List.mem_cons, exists_eq_or_imp, hlisting, Option.some.injEq, or_assoc,
          eq_comm (a := word), and_comm]

theorem listing_eq_some_iff {list : HeadwordList} {entry : Entry} {derived : Bool} :
    listing list entry = some derived ↔ entry.IsOrdinary ∧
      match list with
      | .nouns => entry.wordClass = .noun ∧ (entry.IsDerived ↔ derived = true)
      | .verbs => entry.wordClass = .verb ∧ (entry.IsDerived ↔ derived = true)
      | .statives =>
        entry.wordClass = .verb ∧ entry.hasTag "is" = true ∧ entry.hasTag "deriv" = derived := by
  have hderived : (entry.hasTag "deriv" || entry.name ∈ Affix.valueVerbs) = derived ↔
      (entry.IsDerived ↔ derived = true) := by
    rw [Bool.eq_iff_iff, Bool.or_eq_true, decide_eq_true_iff, Entry.IsDerived]
  unfold listing Entry.IsOrdinary
  cases entry.isHypothetical <;> cases entry.isAffix <;> cases list <;>
    simp only [Bool.or_false, Bool.or_true, Bool.false_eq_true, Bool.true_eq_false, ↓reduceIte,
      Option.ite_none_right_eq_some, Option.some.injEq, reduceCtorEq, hderived, and_assoc, true_and,
      false_and, and_false, and_true]

theorem holds_seeds (list : HeadwordList) : (seeds.list list).Holds
    (fun word => list = .statives ∧ word ∈ Affix.valueVerbs)
    (fun word => list = .verbs ∧ word ∈ Affix.valueVerbs) := by
  have hverbs : seeds.verbs = { primary := [], derived := Affix.valueVerbs } := by decide
  have hstatives : seeds.statives = { primary := Affix.valueVerbs, derived := [] } := by decide
  cases list with
  | nouns => constructor <;> simp [Vocabulary.list, seeds]
  | verbs => constructor <;> simp [Vocabulary.list, hverbs]
  | statives => constructor <;> simp [Vocabulary.list, hstatives]

/-- What the lists hold, whatever the order of the entries. -/
theorem holds_ofLexicon (lexicon : Lexicon) (list : HeadwordList) :
    ((ofLexicon lexicon).list list).Holds (lexicon.IsPrimary list) (lexicon.IsDerivedWord list) := by
  refine (holds_foldl list lexicon.entries (holds_seeds list)).congr (fun word => ?_) fun word => ?_
  · simp only [listing_eq_some_iff]
    cases list <;> simp [Lexicon.IsPrimary, and_assoc]
  · simp only [listing_eq_some_iff]
    cases list <;> simp [Lexicon.IsDerivedWord, and_assoc]

end Vocabulary

/-! ## The templates of a lexicon -/

namespace Lexicon

variable {lexicon : Lexicon} {word : Text}

/-- The words that are headwords of a kind of template if no derived word is. -/
def IsPrimaryHeadword (lexicon : Lexicon) : TemplateKind → Text → Prop
  | .noun, word => lexicon.IsPrimary .nouns word
  | .number, word => word ∈ Affix.numerals
  | .pronounVerb, word => word ∈ Affix.verbalPronouns
  | .verb, word => lexicon.IsPrimary .verbs word
  | .stativeVerb, word => lexicon.IsPrimary .statives word

/-- Whether a word is on a list: in any case, or because no template accepts it without it. -/
def IsListed (lexicon : Lexicon) (list : HeadwordList) (word : Text) : Prop :=
  lexicon.IsPrimary list word ∨ lexicon.IsDerivedWord list word ∧
    ∀ template ∈ lexicon.primaryTemplates, template.accepts word = false

/-- The words that are headwords of a kind of template. -/
def IsHeadword (lexicon : Lexicon) : TemplateKind → Text → Prop
  | .noun, word => lexicon.IsListed .nouns word
  | .number, word => word ∈ Affix.numerals
  | .pronounVerb, word => word ∈ Affix.verbalPronouns
  | .verb, word => lexicon.IsListed .verbs word
  | .stativeVerb, word => lexicon.IsListed .statives word

end Lexicon

namespace TemplateKind

/-- The kinds in the order in which their templates are tried. -/
def all : List TemplateKind :=
  [noun, number, pronounVerb, verb, stativeVerb]

/-- The prefixes of a kind, the empty one first. -/
def fronts : TemplateKind → List Text
  | verb => [] :: Affix.prefixes
  | _ => [[]]

/-- The ending of a kind. -/
def ending : TemplateKind → Ending
  | noun => .noun
  | number => .number
  | pronounVerb => .verb
  | verb => .verb
  | stativeVerb => .stative

end TemplateKind

namespace Template

variable {t : Template}

/-- A template with the prefixes and the ending of its kind and with headwords of which none begins
a later one. -/
structure IsRegular (t : Template) : Prop where
  fronts : [] :: t.prefixes = t.kind.fronts
  ending : t.ending = t.kind.ending
  longestFirst : LongestFirst t.headwords

theorem isRegular_of_mem_templates {found : Vocabulary} (h : t ∈ found.templates) :
    t.IsRegular := by
  simp only [Vocabulary.templates, List.mem_cons, List.not_mem_nil, or_false] at h
  rcases h with rfl | rfl | rfl | rfl | rfl
  · exact ⟨rfl, rfl, Candidates.longestFirst_headwords _⟩
  · exact ⟨rfl, rfl, by rw [LongestFirst]; decide⟩
  · exact ⟨rfl, rfl, by rw [LongestFirst]; decide⟩
  · exact ⟨rfl, rfl, Candidates.longestFirst_headwords _⟩
  · exact ⟨rfl, rfl, Candidates.longestFirst_headwords _⟩

theorem isUnambiguous_ending (kind : TemplateKind) : kind.ending.IsUnambiguous := by
  cases kind
  case noun => exact Ending.isUnambiguous_noun
  case number => exact Ending.isUnambiguous_number
  case stativeVerb => exact Ending.isUnambiguous_stative
  all_goals exact Ending.isUnambiguous_verb

theorem mem_headwords_of_mem_primaryTemplates {lexicon : Lexicon} {word : Text}
    (h : t ∈ lexicon.primaryTemplates) :
    word ∈ t.headwords ↔ lexicon.IsPrimaryHeadword t.kind word := by
  have hlist := fun list => (Vocabulary.holds_ofLexicon lexicon list).primary word
  simp only [Lexicon.primaryTemplates, Vocabulary.templates, List.mem_cons, List.not_mem_nil,
    or_false] at h
  rcases h with rfl | rfl | rfl | rfl | rfl
  · exact Candidates.mem_headwords.trans (hlist .nouns)
  · exact Iff.rfl
  · exact Iff.rfl
  · exact Candidates.mem_headwords.trans (hlist .verbs)
  · exact Candidates.mem_headwords.trans (hlist .statives)

theorem mem_headwords_of_mem_lexicon_templates {lexicon : Lexicon} {word : Text}
    (h : t ∈ lexicon.templates) : word ∈ t.headwords ↔ lexicon.IsHeadword t.kind word := by
  have hcondition : (!anyAccepts lexicon.primaryTemplates word) = true ↔
      ∀ template ∈ lexicon.primaryTemplates, template.accepts word = false := by
    rw [Bool.not_eq_true', anyAccepts, List.any_eq_false]
    simp only [Bool.not_eq_true]
  have hlist : ∀ list, word ∈ (((Vocabulary.ofLexicon lexicon).list list).withDerived fun word =>
      !anyAccepts lexicon.primaryTemplates word).headwords ↔
        lexicon.IsPrimary list word ∨ (lexicon.IsDerivedWord list word ∧
          (!anyAccepts lexicon.primaryTemplates word) = true) :=
    fun list => Candidates.mem_headwords_withDerived (Vocabulary.holds_ofLexicon lexicon list)
  simp only [hcondition] at hlist
  simp only [Lexicon.templates, Vocabulary.templates, List.mem_cons, List.not_mem_nil,
    or_false] at h
  rcases h with rfl | rfl | rfl | rfl | rfl
  · exact hlist .nouns
  · exact Iff.rfl
  · exact Iff.rfl
  · exact hlist .verbs
  · exact hlist .statives

end Template

end Klingon
