import Mathlib.InformationTheory.Coding.UniquelyDecodable
import Klingon.Template
import Klingon.Proofs.Text

/-!
# What endings spell

An ending describes texts: one suffix of each position that is filled, from left to right. A text is
read if it can be divided in this way, and then it can be divided into the same suffixes only,
although a rover may often stand in several positions. The endings are also written out as columns
of texts, of which one text each is taken.
-/

namespace Klingon

open InformationTheory (UniquelyDecodable)

/-! ## Columns of texts -/

/-- A text made of one text of each column. -/
inductive Composes : List (List Text) → Text → Prop
  | nil : Composes [] []
  | cons {column : List Text} {columns : List (List Text)} {piece rest : Text}
      (hpiece : piece ∈ column) (hrest : Composes columns rest) :
      Composes (column :: columns) (piece ++ rest)

namespace Composes

variable {column : List Text} {columns front back : List (List Text)} {text : Text}

theorem nil_iff : Composes [] text ↔ text = [] := by
  constructor
  · rintro ⟨⟩
    rfl
  · rintro rfl
    exact .nil

theorem cons_iff : Composes (column :: columns) text ↔
    ∃ piece ∈ column, ∃ rest, text = piece ++ rest ∧ Composes columns rest := by
  constructor
  · intro h
    cases h with
    | cons hpiece hrest => exact ⟨_, hpiece, _, rfl, hrest⟩
  · rintro ⟨piece, hpiece, rest, rfl, hrest⟩
    exact .cons hpiece hrest

end Composes

namespace Ending

variable {ending : Ending} {text : Text} {pieces pieces' : List (PieceRole × Text)}

/-! ## The divisions of a text -/

/-- The suffixes that an ending divides a text into, with their positions. -/
inductive Spells : Ending → Text → List (PieceRole × Text) → Prop
  | stop : Spells .stop [] []
  | fill {p : Position} {required : Bool} {next : Ending} {spelling rest : Text}
      {pieces : List (PieceRole × Text)} (hmem : spelling ∈ p.spellings)
      (hnext : Spells next rest pieces) :
      Spells (.position p required next) (spelling ++ rest) ((p.role, spelling) :: pieces)
  | skip {p : Position} {next : Ending} {text : Text} {pieces : List (PieceRole × Text)}
      (hnext : Spells next text pieces) : Spells (.position p false next) text pieces
  | first {one other : Ending} {text : Text} {pieces : List (PieceRole × Text)}
      (h : Spells one text pieces) : Spells (.either one other) text pieces
  | second {one other : Ending} {text : Text} {pieces : List (PieceRole × Text)}
      (h : Spells other text pieces) : Spells (.either one other) text pieces

/-- What is read is one of the divisions. -/
theorem spells_of_read? (h : ending.read? text = some pieces) : ending.Spells text pieces := by
  induction ending generalizing text pieces with
  | stop =>
    rw [read?] at h
    split at h
    · next htext =>
      cases h
      rw [htext]
      exact .stop
    · cases h
  | position p required next ih =>
    have hfilled : (p.spellings.findSome? fun spelling => do
        let rest ← Text.dropStart? spelling text
        let pieces ← next.read? rest
        return (p.role, spelling) :: pieces) = some pieces →
        (position p required next).Spells text pieces := by
      intro hfind
      obtain ⟨spelling, hmem, hspelling⟩ := List.exists_of_findSome?_eq_some hfind
      obtain ⟨rest, hrest, hpieces⟩ := Option.bind_eq_some_iff.mp hspelling
      obtain ⟨more, hmore, heq⟩ := Option.bind_eq_some_iff.mp hpieces
      cases heq
      rw [Text.eq_append_of_dropStart? hrest]
      exact .fill hmem (ih hmore)
    rw [read?] at h
    cases required with
    | true => exact hfilled h
    | false =>
      rcases Option.or_eq_some_iff.mp h with hfind | ⟨_, hskip⟩
      · exact hfilled hfind
      · exact .skip (ih hskip)
  | either one other ihone ihother =>
    rw [read?] at h
    rcases Option.or_eq_some_iff.mp h with hone | ⟨_, hother⟩
    · exact .first (ihone hone)
    · exact .second (ihother hother)

/-- A text that can be divided is read. -/
theorem isSome_read?_of_spells (h : ending.Spells text pieces) : (ending.read? text).isSome := by
  induction h with
  | stop => rfl
  | @fill p required next spelling rest pieces hmem hnext ih =>
    have hfilled : (p.spellings.findSome? fun spelling' => do
        let rest' ← Text.dropStart? spelling' (spelling ++ rest)
        let pieces ← next.read? rest'
        return (p.role, spelling') :: pieces).isSome := by
      obtain ⟨more, hmore⟩ := Option.isSome_iff_exists.mp ih
      rw [List.findSome?_isSome_iff]
      refine ⟨spelling, hmem, ?_⟩
      simp [Text.dropStart?_append, hmore]
    rw [read?]
    cases required with
    | true => exact hfilled
    | false => exact Option.isSome_or.trans (by rw [hfilled]; rfl)
  | skip hnext ih =>
    rw [read?]
    exact Option.isSome_or.trans (by rw [ih, Bool.or_true])
  | first h ih => exact Option.isSome_or.trans (by rw [ih]; rfl)
  | second h ih => exact Option.isSome_or.trans (by rw [ih, Bool.or_true])

theorem isSome_read?_iff : (ending.read? text).isSome ↔ ∃ pieces, ending.Spells text pieces := by
  constructor
  · intro h
    obtain ⟨pieces, hpieces⟩ := Option.isSome_iff_exists.mp h
    exact ⟨pieces, spells_of_read? hpieces⟩
  · rintro ⟨pieces, h⟩
    exact isSome_read?_of_spells h

/-- The suffixes of a division make up the text. -/
theorem Spells.flatten_eq (h : ending.Spells text pieces) : (pieces.map (·.2)).flatten = text := by
  induction h with
  | stop => rfl
  | fill hmem hnext ih => rw [List.map_cons, List.flatten_cons, ih]
  | skip hnext ih => exact ih
  | first h ih => exact ih
  | second h ih => exact ih

/-! ## Endings as columns -/

/-- The columns of the ways to go through an ending. -/
def columns : Ending → List (List (List Text))
  | stop => [[]]
  | position p required next =>
    next.columns.map ((if required then p.spellings else [] :: p.spellings) :: ·)
  | either one other => one.columns ++ other.columns

theorem exists_spells_iff : (∃ pieces, ending.Spells text pieces) ↔
    ∃ columns ∈ ending.columns, Composes columns text := by
  induction ending generalizing text with
  | stop =>
    simp only [columns, List.mem_singleton, exists_eq_left, Composes.nil_iff]
    constructor
    · rintro ⟨pieces, ⟨⟩⟩
      rfl
    · rintro rfl
      exact ⟨[], .stop⟩
  | position p required next ih =>
    simp only [columns, List.mem_map, exists_exists_and_eq_and, Composes.cons_iff]
    constructor
    · rintro ⟨pieces, h⟩
      cases h with
      | @fill _ _ _ spelling rest pieces hmem hnext =>
        obtain ⟨columns, hcolumns, hrest⟩ := ih.mp ⟨pieces, hnext⟩
        refine ⟨columns, hcolumns, spelling, ?_, rest, rfl, hrest⟩
        split
        · exact hmem
        · exact List.mem_cons_of_mem _ hmem
      | skip hnext =>
        obtain ⟨columns, hcolumns, htext⟩ := ih.mp ⟨pieces, hnext⟩
        exact ⟨columns, hcolumns, [], List.mem_cons_self, text, rfl, htext⟩
    · rintro ⟨columns, hcolumns, spelling, hmem, rest, rfl, hrest⟩
      obtain ⟨pieces, hnext⟩ := ih.mpr ⟨columns, hcolumns, hrest⟩
      cases required with
      | true => exact ⟨_, .fill hmem hnext⟩
      | false =>
        rcases List.mem_cons.mp hmem with rfl | hmem
        · exact ⟨pieces, .skip hnext⟩
        · exact ⟨_, .fill hmem hnext⟩
  | either one other ihone ihother =>
    simp only [columns, List.mem_append, or_and_right, exists_or, ← ihone, ← ihother]
    constructor
    · rintro ⟨pieces, h⟩
      cases h with
      | first h => exact .inl ⟨pieces, h⟩
      | second h => exact .inr ⟨pieces, h⟩
    · rintro (⟨pieces, h⟩ | ⟨pieces, h⟩)
      · exact ⟨pieces, .first h⟩
      · exact ⟨pieces, .second h⟩

/-! ## One division only -/

/-- The suffixes that may stand anywhere in an ending. -/
def spellings : Ending → List Text
  | stop => []
  | position p _ next => p.spellings ++ next.spellings
  | either one other => one.spellings ++ other.spellings

theorem Spells.mem_spellings (h : ending.Spells text pieces) :
    ∀ piece ∈ pieces, piece.2 ∈ ending.spellings := by
  induction h with
  | stop => exact fun _ hpiece => absurd hpiece List.not_mem_nil
  | fill hmem hnext ih =>
    intro piece hpiece
    rcases List.mem_cons.mp hpiece with rfl | hpiece
    · exact List.mem_append_left _ hmem
    · exact List.mem_append_right _ (ih piece hpiece)
  | skip hnext ih => exact fun piece hpiece => List.mem_append_right _ (ih piece hpiece)
  | first h ih => exact fun piece hpiece => List.mem_append_left _ (ih piece hpiece)
  | second h ih => exact fun piece hpiece => List.mem_append_right _ (ih piece hpiece)

/-- Words none of which begins another are told apart from the left. -/
theorem uniquelyDecodable_of_prefixFree {code : List Text} (hnil : [] ∉ code)
    (hfree : ∀ a ∈ code, ∀ b ∈ code, a <+: b → a = b) :
    UniquelyDecodable {word : Text | word ∈ code} := by
  intro l l' hl hl' heq
  induction l generalizing l' with
  | nil =>
    cases l' with
    | nil => rfl
    | cons b l' =>
      have hb : b = [] := (List.append_eq_nil_iff.mp heq.symm).1
      exact absurd (hb ▸ hl' b List.mem_cons_self) hnil
  | cons a l ih =>
    cases l' with
    | nil =>
      have ha : a = [] := (List.append_eq_nil_iff.mp heq).1
      exact absurd (ha ▸ hl a List.mem_cons_self) hnil
    | cons b l' =>
      have ha := hl a List.mem_cons_self
      have hb := hl' b List.mem_cons_self
      rw [List.flatten_cons, List.flatten_cons] at heq
      have hab : a = b := by
        rcases List.append_eq_append_iff.mp heq with ⟨more, hmore, _⟩ | ⟨more, hmore, _⟩
        · exact hfree a ha b hb ⟨more, hmore.symm⟩
        · exact (hfree b hb a ha ⟨more, hmore.symm⟩).symm
      subst hab
      have htail := ih l' (fun w hw => hl w (List.mem_cons_of_mem _ hw))
        (fun w hw => hl' w (List.mem_cons_of_mem _ hw)) (List.append_cancel_left heq)
      rw [htail]

/-- The suffixes of nouns and verbs. None of them begins another. -/
def nounAndVerbSpellings : List Text :=
  [SuffixSlot.n1, .n2, .n3, .n4, .n5].flatMap (Affix.spellings · .noun) ++
  [SuffixSlot.vr, .v1, .v2, .v3, .v4, .v5, .v6, .v7, .v8, .vq, .v9].flatMap
    (Affix.spellings · .verb)

theorem prefixFree_nounAndVerbSpellings :
    ∀ a ∈ nounAndVerbSpellings, ∀ b ∈ nounAndVerbSpellings, a <+: b → a = b := by
  decide +kernel

theorem uniquelyDecodable_nounAndVerbSpellings :
    UniquelyDecodable {word : Text | word ∈ nounAndVerbSpellings} :=
  uniquelyDecodable_of_prefixFree (by decide +kernel) prefixFree_nounAndVerbSpellings

/-- An ending divides a text into the same suffixes in all ways. -/
def IsUnambiguous (ending : Ending) : Prop :=
  ∀ text pieces pieces', ending.Spells text pieces → ending.Spells text pieces' →
    pieces.map (·.2) = pieces'.map (·.2)

theorem isUnambiguous_of_subset (h : ending.spellings ⊆ nounAndVerbSpellings) :
    ending.IsUnambiguous := by
  intro text pieces pieces' hpieces hpieces'
  have hcode : ∀ {pieces}, ending.Spells text pieces →
      ∀ word ∈ pieces.map (·.2), word ∈ nounAndVerbSpellings := by
    intro pieces hpieces word hword
    obtain ⟨piece, hpiece, rfl⟩ := List.mem_map.mp hword
    exact h (hpieces.mem_spellings piece hpiece)
  exact uniquelyDecodable_nounAndVerbSpellings _ _ (hcode hpieces) (hcode hpieces')
    (hpieces.flatten_eq.trans hpieces'.flatten_eq.symm)

theorem spellings_noun_subset : noun.spellings ⊆ nounAndVerbSpellings := by
  decide +kernel

theorem spellings_verb_subset : verb.spellings ⊆ nounAndVerbSpellings := by
  decide +kernel

theorem spellings_stative_subset : stative.spellings ⊆ nounAndVerbSpellings := by
  decide +kernel

theorem isUnambiguous_noun : noun.IsUnambiguous :=
  isUnambiguous_of_subset spellings_noun_subset

theorem isUnambiguous_verb : verb.IsUnambiguous :=
  isUnambiguous_of_subset spellings_verb_subset

theorem isUnambiguous_stative : stative.IsUnambiguous :=
  isUnambiguous_of_subset spellings_stative_subset

/-- All ways to fill the positions of an ending. -/
def fillings : Ending → List (List Text)
  | stop => [[]]
  | position p required next =>
    p.spellings.flatMap (fun spelling => next.fillings.map (spelling :: ·)) ++
      if required then [] else next.fillings
  | either one other => one.fillings ++ other.fillings

theorem Spells.mem_fillings (h : ending.Spells text pieces) :
    pieces.map (·.2) ∈ ending.fillings := by
  induction h with
  | stop => exact List.mem_singleton_self []
  | fill hmem hnext ih =>
    refine List.mem_append_left _ (List.mem_flatMap.mpr ⟨_, hmem, ?_⟩)
    exact List.mem_map_of_mem ih
  | skip hnext ih => exact List.mem_append_right _ ih
  | first h ih => exact List.mem_append_left _ ih
  | second h ih => exact List.mem_append_right _ ih

/-- Number suffixes begin one another, but no two ways to fill the positions look alike. -/
theorem isUnambiguous_number : number.IsUnambiguous := by
  intro text pieces pieces' hpieces hpieces'
  have hinj : ∀ l ∈ number.fillings, ∀ l' ∈ number.fillings, l.flatten = l'.flatten → l = l' := by
    decide +kernel
  exact hinj _ hpieces.mem_fillings _ hpieces'.mem_fillings
    (hpieces.flatten_eq.trans hpieces'.flatten_eq.symm)

end Ending

end Klingon
