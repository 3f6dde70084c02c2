import Mathlib.Data.List.TakeWhile
import Klingon.Proofs.Text
import Klingon.Rule.Wording

/-!
# Filling in wordings

A wording is read in one way, whatever the groups are: a dollar sign, a name as long as it goes and
the mark for headwords if it follows make a reference, and every other character stands for itself.
Filling a wording in puts the words of a group in the place of each reference to it and leaves the
rest as it is. So what is inserted is not read.
-/

namespace Klingon

/-- No name goes on here. -/
def EndsName (rest : Text) : Prop :=
  ∀ c ∈ rest.head?, Text.isNameChar c = false

/-- How a wording is read. -/
inductive ReadsWording : Text → List WordingPiece → Prop
  | nil : ReadsWording [] []
  | literal {c : Char} {rest : Text} {pieces : List WordingPiece} : (c = '$' → EndsName rest) →
    ReadsWording rest pieces → ReadsWording (c :: rest) (.literal c :: pieces)
  | byWord {name rest : Text} {pieces : List WordingPiece} : name ≠ [] →
    (∀ c ∈ name, Text.isNameChar c = true) → EndsName rest →
    ¬ WordingPiece.headwordMark <+: rest → ReadsWording rest pieces →
    ReadsWording ('$' :: (name ++ rest)) (.reference name false :: pieces)
  | byHeadword {name rest : Text} {pieces : List WordingPiece} : name ≠ [] →
    (∀ c ∈ name, Text.isNameChar c = true) → ReadsWording rest pieces →
    ReadsWording ('$' :: (name ++ (WordingPiece.headwordMark ++ rest)))
      (.reference name true :: pieces)

variable {c : Char} {name rest wording : Text} {pieces : List WordingPiece}

/-! ## Names -/

theorem takeWhile_eq_nil_of_endsName (h : EndsName rest) : rest.takeWhile Text.isNameChar = [] := by
  cases rest with
  | nil => rfl
  | cons c rest => exact List.takeWhile_cons_of_neg (by simp [h c rfl])

/-- A name is the longest run of name characters. -/
theorem takeWhile_of_endsName (hname : ∀ c ∈ name, Text.isNameChar c = true) (h : EndsName rest) :
    (name ++ rest).takeWhile Text.isNameChar = name := by
  rw [List.takeWhile_append_of_pos hname, takeWhile_eq_nil_of_endsName h, List.append_nil]

/-- Every text begins with a name as long as it goes, which may be empty. -/
theorem exists_name (text : Text) : ∃ name rest, text = name ++ rest ∧
    (∀ c ∈ name, Text.isNameChar c = true) ∧ EndsName rest := by
  induction text with
  | nil => exact ⟨[], [], rfl, fun _ hc => absurd hc List.not_mem_nil, fun _ hc => by cases hc⟩
  | cons c text ih =>
    cases hc : Text.isNameChar c with
    | true =>
      obtain ⟨name, rest, rfl, hname, hends⟩ := ih
      exact ⟨c :: name, rest, rfl, List.forall_mem_cons.mpr ⟨hc, hname⟩, hends⟩
    | false =>
      refine ⟨[], c :: text, rfl, fun _ hin => absurd hin List.not_mem_nil, ?_⟩
      rintro d ⟨⟩
      exact hc

/-- The mark for headwords belongs to no name. -/
theorem endsName_headwordMark (rest : Text) : EndsName (WordingPiece.headwordMark ++ rest) := by
  rintro c ⟨⟩
  decide +kernel

/-! ## The only reading -/

theorem wordingPieces_literal (h : c = '$' → EndsName rest) :
    wordingPieces (c :: rest) = .literal c :: wordingPieces rest := by
  have hno : ¬ (c = '$' ∧ rest.takeWhile Text.isNameChar ≠ []) := by
    rintro ⟨hc, hne⟩
    exact hne (takeWhile_eq_nil_of_endsName (h hc))
  rw [wordingPieces]
  exact if_neg hno

theorem wordingPieces_reference (hne : name ≠ []) (hname : ∀ c ∈ name, Text.isNameChar c = true)
    (hends : EndsName rest) :
    wordingPieces ('$' :: (name ++ rest)) =
      match Text.dropStart? WordingPiece.headwordMark rest with
      | some after => .reference name true :: wordingPieces after
      | none => .reference name false :: wordingPieces rest := by
  have hrun := takeWhile_of_endsName hname hends
  have hrest : (name ++ rest).drop name.length = rest := List.drop_left
  rw [wordingPieces]
  simp only [hrun, hrest]
  rw [if_pos ⟨trivial, hne⟩]
  split
  · next after hafter =>
    rw [hrun, hrest] at hafter
    rw [hafter]
  · next hnone =>
    rw [hrun, hrest] at hnone
    rw [hnone]

theorem ReadsWording.eq_wordingPieces (h : ReadsWording wording pieces) :
    pieces = wordingPieces wording := by
  induction h with
  | nil => rw [wordingPieces]
  | literal hdollar _ ih => rw [wordingPieces_literal hdollar, ih]
  | @byWord name rest pieces hne hname hends hmark _ ih =>
    have hnone : Text.dropStart? WordingPiece.headwordMark rest = none := by
      rw [Option.eq_none_iff_forall_ne_some]
      intro after hafter
      exact hmark ⟨after, (Text.eq_append_of_dropStart? hafter).symm⟩
    rw [wordingPieces_reference hne hname hends, hnone, ih]
  | @byHeadword name rest pieces hne hname _ ih =>
    rw [wordingPieces_reference hne hname (endsName_headwordMark rest), Text.dropStart?_append, ih]

/-- Every wording can be read. -/
theorem exists_readsWording (wording : Text) : ∃ pieces, ReadsWording wording pieces := by
  -- A reference is read at once, so the rest is shorter but need not be the tail.
  induction hlength : wording.length using Nat.strong_induction_on generalizing wording with
  | _ length ih =>
    subst hlength
    cases wording with
    | nil => exact ⟨_, .nil⟩
    | cons c text =>
      obtain ⟨name, rest, rfl, hname, hends⟩ := exists_name text
      by_cases href : c = '$' ∧ name ≠ []
      · obtain ⟨rfl, hne⟩ := href
        have hrest : rest.length < ('$' :: (name ++ rest)).length := by
          rw [List.length_cons, List.length_append]
          omega
        by_cases hmark : WordingPiece.headwordMark <+: rest
        · obtain ⟨after, rfl⟩ := hmark
          have hafter := (List.suffix_append WordingPiece.headwordMark after).length_le
          obtain ⟨pieces, hpieces⟩ := ih after.length (Nat.lt_of_le_of_lt hafter hrest) after rfl
          exact ⟨_, .byHeadword hne hname hpieces⟩
        · obtain ⟨pieces, hpieces⟩ := ih rest.length hrest rest rfl
          exact ⟨_, .byWord hne hname hends hmark hpieces⟩
      · obtain ⟨pieces, hpieces⟩ := ih (name ++ rest).length (Nat.lt_succ_self _) _ rfl
        refine ⟨_, .literal (fun hc => ?_) hpieces⟩
        rwa [not_not.mp fun hne => href ⟨hc, hne⟩]

/-- Reading a wording takes no character away. -/
theorem ReadsWording.written_eq (h : ReadsWording wording pieces) :
    pieces.flatMap WordingPiece.written = wording := by
  induction h with
  | nil => rfl
  | literal _ _ ih => rw [List.flatMap_cons, ih]; rfl
  | byWord _ _ _ _ _ ih => simp [List.flatMap_cons, ih, WordingPiece.written]
  | byHeadword _ _ _ ih => simp [List.flatMap_cons, ih, WordingPiece.written]

/-! ## Groups in the places of their names -/

/-- The words of a group with spaces between them, or the headwords that their first analyses give. -/
def groupWords? (tokens : List Token) (groups : List (Text × List Nat)) (name : Text)
    (byHeadword : Bool) : Option Text :=
  (groups.lookup name).map fun numbers =>
    List.intercalate [' '] <| (numbers.filterMap (tokens[·]?)).map fun token =>
      if byHeadword then (token.analyses.head?.map (·.headword)).getD token.text else token.text

/-- A piece with a text in the place of a reference, if there is one for it. -/
def WordingPiece.filled (inserted? : Text → Bool → Option Text) : WordingPiece → Text
  | literal c => [c]
  | reference name byHeadword =>
    (inserted? name byHeadword).getD (reference name byHeadword).written

theorem WordingPiece.spell_eq_filled (tokens : List Token) (groups : List (Text × List Nat))
    (piece : WordingPiece) : piece.spell tokens groups = piece.filled (groupWords? tokens groups) := by
  have hwords : ∀ byHeadword, (fun token : Token =>
      if byHeadword then token.headword else token.text) = fun token =>
        if byHeadword = true then (token.analyses.head?.map (·.headword)).getD token.text
        else token.text := by
    intro byHeadword
    funext token
    rw [Token.headword]
    cases token.analyses <;> rfl
  cases piece with
  | literal c => rfl
  | reference name byHeadword =>
    rw [spell, filled, groupWords?, ← hwords]
    cases groups.lookup name <;> rfl

/-- A wording has one reading, which takes every character into account and does not depend on the
groups. What is filled in for the tokens of any groups is this reading with the words of the groups in
the places of their references. -/
theorem fillIn_in_one_pass (wording : Text) :
    ∃ pieces, ReadsWording wording pieces ∧
      (∀ other, ReadsWording wording other → other = pieces) ∧
      pieces.flatMap WordingPiece.written = wording ∧
      ∀ tokens groups, fillIn tokens groups wording =
        pieces.flatMap (WordingPiece.filled (groupWords? tokens groups)) := by
  obtain ⟨pieces, hreads⟩ := exists_readsWording wording
  have hpieces := hreads.eq_wordingPieces
  refine ⟨pieces, hreads, fun other hother => ?_, hreads.written_eq, fun tokens groups => ?_⟩
  · rw [hother.eq_wordingPieces, hpieces]
  · rw [fillIn, ← hpieces]
    congr 1
    funext piece
    exact piece.spell_eq_filled tokens groups

/-- The name goes as far as it can, and a dollar sign in a text that is put in is not read again. -/
example : fillIn [⟨0, .word, "$to", []⟩, ⟨3, .word, "Duj", []⟩] [("t", [0]), ("to", [1])]
    "$t $to\\lemma $tor $" = "$to Duj $tor $".toList := by decide +kernel

end Klingon
