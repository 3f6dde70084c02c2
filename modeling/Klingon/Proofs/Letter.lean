import Mathlib.Data.List.Infix
import Klingon.Letter

/-!
# Words made of letters

A letter is read as it is written unless a longer letter begins with it and goes on with the letter
behind it. No letter begins with h, so this happens in one way only: an n before gh is read as ng,
and the h that is left is passed over. All other words of letters are read back without loss.
-/

namespace Klingon.Letter

variable {letter : Letter} {letters : List Letter} {rest : Text}

theorem spell_cons (letter : Letter) (letters : List Letter) :
    spell (letter :: letters) = letter.spelling ++ spell letters :=
  List.flatMap_cons

theorem spell_append (front back : List Letter) :
    spell (front ++ back) = spell front ++ spell back :=
  List.flatMap_append

theorem spelling_ne_nil (letter : Letter) : letter.spelling ≠ [] := by
  cases letter <;> decide

theorem spell_eq_nil_iff : spell letters = [] ↔ letters = [] := by
  cases letters with
  | nil => exact iff_of_true rfl rfl
  | cons letter letters =>
    rw [spell_cons]
    exact iff_of_false (List.append_ne_nil_of_left_ne_nil (spelling_ne_nil letter) _)
      (List.cons_ne_nil letter letters)

theorem head?_spell_cons (letter : Letter) (letters : List Letter) :
    (spell (letter :: letters)).head? = letter.spelling.head? := by
  rw [spell_cons, List.head?_append_of_ne_nil _ (spelling_ne_nil letter)]

theorem head?_spelling_ne_h (letter : Letter) : letter.spelling.head? ≠ some 'h' := by
  cases letter <;> decide

theorem eq_gh_of_head?_spelling (h : letter.spelling.head? = some 'g') : letter = .gh := by
  cases letter <;> revert h <;> decide

/-- No word of letters begins with h. -/
theorem head?_spell_ne_h (letters : List Letter) : (spell letters).head? ≠ some 'h' := by
  cases letters with
  | nil => simp [spell]
  | cons letter letters =>
    rw [head?_spell_cons]
    exact head?_spelling_ne_h letter

/-- So an l at the beginning of such a word is not followed by h. -/
theorem not_lh_prefix_spell (letters : List Letter) : ¬ ['l', 'h'] <+: spell letters := by
  rintro ⟨behind, heq⟩
  cases letters with
  | nil => cases heq
  | cons letter letters =>
    rw [spell_cons] at heq
    cases letter
    case l =>
      have htail : 'h' :: behind = spell letters := List.tail_eq_of_cons_eq heq
      exact head?_spell_ne_h letters (htail ▸ rfl)
    all_goals simp [spelling] at heq

/-- A letter is read as it is written if neither ng nor tlh can be read in its place. -/
theorem ofText_spelling_append (hng : letter = .n → rest.head? ≠ some 'g')
    (htlh : letter = .t → ¬ ['l', 'h'] <+: rest) :
    ofText (letter.spelling ++ rest) = letter :: ofText rest := by
  cases letter
  case n =>
    cases rest with
    | nil => rfl
    | cons c rest =>
      have hc : c ≠ 'g' := fun heq => hng rfl (congrArg some heq)
      show ofText ('n' :: c :: rest) = _
      rw [ofText]
      · rfl
      all_goals simp [hc]
  case t =>
    have hlh : ∀ behind, rest ≠ 'l' :: 'h' :: behind := by
      intro behind heq
      exact htlh rfl ⟨behind, heq.symm⟩
    show ofText ('t' :: rest) = _
    rw [ofText]
    · rfl
    all_goals simp [hlh]
  all_goals rfl

/-- The letters that a word of letters is read as. -/
def reread : List Letter → List Letter
  | [] => []
  | .n :: .gh :: rest => .ng :: reread rest
  | letter :: rest => letter :: reread rest

theorem ofText_spell (letters : List Letter) : ofText (spell letters) = reread letters := by
  fun_induction reread letters with
  | case1 => rfl
  | case2 rest ih =>
    have hng : ofText (spell (.n :: .gh :: rest)) = .ng :: ofText (spell rest) := rfl
    rw [hng, ih]
  | case3 letter rest hother ih =>
    rw [spell_cons, ofText_spelling_append, ih]
    · intro hn hg
      cases rest with
      | nil => cases hg
      | cons next rest =>
        rw [head?_spell_cons] at hg
        exact hother rest hn (congrArg (· :: rest) (eq_gh_of_head?_spelling hg))
    · exact fun _ => not_lh_prefix_spell rest

/-- An n before gh, and nothing else, keeps letters from being read back. -/
theorem reread_eq_self_iff : reread letters = letters ↔ ¬ [.n, .gh] <:+: letters := by
  fun_induction reread letters with
  | case1 => simp
  | case2 rest ih =>
    have hhead : .ng :: reread rest ≠ .n :: .gh :: rest := fun h => nomatch List.head_eq_of_cons_eq h
    have hinfix : [.n, .gh] <:+: .n :: .gh :: rest := (List.prefix_append [.n, .gh] rest).isInfix
    exact iff_of_false hhead (not_not_intro hinfix)
  | case3 letter rest hother ih =>
    have hfront : ¬ [.n, .gh] <+: letter :: rest := by
      rintro ⟨behind, heq⟩
      cases heq
      exact hother behind rfl rfl
    rw [List.cons.injEq, and_iff_right rfl, ih, List.infix_cons_iff, or_iff_right hfront]

/-- Letters that are not read back do not spell the word either: the h of gh is gone. -/
theorem spell_reread_eq_iff : spell (reread letters) = spell letters ↔ reread letters = letters := by
  fun_induction reread letters with
  | case1 => simp
  | case2 rest ih =>
    refine iff_of_false (fun heq => ?_) fun h => nomatch List.head_eq_of_cons_eq h
    have hrest : spell (reread rest) = 'h' :: spell rest :=
      List.tail_eq_of_cons_eq (List.tail_eq_of_cons_eq heq)
    exact head?_spell_ne_h (reread rest) (hrest ▸ rfl)
  | case3 letter rest hother ih =>
    rw [spell_cons, spell_cons, List.append_cancel_left_eq, ih, List.cons.injEq,
      and_iff_right rfl]

/-- The letters read from a word of letters spell the word, and are the letters it was written with,
exactly if no n stands before gh. -/
theorem letters_read_back_iff (letters : List Letter) :
    (spell (ofText (spell letters)) = spell letters ↔ ¬ [.n, .gh] <:+: letters) ∧
    (ofText (spell letters) = letters ↔ ¬ [.n, .gh] <:+: letters) := by
  rw [ofText_spell]
  exact ⟨spell_reread_eq_iff.trans reread_eq_self_iff, reread_eq_self_iff⟩

/-- The ritual of ascension loses its h. -/
theorem nenghep_not_read_back :
    spell (ofText (spell [.n, .e, .n, .gh, .e, .p])) ≠ spell [.n, .e, .n, .gh, .e, .p] := by
  decide

end Klingon.Letter
