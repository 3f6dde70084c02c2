import Klingon.Text

/-!
# Beginnings, lengths and separators of texts
-/

namespace Klingon.Text

variable {start more text rest : Text}

theorem dropStart?_append (start rest : Text) : dropStart? start (start ++ rest) = some rest := by
  induction start with
  | nil => rfl
  | cons c start ih => rw [List.cons_append, dropStart?, if_pos rfl, ih]

/-- What follows a beginning is what it takes to make up the text. -/
theorem dropStart?_eq_some_iff : dropStart? start text = some rest ↔ text = start ++ rest := by
  constructor
  · exact eq_append_of_dropStart?
  · rintro rfl
    exact dropStart?_append start rest

theorem byteLength_append (front back : Text) :
    byteLength (front ++ back) = byteLength front + byteLength back := by
  induction front with
  | nil => exact (Nat.zero_add _).symm
  | cons c front ih => rw [List.cons_append, byteLength, byteLength, ih, Nat.add_assoc]

/-- A text is cut at its first separator. -/
theorem cut?_append {sep : Char} {front : Text} (h : sep ∉ front) (back : Text) :
    cut? sep (front ++ sep :: back) = some (front, back) := by
  induction front with
  | nil => exact if_pos rfl
  | cons c front ih =>
    have hc : c ≠ sep := by
      rintro rfl
      exact h List.mem_cons_self
    have hfront : sep ∉ front := fun hin => h (List.mem_cons_of_mem _ hin)
    rw [List.cons_append, cut?, if_neg hc, ih hfront, Option.map_some]

theorem cut?_eq_none_iff {sep : Char} : cut? sep text = none ↔ sep ∉ text := by
  induction text with
  | nil => simp [cut?]
  | cons c text ih =>
    rw [cut?, List.mem_cons, not_or, ← ih]
    split
    · next hc => simp [hc]
    · next hc => rw [Option.map_eq_none_iff, and_iff_right (Ne.symm hc)]

theorem cut?_eq_some_iff {sep : Char} {front back : Text} :
    cut? sep text = some (front, back) ↔ text = front ++ sep :: back ∧ sep ∉ front := by
  constructor
  · intro h
    induction text generalizing front with
    | nil => cases h
    | cons c text ih =>
      rw [cut?] at h
      split at h
      · next hc =>
        cases h
        rw [hc]
        exact ⟨rfl, List.not_mem_nil⟩
      · next hc =>
        obtain ⟨⟨before, after⟩, hcut, heq⟩ := Option.map_eq_some_iff.mp h
        cases heq
        obtain ⟨rfl, hbefore⟩ := ih hcut
        exact ⟨rfl, List.not_mem_cons_of_ne_of_not_mem (Ne.symm hc) hbefore⟩
  · rintro ⟨rfl, hfront⟩
    exact cut?_append hfront back

/-- Texts that are joined with a separator are split where each of them is, and between them. -/
theorem splitOn_intercalate {sep : Char} {texts : List Text} (h : texts ≠ []) :
    (List.intercalate [sep] texts).splitOn sep = texts.flatMap (·.splitOn sep) := by
  induction texts with
  | nil => exact absurd rfl h
  | cons first rest ih =>
    cases rest with
    | nil => rw [List.intercalate_singleton, List.flatMap_singleton]
    | cons next rest =>
      rw [List.intercalate_cons_cons, List.append_assoc, List.singleton_append,
        List.splitOn_append_cons_self, ih (List.cons_ne_nil next rest)]
      exact List.flatMap_cons.symm

end Klingon.Text
