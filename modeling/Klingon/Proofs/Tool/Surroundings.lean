import Klingon.Tool.Surroundings

/-!
# Lines with their ends

Lines that hold no line feed are read back from the text that they make. Lines that are separated by
line feeds lack the end of the last one.
-/

namespace Klingon

theorem endLines_cons (line : Text) (lines : List Text) :
    endLines (line :: lines) = line ++ '\n' :: endLines lines := by
  rw [endLines, List.flatMap_cons, List.append_assoc]
  rfl

theorem endLines_append (lines more : List Text) :
    endLines (lines ++ more) = endLines lines ++ endLines more :=
  List.flatMap_append

theorem splitOn_endLines {lines : List Text} (h : ∀ line ∈ lines, '\n' ∉ line) :
    (endLines lines).splitOn '\n' = lines ++ [[]] := by
  induction lines with
  | nil => rfl
  | cons line lines ih =>
    obtain ⟨hline, hlines⟩ := List.forall_mem_cons.mp h
    rw [endLines_cons, List.splitOn_append_cons_self, List.splitOn_eq_singleton hline, ih hlines]
    rfl

theorem intercalate_concat (front : List Text) (last : Text) :
    List.intercalate ['\n'] (front ++ [last]) = endLines front ++ last := by
  induction front with
  | nil => exact List.intercalate_singleton
  | cons line front ih =>
    have hne : front ++ [last] ≠ [] := List.append_ne_nil_of_right_ne_nil _ (List.cons_ne_nil _ _)
    obtain ⟨next, more, hmore⟩ := List.exists_cons_of_ne_nil hne
    rw [List.cons_append, hmore, List.intercalate_cons_cons, ← hmore, ih, endLines_cons,
      List.append_assoc, List.append_assoc]
    rfl

theorem getLast?_endLines {lines : List Text} (h : lines ≠ []) :
    (endLines lines).getLast? = some '\n' := by
  rw [← List.dropLast_concat_getLast h, endLines_append]
  generalize lines.getLast h = last
  have hlast : endLines [last] = last ++ ['\n'] := List.flatMap_singleton _ _
  rw [hlast, ← List.append_assoc, List.getLast?_concat]

end Klingon
