import Mathlib.Logic.Function.Defs
import Klingon.Pattern.Expression

/-!
# Names and bits in the written form

The written form of a pattern shows which nodes are named and which literals share a bit, but not
the names and the bits themselves: it stays the same when these are renamed, and all its characters
come from a small alphabet.
-/

namespace Klingon.Pattern

def Literal.rename (bits : Text → Text) (literal : Literal) : Literal :=
  { literal with bit := bits literal.bit }

/-- The node, with other names and bits in it. -/
def Node.rename (names bits : Text → Text) : Node → Node
  | condition name literals => condition (name.map names) (literals.map (.rename bits))
  | wildcard name => wildcard (name.map names)
  | groupOpen name => groupOpen (name.map names)
  | groupClose => groupClose
  | bar => bar
  | quantifier q => quantifier q

variable {names bits : Text → Text} {vocabulary : List Text} {nodes : List Node} {node : Node}

/-- First appearances stay where they are if nothing becomes the same. -/
theorem eraseDups_map {f : Text → Text} (hf : Function.Injective f) (texts : List Text) :
    (texts.map f).eraseDups = texts.eraseDups.map f := by
  -- On the length: what is left behind a text is a part of the rest.
  induction hlength : texts.length using Nat.strongRecOn generalizing texts with
  | ind n ih =>
    cases texts with
    | nil => rfl
    | cons text rest =>
      have hfilter : (rest.map f).filter (fun t => !t == f text) =
          (rest.filter fun t => !t == text).map f := by
        rw [List.filter_map]
        congr 1
        refine List.filter_congr fun t _ => ?_
        have hsame : (f t == f text) = (t == text) := by
          rw [Bool.eq_iff_iff, beq_iff_eq, beq_iff_eq, hf.eq_iff]
        rw [Function.comp_apply, hsame]
      have hle := List.length_filter_le (fun t => !t == text) rest
      rw [List.length_cons] at hlength
      rw [List.map_cons, List.eraseDups_cons, hfilter, ih _ (by omega) _ rfl, List.eraseDups_cons,
        List.map_cons]

theorem vocabularyOf_rename (hbits : Function.Injective bits) (nodes : List Node) :
    vocabularyOf (nodes.map (.rename names bits)) = (vocabularyOf nodes).map bits := by
  have hnode : ∀ node : Node, (node.rename names bits).literals.map (·.bit) =
      (node.literals.map (·.bit)).map bits := by
    intro node
    cases node <;> simp [Node.rename, Node.literals, Literal.rename]
  rw [vocabularyOf, vocabularyOf, ← eraseDups_map hbits, List.flatMap_map, List.map_flatMap]
  simp only [hnode]

/-- A condition asks for the same marks under other names of its bits. -/
theorem requirements_rename (hbits : Function.Injective bits) (vocabulary : List Text)
    (literals : List Literal) :
    requirements (vocabulary.map bits) (literals.map (.rename bits)) =
      requirements vocabulary literals := by
  rw [requirements, requirements, List.map_map]
  refine List.map_congr_left fun bit _ => ?_
  simp [requirement, List.find?_map, Function.comp_def, Literal.rename, hbits.eq_iff]

theorem writtenNode_rename (hbits : Function.Injective bits) :
    writtenNode (vocabulary.map bits) (node.rename names bits) = writtenNode vocabulary node := by
  have hopening : ∀ name : Option Text, writtenOpening (name.map names) = writtenOpening name := by
    intro name
    rw [writtenOpening, writtenOpening, Option.isSome_map]
  cases node with
  | condition name literals =>
    simp only [Node.rename, writtenNode, hopening, requirements_rename hbits]
  | wildcard name =>
    have hnone := requirements_rename hbits vocabulary []
    rw [List.map_nil] at hnone
    simp only [Node.rename, writtenNode, hopening, hnone]
  | groupOpen name => exact hopening name
  | groupClose => rfl
  | bar => rfl
  | quantifier q => rfl

/-- Renaming the groups in any way, and the bits so that different ones stay different, leaves the
written form as it is. -/
theorem written_rename (hbits : Function.Injective bits) (nodes : List Node) :
    written (vocabularyOf (nodes.map (.rename names bits))) (nodes.map (.rename names bits)) =
      written (vocabularyOf nodes) nodes := by
  rw [vocabularyOf_rename hbits, written, written, List.flatMap_map]
  simp only [writtenNode_rename hbits]

/-! ## The alphabet -/

/-- The characters that blocks are written with. -/
def blockAlphabet : Text :=
  ",\\d+:[01.]"

/-- The parentheses and combinators of patterns, and what groups and blocks are written with. -/
def alphabet : Text :=
  "()|*+?:" ++ blockAlphabet

theorem subset_blockAlphabet_writtenToken (required : List (Option Bool)) :
    writtenToken required ⊆ blockAlphabet := by
  have hmark : ∀ mark, writtenMark mark ⊆ blockAlphabet := by
    rintro (_ | _ | _) <;> decide
  refine List.append_subset.mpr ⟨by decide, fun c hc => ?_⟩
  obtain ⟨mark, _, hc⟩ := List.mem_flatMap.mp hc
  exact hmark mark hc

theorem subset_alphabet_writtenOpening (name : Option Text) : writtenOpening name ⊆ alphabet := by
  rw [writtenOpening]
  split <;> decide

theorem subset_alphabet_writtenNode (node : Node) : writtenNode vocabulary node ⊆ alphabet := by
  have hatom : ∀ name required, writtenOpening name ++ writtenToken required ++ ")" ⊆ alphabet := by
    intro name required
    have htoken : writtenToken required ⊆ alphabet :=
      List.subset_append_of_subset_right _ (subset_blockAlphabet_writtenToken required)
    exact List.append_subset.mpr ⟨List.append_subset.mpr
      ⟨subset_alphabet_writtenOpening name, htoken⟩, by decide⟩
  cases node with
  | condition name literals => exact hatom name _
  | wildcard name => exact hatom name _
  | groupOpen name => exact subset_alphabet_writtenOpening name
  | groupClose =>
    show [')'] ⊆ alphabet
    decide
  | bar =>
    show ['|'] ⊆ alphabet
    decide
  | quantifier q =>
    show [q.symbol] ⊆ alphabet
    cases q <;> decide

theorem subset_alphabet_written (nodes : List Node) : written vocabulary nodes ⊆ alphabet := by
  intro c hc
  obtain ⟨node, _, hc⟩ := List.mem_flatMap.mp hc
  exact subset_alphabet_writtenNode node hc

end Klingon.Pattern
