import Klingon.Proofs.Pattern.Tokens
import Klingon.Proofs.Text

/-!
# The numbers of a part of an encoding

Whatever part of a sentence is cut out of its encoding, from the start of one block to the start of
another, its tokens are read back by their numbers, as far as these are below the limit.
-/

namespace Klingon.Pattern

variable {vocabulary : List Text} {tokens : List Token} {token : Token} {index i j : Nat}

/-- The number in front of the colon of a block. -/
def blockNumber? (block : Text) : Option Nat := do
  let (number, _) ← Text.cut? ':' block
  tokenNumber? number

theorem tokenNumber?_decimal (index : Nat) :
    tokenNumber? (Text.decimal index) = if index < tokenNumberLimit then some index else none := by
  have hdigits : ∀ c ∈ Text.decimal index, c.isDigit = true := fun c hc =>
    Nat.isDigit_of_mem_toDigits (by decide) (by decide) hc
  have hne : Text.decimal index ≠ [] := Nat.toDigits_ne_nil
  have hplus : ∀ digits, Text.decimal index ≠ '+' :: digits := by
    intro digits heq
    have := hdigits '+' (heq ▸ List.mem_cons_self)
    exact absurd this (by decide)
  have hvalue : (Text.decimal index).foldl
      (fun value d => 10 * value + (d.toNat - '0'.toNat)) 0 = index := by
    rw [← Nat.ofDigitChars_eq_foldl]
    exact Nat.ofDigitChars_ten_toDigits
  unfold tokenNumber?
  split
  · rename_i digits heq
    exact absurd heq (hplus digits)
  · rw [if_pos ⟨hne, List.all_eq_true.mpr hdigits⟩, hvalue]

theorem blockNumber?_block (index : Nat) (marks : Text) :
    blockNumber? (Text.decimal index ++ ':' :: marks) =
      if index < tokenNumberLimit then some index else none := by
  have hcolon : ':' ∉ Text.decimal index := by
    intro hin
    exact absurd (isDigit_of_mem_decimal hin) (by decide)
  rw [blockNumber?, Text.cut?_append hcolon]
  exact tokenNumber?_decimal index

/-- The numbers of some tokens that stand next to each other. -/
def numbersFrom (index count : Nat) : List Nat :=
  (List.range' index count).filter (· < tokenNumberLimit)

/-- What stands in front of the first comma is a block of its own. -/
theorem filterMap_splitOn_append {front : Text} (hfront : ',' ∉ front) :
    ((front ++ encodeFrom vocabulary index tokens).splitOn ',').filterMap blockNumber? =
      (blockNumber? front).toList ++ numbersFrom index tokens.length := by
  induction tokens generalizing index front with
  | nil =>
    rw [encodeFrom, List.append_nil, List.splitOn_eq_singleton hfront]
    cases hnumber : blockNumber? front <;> simp [hnumber, numbersFrom]
  | cons token tokens ih =>
    have hbeq : ∀ c ∈ front, (c == ',') = false := by
      intro c hc
      exact beq_eq_false_iff_ne.mpr fun heq => hfront (heq ▸ hc)
    have hnumbers : (if index < tokenNumberLimit then some index else none).toList ++
        numbersFrom (index + 1) tokens.length = numbersFrom index (token :: tokens).length := by
      rw [numbersFrom, numbersFrom, List.length_cons, List.range'_succ, List.filter_cons]
      by_cases hlt : index < tokenNumberLimit <;> simp [hlt]
    rw [encodeFrom, block_eq, List.cons_append,
      List.splitOn_append_cons_of_forall_mem_beq_eq_false hbeq _ (beq_self_eq_true _),
      List.filterMap_cons, ih (not_mem_block_tail vocabulary index token), blockNumber?_block,
      hnumbers]
    cases blockNumber? front <;> rfl

theorem tokenNumbers_encodeFrom : tokenNumbers (encodeFrom vocabulary index tokens) =
    numbersFrom index tokens.length := by
  have hall : ((([] : Text) ++ encodeFrom vocabulary index tokens).splitOn ',').filterMap
      blockNumber? = _ := filterMap_splitOn_append List.not_mem_nil
  exact hall

/-- The part of an encoding between the starts of two blocks gives the numbers of the tokens between
them. -/
theorem tokenNumbers_slice (hij : i ≤ j) (hj : j ≤ tokens.length) :
    tokenNumbers (slice (encode vocabulary tokens)
      (offset vocabulary tokens i, offset vocabulary tokens j)) = numbersFrom i (j - i) := by
  have hlength : (tokens.take j).length = j := List.length_take_of_le hj
  have hoffset : offset vocabulary tokens i = offset vocabulary (tokens.take j) i := by
    rw [offset_of_le (Nat.le_trans hij hj), offset_of_le (by omega), List.take_take,
      Nat.min_eq_left hij]
  rw [slice, take_offset hj, hoffset, drop_offset (by omega), tokenNumbers_encodeFrom,
    List.length_drop, hlength]

/-- Below the limit no number is missing. -/
theorem numbersFrom_eq (hij : i ≤ j) (hj : j ≤ tokenNumberLimit) :
    numbersFrom i (j - i) = List.range' i (j - i) := by
  rw [numbersFrom, List.filter_eq_self]
  intro number hnumber
  have hlt := List.mem_range'_1.mp hnumber
  exact decide_eq_true (by omega)

theorem increasing_numbersFrom (index count : Nat) :
    (numbersFrom index count).Pairwise (· < ·) :=
  (List.pairwise_lt_range' 1 (by decide)).filter _

end Klingon.Pattern
