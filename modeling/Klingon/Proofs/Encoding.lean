import Klingon.Encoding

/-!
# What marks say

The mark of a bit is one if a token has readings and all of them hold the bit, and zero if none
does. A punctuation token is read in one way, by the names of its character.
-/

namespace Klingon.Token

variable {token : Token} {bit : Text}

/-- All readings of a token hold a bit, and there is one. -/
def Carries (token : Token) (bit : Text) : Prop :=
  if token.kind = .punct then punctHolds token.text bit = true
  else token.analyses ≠ [] ∧ ∀ analysis ∈ token.analyses, analysis.holds bit = true

/-- No reading of a token holds a bit. -/
def Lacks (token : Token) (bit : Text) : Prop :=
  if token.kind = .punct then punctHolds token.text bit = false
  else ∀ analysis ∈ token.analyses, analysis.holds bit = false

theorem mark_eq_zero_iff : token.mark bit = '0' ↔ token.Lacks bit := by
  rw [mark, Lacks]
  split
  · cases punctHolds token.text bit <;> simp
  · have hnone : token.analyses.countP (·.holds bit) = 0 ↔
        ∀ analysis ∈ token.analyses, analysis.holds bit = false := by
      simp [List.countP_eq_zero]
    rw [← hnone]
    dsimp only
    split
    · next hzero => simp [hzero]
    · next hzero => split <;> simp [hzero]

theorem mark_eq_one_iff : token.mark bit = '1' ↔ token.Carries bit := by
  rw [mark, Carries]
  split
  · cases punctHolds token.text bit <;> simp
  · have hall : token.analyses.countP (·.holds bit) = token.analyses.length ↔
        ∀ analysis ∈ token.analyses, analysis.holds bit = true :=
      List.countP_eq_length
    have hle : token.analyses.countP (·.holds bit) ≤ token.analyses.length :=
      List.countP_le_length
    rw [← hall, ← List.length_pos_iff]
    dsimp only
    split
    · next hzero =>
      refine iff_of_false (by decide) fun h => ?_
      omega
    · split
      · next hzero hcount => exact iff_of_true rfl ⟨by omega, hcount⟩
      · next hcount => exact iff_of_false (by decide) fun h => hcount h.2

/-- The encoding of one token over one bit is its mark, behind the number of the token. -/
theorem encode_singleton (token : Token) (bit : Text) :
    encode [bit] [token] = ",0:" ++ [token.mark bit] :=
  List.append_nil _

end Klingon.Token
