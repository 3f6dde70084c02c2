import Klingon.Text

/-!
# The order of texts by their bytes

A character takes more bytes than a smaller one or the same number, and a longer encoding begins with
a larger byte. Encodings of one length spell the characters in base 64, the highest digit first. So
texts are in the order of their bytes.
-/

namespace Klingon.Text

/-- The bytes of a character, given by its number: the digits of the number in base 64, of which the
first is marked with the length of the encoding and the others as what follows. -/
inductive Encodes (n : Nat) : List UInt8 → Prop
  | one (hlt : n < 128) : Encodes n [.ofNat n]
  | two (hle : 128 ≤ n) (hlt : n < 2048) :
      Encodes n [.ofNat (n / 64 + 192), .ofNat (n % 64 + 128)]
  | three (hle : 2048 ≤ n) (hlt : n < 65536) :
      Encodes n [.ofNat (n / 64 / 64 + 224), .ofNat (n / 64 % 64 + 128), .ofNat (n % 64 + 128)]
  | four (hle : 65536 ≤ n) (hlt : n < 1114112) :
      Encodes n [.ofNat (n / 64 / 64 / 64 + 240), .ofNat (n / 64 / 64 % 64 + 128),
        .ofNat (n / 64 % 64 + 128), .ofNat (n % 64 + 128)]

theorem encodes_utf8EncodeChar (c : Char) : Encodes c.toNat (String.utf8EncodeChar c) := by
  have hlimit : c.toNat < 1114112 := by
    cases c.valid with
    | inl h => exact Nat.lt_trans h (by decide)
    | inr h => exact h.2
  have htwo : c.toNat / 4096 = c.toNat / 64 / 64 := (Nat.div_div_eq_div_mul _ 64 64).symm
  have hthree : c.toNat / 262144 = c.toNat / 64 / 64 / 64 := by
    rw [← htwo, Nat.div_div_eq_div_mul]
  unfold String.utf8EncodeChar
  simp only [Char.toNat_val, htwo, hthree]
  split
  · exact .one (by omega)
  split
  · rw [Nat.mod_eq_of_lt (by omega)]
    exact .two (by omega) (by omega)
  split
  · rw [Nat.mod_eq_of_lt (by omega)]
    exact .three (by omega) (by omega)
  · rw [Nat.mod_eq_of_lt (by omega)]
    exact .four (by omega) hlimit

/-- The bytes of a smaller character come first, whatever follows. -/
theorem Encodes.append_lt {m n : Nat} {bytes bytes' : List UInt8} (hm : Encodes m bytes)
    (hn : Encodes n bytes') (h : m < n) (rest rest' : List UInt8) :
    bytes ++ rest < bytes' ++ rest' := by
  cases hm <;> cases hn
  all_goals
    simp only [List.cons_append, List.nil_append, List.cons_lt_cons_iff, UInt8.lt_iff_toNat_lt,
      ← UInt8.toNat_inj, UInt8.toNat_ofNat']
    omega

theorem bytes_cons (c : Char) (text : Text) :
    bytes (c :: text) = String.utf8EncodeChar c ++ bytes text :=
  List.flatMap_cons

theorem bytes_cons_ne_nil (c : Char) (text : Text) : bytes (c :: text) ≠ [] := by
  rw [bytes_cons]
  exact List.append_ne_nil_of_left_ne_nil String.utf8EncodeChar_ne_nil _

/-- A text before another has its bytes before those of the other. -/
theorem bytes_lt_of_compare {text other : Text} (h : compare text other = .lt) :
    text.bytes < other.bytes := by
  induction text generalizing other with
  | nil =>
    cases other with
    | nil => cases h
    | cons d other =>
      obtain ⟨first, rest, heq⟩ := List.exists_cons_of_ne_nil (bytes_cons_ne_nil d other)
      rw [heq]
      exact List.nil_lt_cons first rest
  | cons c text ih =>
    cases other with
    | nil => cases h
    | cons d other =>
      rw [List.compare_cons_cons, Ordering.then_eq_lt] at h
      rw [bytes_cons, bytes_cons]
      rcases h with hlt | ⟨heq, hrest⟩
      · have hlt : c < d := compareOfLessAndEq_eq_lt.mp hlt
        exact (encodes_utf8EncodeChar c).append_lt (encodes_utf8EncodeChar d) hlt _ _
      · rw [Std.LawfulEqOrd.eq_of_compare heq]
        exact List.append_left_lt (ih hrest)

end Klingon.Text
