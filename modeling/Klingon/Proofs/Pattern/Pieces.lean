import Klingon.Pattern.Block
import Klingon.Proofs.Pattern.Track
import Klingon.Proofs.Text

/-!
# Pieces on an encoding

The track of an encoding. A piece that covers nothing does not go forward, so it is no step on the
track.
-/

namespace Klingon.Pattern

namespace Piece

variable {piece : Piece} {content rest : Text} {n : Nat}

theorem cover?_text : (text content).cover? rest = some n ↔
    (∃ more, rest = content ++ more) ∧ n = content.length := by
  rw [cover?, Option.map_eq_some_iff]
  constructor
  · rintro ⟨more, hmore, rfl⟩
    exact ⟨⟨more, Text.dropStart?_eq_some_iff.mp hmore⟩, rfl⟩
  · rintro ⟨⟨more, rfl⟩, rfl⟩
    exact ⟨more, Text.dropStart?_append _ _, rfl⟩

theorem cover?_among {characters : Text} : (among characters).cover? rest = some n ↔
    (∃ c ∈ characters, ∃ more, rest = c :: more) ∧ n = 1 := by
  cases rest with
  | nil => simp [cover?]
  | cons c more =>
    rw [cover?]
    split
    · rename_i hc
      constructor
      · intro h
        cases h
        exact ⟨⟨c, hc, more, rfl⟩, rfl⟩
      · rintro ⟨_, rfl⟩
        rfl
    · rename_i hc
      constructor
      · intro h
        cases h
      · rintro ⟨⟨d, hd, _, heq⟩, _⟩
        cases heq
        exact absurd hd hc

theorem cover?_digits : digits.cover? rest = some n ↔
    n = (rest.takeWhile Text.isDigit).length ∧ n ≠ 0 := by
  rw [cover?]
  cases hrun : rest.takeWhile Text.isDigit with
  | nil => simp
  | cons c run =>
    simp only [Option.some_inj, List.length_cons]
    omega

/-- A piece covers no more than there is. -/
theorem le_of_cover? (h : piece.cover? rest = some n) : n ≤ rest.length := by
  cases piece with
  | text content =>
    obtain ⟨⟨more, rfl⟩, rfl⟩ := cover?_text.mp h
    rw [List.length_append]
    exact Nat.le_add_right _ _
  | digits =>
    rw [(cover?_digits.mp h).1]
    exact (List.takeWhile_sublist _).length_le
  | among characters =>
    obtain ⟨⟨c, _, more, rfl⟩, rfl⟩ := cover?_among.mp h
    exact Nat.succ_le_of_lt (Nat.succ_pos _)

/-- Only the empty text covers nothing. -/
theorem pos_of_cover? (hpiece : piece ≠ .text []) (h : piece.cover? rest = some n) : 0 < n := by
  cases piece with
  | text content =>
    obtain ⟨_, rfl⟩ := cover?_text.mp h
    refine List.length_pos_iff.mpr fun hnil => hpiece ?_
    rw [hnil]
  | digits => exact Nat.pos_of_ne_zero (cover?_digits.mp h).2
  | among characters =>
    rw [(cover?_among.mp h).2]
    exact Nat.one_pos

end Piece

/-- The track of an encoding, on which pieces go forward. -/
def pieceTrack (encoding : Text) : Track Piece where
  length := encoding.length
  consume piece p := ((piece.cover? (encoding.drop p)).map (p + ·)).filter (p < ·)
  forward h := by
    obtain ⟨_, hlt⟩ := Option.filter_eq_some_iff.mp h
    exact of_decide_eq_true hlt
  within {piece p q} h := by
    obtain ⟨hcover, hlt⟩ := Option.filter_eq_some_iff.mp h
    have hlt : p < q := of_decide_eq_true hlt
    obtain ⟨n, hn, rfl⟩ := Option.map_eq_some_iff.mp hcover
    have hle := Piece.le_of_cover? hn
    rw [List.length_drop] at hle
    omega

variable {encoding : Text} {piece : Piece} {p q : Nat}

theorem consume_pieceTrack : (pieceTrack encoding).consume piece p = some q ↔
    ∃ n, 0 < n ∧ piece.cover? (encoding.drop p) = some n ∧ q = p + n := by
  rw [pieceTrack, Option.filter_eq_some_iff, Option.map_eq_some_iff]
  constructor
  · rintro ⟨⟨n, hn, rfl⟩, hlt⟩
    have hlt : p < p + n := of_decide_eq_true hlt
    exact ⟨n, by omega, hn, rfl⟩
  · rintro ⟨n, hpos, hn, rfl⟩
    exact ⟨⟨n, hn, rfl⟩, decide_eq_true (by omega)⟩

theorem consume_text {content : Text} :
    (pieceTrack encoding).consume (.text content) p = some q ↔
      content ≠ [] ∧ (∃ more, encoding.drop p = content ++ more) ∧ q = p + content.length := by
  rw [consume_pieceTrack]
  constructor
  · rintro ⟨n, hpos, hn, rfl⟩
    obtain ⟨hmore, rfl⟩ := Piece.cover?_text.mp hn
    exact ⟨List.length_pos_iff.mp hpos, hmore, rfl⟩
  · rintro ⟨hne, hmore, rfl⟩
    exact ⟨_, List.length_pos_iff.mpr hne, Piece.cover?_text.mpr ⟨hmore, rfl⟩, rfl⟩

/-- Two texts one after the other are one text. -/
theorem consume_text_append {front back : Text} (hfront : front ≠ []) (hback : back ≠ []) :
    (pieceTrack encoding).consume (.text (front ++ back)) p =
      ((pieceTrack encoding).consume (.text front) p).bind
        ((pieceTrack encoding).consume (.text back)) := by
  refine Option.ext fun q => ?_
  rw [Option.bind_eq_some_iff, consume_text]
  constructor
  · rintro ⟨_, ⟨more, hmore⟩, rfl⟩
    rw [List.append_assoc] at hmore
    refine ⟨p + front.length, consume_text.mpr ⟨hfront, ⟨_, hmore⟩, rfl⟩, ?_⟩
    refine consume_text.mpr ⟨hback, ⟨more, ?_⟩, by rw [List.length_append, Nat.add_assoc]⟩
    rw [← List.drop_drop, hmore, List.drop_left]
  · rintro ⟨mid, hmid, hq⟩
    obtain ⟨_, ⟨more, hmore⟩, rfl⟩ := consume_text.mp hmid
    obtain ⟨_, ⟨rest, hrest⟩, rfl⟩ := consume_text.mp hq
    rw [← List.drop_drop, hmore, List.drop_left] at hrest
    refine ⟨by simp [hfront], ⟨rest, ?_⟩, by rw [List.length_append, Nat.add_assoc]⟩
    rw [hmore, hrest, List.append_assoc]

/-- A piece covers what one of several pieces covers. -/
theorem consume_of_cover {pieces : List Piece}
    (h : ∀ rest n, piece.cover? rest = some n ↔ ∃ b ∈ pieces, b.cover? rest = some n) :
    (pieceTrack encoding).consume piece p = some q ↔
      ∃ b ∈ pieces, (pieceTrack encoding).consume b p = some q := by
  rw [consume_pieceTrack]
  constructor
  · rintro ⟨n, hpos, hn, rfl⟩
    obtain ⟨b, hb, hcover⟩ := (h _ _).mp hn
    exact ⟨b, hb, consume_pieceTrack.mpr ⟨n, hpos, hcover, rfl⟩⟩
  · rintro ⟨b, hb, hq⟩
    obtain ⟨n, hpos, hn, rfl⟩ := consume_pieceTrack.mp hq
    exact ⟨n, hpos, (h _ _).mpr ⟨b, hb, hn⟩, rfl⟩

end Klingon.Pattern
