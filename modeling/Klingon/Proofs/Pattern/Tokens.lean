import Klingon.Encoding
import Klingon.Proofs.Pattern.Gathering

/-!
# Tokens and their blocks

An expression over tokens can be read directly: an atom takes the next token if the marks of the
token are as required. On the encoding the same atom is spelled as a block, and it goes from the
start of one block to the start of the next. Blocks begin with the only comma in them, so there is
nothing to match anywhere else.
-/

namespace Klingon

open Pattern

/-- The mark of a bit that all readings of a word hold, or none. -/
def markFor (expected : Bool) : Char :=
  if expected then '1' else '0'

/-- Whether the marks of a token are as required. -/
def Token.meets (vocabulary : List Text) (required : List (Option Bool)) (token : Token) : Bool :=
  (required.zip (token.marks vocabulary)).all fun (r, m) => r.all (m = markFor ·)

/-- A token meets a condition if each bit the condition asks about is marked as the first literal of
the bit says. -/
theorem meets_requirements {vocabulary : List Text} {literals : List Literal} {token : Token} :
    token.meets vocabulary (requirements vocabulary literals) = true ↔
      ∀ bit ∈ vocabulary, ∀ literal, literals.find? (·.bit = bit) = some literal →
        token.mark bit = markFor literal.expected := by
  have hone : ∀ bit, (requirement literals bit).all (token.mark bit = markFor ·) = true ↔
      ∀ literal, literals.find? (·.bit = bit) = some literal →
        token.mark bit = markFor literal.expected := by
    intro bit
    rw [requirement]
    cases literals.find? (·.bit = bit) <;> simp
  rw [Token.meets, requirements, Token.marks, List.zip_map', List.all_map, List.all_eq_true]
  exact forall_congr' fun bit => imp_congr Iff.rfl (hone bit)

namespace Pattern

variable {vocabulary : List Text} {tokens : List Token} {token : Token} {index i j p q : Nat}
  {required : List (Option Bool)} {rest : Text}

/-- The track of the tokens of a sentence. -/
def tokenTrack (vocabulary : List Text) (tokens : List Token) : Track (List (Option Bool)) where
  length := tokens.length
  consume required i :=
    tokens[i]?.bind fun token => if token.meets vocabulary required then some (i + 1) else none
  forward h := by
    obtain ⟨token, _, h⟩ := Option.bind_eq_some_iff.mp h
    split at h
    · cases h
      exact Nat.lt_succ_self _
    · cases h
  within h := by
    obtain ⟨token, htoken, h⟩ := Option.bind_eq_some_iff.mp h
    split at h
    · cases h
      exact (List.getElem?_eq_some_iff.mp htoken).1
    · cases h

theorem consume_tokenTrack : (tokenTrack vocabulary tokens).consume required i =
    tokens[i]?.bind fun token => if token.meets vocabulary required then some (i + 1) else none :=
  rfl

/-! ## A block and its pieces -/

theorem mark_mem_anyMark (token : Token) (bit : Text) : token.mark bit ∈ anyMark := by
  rw [Token.mark]
  split
  · split <;> decide
  · dsimp only
    split
    · decide
    · split <;> decide

theorem coverAll?_marks {marks : Text} (hlength : required.length = marks.length)
    (hmarks : ∀ mark ∈ marks, mark ∈ anyMark) (rest : Text) :
    coverAll? (required.map markPiece) (marks ++ rest) =
      if (required.zip marks).all (fun (r, m) => r.all (m = markFor ·)) then some marks.length
      else none := by
  induction required generalizing marks with
  | nil =>
    cases marks with
    | nil => rfl
    | cons mark more => cases hlength
  | cons r required ih =>
    cases marks with
    | nil => cases hlength
    | cons mark more =>
      have hmore := ih (Nat.succ.inj hlength) fun m hm => hmarks m (List.mem_cons_of_mem _ hm)
      have hcover : (markPiece r).cover? ((mark :: more) ++ rest) =
          if r.all (mark = markFor ·) then some 1 else none := by
        have hmark := hmarks mark List.mem_cons_self
        cases r with
        | none => simp [markPiece, Piece.cover?, hmark]
        | some expected =>
          cases expected with
          | true => simp [markPiece, Piece.cover?, Text.dropStart?, markFor, eq_comm, apply_ite]
          | false => simp [markPiece, Piece.cover?, Text.dropStart?, markFor, eq_comm, apply_ite]
      rw [List.map_cons, coverAll?, hcover, List.zip_cons_cons, List.all_cons]
      by_cases hr : r.all (mark = markFor ·)
      · rw [if_pos hr]
        simp only [Option.bind_eq_bind, Option.bind_some, List.cons_append, List.drop_succ_cons,
          List.drop_zero, hmore, hr, Bool.true_and, List.length_cons]
        split
        · simp [Nat.add_comm]
        · rfl
      · rw [if_neg hr]
        simp [hr]

theorem isDigit_of_mem_decimal {c : Char} (h : c ∈ Text.decimal index) : Text.isDigit c = true := by
  have hdigit : c.isDigit = true := Nat.isDigit_of_mem_toDigits (by decide) (by decide) h
  simp only [Char.isDigit, Bool.and_eq_true, decide_eq_true_eq, ge_iff_le] at hdigit
  rw [Text.isDigit, Text.inRanges, List.any_eq_true]
  refine ⟨(0x30, 0x39), List.mem_cons_self, ?_⟩
  rw [Bool.and_eq_true, decide_eq_true_eq, decide_eq_true_eq]
  exact hdigit

theorem takeWhile_isDigit_decimal (index : Nat) (rest : Text) :
    (Text.decimal index ++ ':' :: rest).takeWhile Text.isDigit = Text.decimal index := by
  rw [List.takeWhile_append_of_pos fun c => isDigit_of_mem_decimal,
    List.takeWhile_cons_of_neg (by decide), List.append_nil]

theorem block_eq (vocabulary : List Text) (index : Nat) (token : Token) :
    token.block vocabulary index = ',' :: (Text.decimal index ++ ':' :: token.marks vocabulary) := by
  rw [Token.block]
  simp

/-- The pieces of a block cover a whole block if the token meets the requirements. -/
theorem coverAll?_block (hlength : required.length = vocabulary.length) (rest : Text) :
    coverAll? (blockPieces required) (token.block vocabulary index ++ rest) =
      if token.meets vocabulary required then some (token.block vocabulary index).length
      else none := by
  have hmarks : coverAll? (required.map markPiece) (token.marks vocabulary ++ rest) = _ :=
    coverAll?_marks (by rw [hlength, Token.marks, List.length_map]) (fun mark hmark => by
      obtain ⟨bit, _, rfl⟩ := List.mem_map.mp hmark
      exact mark_mem_anyMark token bit) rest
  have hdigits : (Text.decimal index).length ≠ 0 := by
    have := Nat.length_toDigits_pos (b := 10) (n := index)
    rw [Text.decimal]
    omega
  have hcomma : (Piece.text [',']).cover?
      (',' :: (Text.decimal index ++ ':' :: (token.marks vocabulary ++ rest))) = some 1 := rfl
  have hnumber : Piece.digits.cover? (Text.decimal index ++ ':' :: (token.marks vocabulary ++ rest))
      = some (Text.decimal index).length :=
    Piece.cover?_digits.mpr ⟨by rw [takeWhile_isDigit_decimal], hdigits⟩
  have hcolon : (Piece.text [':']).cover? (':' :: (token.marks vocabulary ++ rest)) = some 1 := rfl
  rw [block_eq, List.cons_append, List.append_assoc, List.cons_append, blockPieces, coverAll?,
    hcomma]
  simp only [Option.bind_eq_bind, Option.bind_some, coverAll?, List.drop_succ_cons, List.drop_zero,
    hnumber, List.drop_left, hcolon, hmarks]
  rw [Token.meets]
  split
  · simp only [Option.bind_some, Option.pure_def, List.length_cons, List.length_append]
    congr 1
    omega
  · rfl

/-! ## Where blocks begin -/

theorem encodeFrom_append (front back : List Token) :
    encodeFrom vocabulary index (front ++ back) =
      encodeFrom vocabulary index front ++ encodeFrom vocabulary (index + front.length) back := by
  induction front generalizing index with
  | nil => rfl
  | cons token front ih =>
    rw [List.cons_append, encodeFrom, encodeFrom, ih, List.append_assoc, List.length_cons,
      Nat.add_right_comm, Nat.add_assoc]

/-- Where the block of a token begins; behind the last block the positions go on one by one. -/
def offset (vocabulary : List Text) (tokens : List Token) (i : Nat) : Nat :=
  (encode vocabulary (tokens.take i)).length + (i - tokens.length)

theorem offset_of_le (h : i ≤ tokens.length) :
    offset vocabulary tokens i = (encode vocabulary (tokens.take i)).length := by
  rw [offset, Nat.sub_eq_zero_of_le h, Nat.add_zero]

theorem encode_eq_append (tokens : List Token) (i : Nat) : encode vocabulary tokens =
    encode vocabulary (tokens.take i) ++ encodeFrom vocabulary (tokens.take i).length
      (tokens.drop i) := by
  have hsplit : encodeFrom vocabulary 0 (tokens.take i ++ tokens.drop i) = _ :=
    encodeFrom_append _ _
  rwa [List.take_append_drop, Nat.zero_add] at hsplit

theorem drop_offset (h : i ≤ tokens.length) :
    (encode vocabulary tokens).drop (offset vocabulary tokens i) =
      encodeFrom vocabulary i (tokens.drop i) := by
  rw [offset_of_le h, encode_eq_append tokens i, List.drop_left, List.length_take_of_le h]

theorem take_offset (h : i ≤ tokens.length) :
    (encode vocabulary tokens).take (offset vocabulary tokens i) =
      encode vocabulary (tokens.take i) := by
  rw [offset_of_le h, encode_eq_append tokens i, List.take_left]

theorem drop_of_getElem? (h : tokens[i]? = some token) : tokens.drop i = token :: tokens.drop (i + 1) := by
  obtain ⟨hlt, rfl⟩ := List.getElem?_eq_some_iff.mp h
  exact List.drop_eq_getElem_cons hlt

theorem offset_succ (h : tokens[i]? = some token) : offset vocabulary tokens (i + 1) =
    offset vocabulary tokens i + (token.block vocabulary i).length := by
  obtain ⟨hlt, rfl⟩ := List.getElem?_eq_some_iff.mp h
  have hlast : encodeFrom vocabulary (0 + (tokens.take i).length) [tokens[i]] =
      tokens[i].block vocabulary i := by
    rw [List.length_take_of_le (Nat.le_of_lt hlt), Nat.zero_add, encodeFrom, encodeFrom,
      List.append_nil]
  rw [offset, offset, List.take_succ_eq_append_getElem hlt, encode, encodeFrom_append, hlast,
    List.length_append, encode]
  omega

theorem offset_lt_offset_succ (i : Nat) :
    offset vocabulary tokens i < offset vocabulary tokens (i + 1) := by
  by_cases hlt : i < tokens.length
  · rw [offset_succ (List.getElem?_eq_getElem hlt), block_eq, List.length_cons]
    omega
  · rw [offset, offset, List.take_of_length_le (by omega), List.take_of_length_le (by omega)]
    omega

theorem offset_lt_offset (h : i < j) :
    offset vocabulary tokens i < offset vocabulary tokens j := by
  induction j with
  | zero => omega
  | succ j ih =>
    have hlast : offset vocabulary tokens j < offset vocabulary tokens (j + 1) :=
      offset_lt_offset_succ j
    by_cases hij : i = j
    · rw [hij]
      exact hlast
    · exact Nat.lt_trans (ih (by omega)) hlast

theorem lt_of_offset_lt_offset {i j : Nat}
    (h : offset vocabulary tokens i < offset vocabulary tokens j) : i < j := by
  rcases Nat.lt_trichotomy i j with hlt | rfl | hlt
  · exact hlt
  · exact absurd h (Nat.lt_irrefl _)
  · exact absurd h (Nat.lt_asymm (offset_lt_offset hlt))

theorem offset_le_length (h : i ≤ tokens.length) :
    offset vocabulary tokens i ≤ (encode vocabulary tokens).length := by
  rw [offset_of_le h, encode_eq_append tokens i, List.length_append]
  exact Nat.le_add_right _ _

/-- The tokens laid into their encoding. -/
def tokenLaying (vocabulary : List Text) (tokens : List Token) :
    Laying (tokenTrack vocabulary tokens) (pieceTrack (encode vocabulary tokens)) where
  place := offset vocabulary tokens
  increasing := offset_lt_offset
  within := offset_le_length

/-- A block is covered where a token stands that meets the requirements. -/
theorem consumePieces_offset (hlength : required.length = vocabulary.length)
    (h : i ≤ tokens.length) :
    consumePieces (remainders (encode vocabulary tokens)).toArray (blockPieces required)
        (offset vocabulary tokens i) =
      ((tokenTrack vocabulary tokens).consume required i).map (offset vocabulary tokens) := by
  rw [consumePieces_eq, if_pos (offset_le_length h), drop_offset h, consume_tokenTrack]
  cases htoken : tokens[i]? with
  | none =>
    rw [List.drop_eq_nil_of_le (List.getElem?_eq_none_iff.mp htoken)]
    rfl
  | some token =>
    rw [drop_of_getElem? htoken, encodeFrom, coverAll?_block hlength, Option.bind_some]
    split
    · rw [Option.map_some, Option.map_some, offset_succ htoken]
    · rfl

/-- A comma stands nowhere but at the start of a block. -/
theorem not_mem_block_tail (vocabulary : List Text) (index : Nat) (token : Token) :
    ',' ∉ Text.decimal index ++ ':' :: token.marks vocabulary := by
  intro h
  rcases List.mem_append.mp h with h | h
  · exact absurd (isDigit_of_mem_decimal h) (by decide)
  · rcases List.mem_cons.mp h with h | h
    · exact absurd h (by decide)
    · obtain ⟨bit, _, hbit⟩ := List.mem_map.mp h
      have hmark := mark_mem_anyMark token bit
      rw [hbit] at hmark
      exact absurd hmark (by decide)

theorem exists_take_of_comma {front back : Text}
    (h : encodeFrom vocabulary index tokens = front ++ ',' :: back) :
    ∃ i ≤ tokens.length, front = encodeFrom vocabulary index (tokens.take i) := by
  induction tokens generalizing index front with
  | nil => simp [encodeFrom] at h
  | cons token tokens ih =>
    rw [encodeFrom, block_eq, List.cons_append] at h
    cases front with
    | nil => exact ⟨0, Nat.zero_le _, rfl⟩
    | cons c front =>
      obtain ⟨hc, h⟩ := List.cons.inj h
      rcases List.append_eq_append_iff.mp h with ⟨more, hmore, hrest⟩ | ⟨more, hmore, hrest⟩
      · obtain ⟨i, hi, heq⟩ := ih hrest
        refine ⟨i + 1, Nat.succ_le_succ hi, ?_⟩
        rw [List.take_succ_cons, encodeFrom, block_eq, hmore, heq, ← hc, List.cons_append]
      · cases more with
        | nil =>
          refine ⟨1, Nat.succ_le_succ (Nat.zero_le _), ?_⟩
          rw [List.append_nil] at hmore
          rw [List.take_succ_cons, List.take_zero, encodeFrom, block_eq, encodeFrom, List.append_nil,
            hmore, ← hc]
        | cons d more =>
          have hin : ',' ∈ Text.decimal index ++ ':' :: token.marks vocabulary := by
            rw [hmore]
            rw [List.cons_append] at hrest
            cases hrest
            exact List.mem_append_right _ List.mem_cons_self
          exact absurd hin (not_mem_block_tail vocabulary index token)

/-- Nothing is covered inside a block. -/
theorem exists_offset_of_consumePieces
    (h : consumePieces (remainders (encode vocabulary tokens)).toArray (blockPieces required) p =
      some q) : ∃ i ≤ tokens.length, p = offset vocabulary tokens i := by
  rw [consumePieces_eq] at h
  split at h
  · rename_i hle
    obtain ⟨n, hn, _⟩ := Option.map_eq_some_iff.mp h
    rw [blockPieces, coverAll?] at hn
    obtain ⟨here, hhere, _⟩ := Option.bind_eq_some_iff.mp hn
    obtain ⟨⟨more, hmore⟩, _⟩ := Piece.cover?_text.mp hhere
    have hsplit : encodeFrom vocabulary 0 tokens =
        (encode vocabulary tokens).take p ++ ',' :: more := by
      rw [← List.singleton_append, ← hmore, List.take_append_drop, encode]
    obtain ⟨i, hi, hfront⟩ := exists_take_of_comma hsplit
    refine ⟨i, hi, ?_⟩
    rw [offset_of_le hi, encode, ← hfront, List.length_take_of_le hle]
  · cases h

end Pattern

end Klingon
