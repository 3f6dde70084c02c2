import Klingon.Pattern
import Klingon.Proofs.Pattern.NormalForm

/-!
# Gathered pieces

A pattern is searched for with the pieces of a sequence taken together. The readings are those with
the pieces one by one, so the match of a regular expression over pieces is its preferred reading on
the track of the encoding.
-/

namespace Klingon.Pattern

variable {α : Type}

namespace Expression

/-- The readings look at nothing but what the atoms consume. -/
theorem readings_congr {P : α → Prop} {consume consume' : α → Nat → Option Nat} {length : Nat}
    (h : ∀ a, P a → consume a = consume' a) {e : Expression α} (he : e.AllAtoms P) :
    ∀ n, e.readings consume length n = e.readings consume' length n := by
  induction e with
  | empty => exact fun _ => rfl
  | atom a =>
    intro n
    funext r
    rw [readings, readings, h a he]
  | group number body ih =>
    intro n
    funext r
    cases number with
    | none => rw [readings, readings, ih he]
    | some m => rw [readings, readings, ih he]
  | sequence first second ihf ihs =>
    intro n
    funext r
    rw [readings, readings, ihf he.1, ihs he.2]
  | choice first second ihf ihs =>
    intro n
    funext r
    rw [readings, readings, ihf he.1, ihs he.2]
  | repeated q reluctant body ih =>
    intro n
    funext r
    rw [readings, readings, ih he]

theorem Regular.allAtoms {P : α → Prop} {e : Expression α} (h : e.Regular P) : e.AllAtoms P := by
  induction e with
  | empty => trivial
  | atom a => exact h
  | group number body ih => exact ih h
  | sequence first second ihf ihs => exact ⟨ihf h.1, ihs h.2⟩
  | choice first second ihf ihs => exact ⟨ihf h.1, ihs h.2⟩
  | repeated q reluctant body ih => exact ih h.2

/-- The first piece of a sequence is put in front of the pieces that the rest begins with. -/
def withPiece (piece : Piece) : Expression (List Piece) → Expression (List Piece)
  | atom pieces => atom (piece :: pieces)
  | sequence (atom pieces) more => sequence (atom (piece :: pieces)) more
  | e => sequence (atom [piece]) e

theorem gathered_sequence_atom (piece : Piece) (second : Expression Piece) :
    (sequence (atom piece) second).gathered = second.gathered.withPiece piece := by
  rw [gathered]
  rfl

theorem gathered_sequence {first : Expression Piece} (hfirst : ¬ first.IsAtom)
    (second : Expression Piece) :
    (sequence first second).gathered = sequence first.gathered second.gathered := by
  cases first with
  | atom piece => exact absurd ⟨piece, rfl⟩ hfirst
  | _ => rfl

/-- Gathering leaves alone whether an expression may be empty, and its decisions. -/
structure Same (e : Expression (List Piece)) (e' : Expression Piece) : Prop where
  nullable : e.isNullable = e'.isNullable
  vacuous : e.isVacuous = e'.isVacuous
  decisions : e.decisions = e'.decisions

theorem same_withPiece {piece : Piece} {e : Expression (List Piece)} {e' : Expression Piece}
    (h : e.decisions = e'.decisions) : Same (e.withPiece piece) (sequence (atom piece) e') := by
  unfold withPiece
  split
  · refine ⟨rfl, rfl, ?_⟩
    simp only [decisions] at h ⊢
    omega
  · refine ⟨rfl, rfl, ?_⟩
    simp only [decisions] at h ⊢
    omega
  · refine ⟨rfl, rfl, ?_⟩
    simp only [decisions] at h ⊢
    omega

theorem same_gathered (e : Expression Piece) : Same e.gathered e := by
  induction e with
  | empty => exact ⟨rfl, rfl, rfl⟩
  | atom piece => exact ⟨rfl, rfl, rfl⟩
  | group number body ih => exact ⟨ih.nullable, ih.vacuous, ih.decisions⟩
  | sequence first second ihf ihs =>
    by_cases hfirst : first.IsAtom
    · obtain ⟨piece, rfl⟩ := hfirst
      rw [gathered_sequence_atom]
      exact same_withPiece ihs.decisions
    · rw [gathered_sequence hfirst]
      refine ⟨?_, ?_, ?_⟩
      · rw [isNullable, ihf.nullable, ihs.nullable, isNullable]
      · rw [isVacuous, ihf.vacuous, ihs.vacuous, isVacuous]
      · rw [decisions, ihf.decisions, ihs.decisions, decisions]
  | choice first second ihf ihs =>
    refine ⟨?_, ?_, ?_⟩
    · rw [gathered, isNullable, ihf.nullable, ihs.nullable, isNullable]
    · rw [gathered, isVacuous, ihf.vacuous, ihs.vacuous, isVacuous]
    · rw [gathered, decisions, ihf.decisions, ihs.decisions, decisions]
  | repeated q reluctant body ih =>
    refine ⟨?_, ih.vacuous, ?_⟩
    · cases q with
      | plus => exact ih.nullable
      | star => rfl
      | optional => rfl
    · rw [gathered, decisions, ih.vacuous, ih.nullable, ih.decisions, decisions]

section Gathered

variable {consume : List Piece → Nat → Option Nat} {length : Nat}

theorem readings_withPiece (hconsume : ∀ piece pieces p,
      consume (piece :: pieces) p = (consume [piece] p).bind (consume pieces))
    {piece : Piece} {e : Expression (List Piece)} (n : Nat) (r : Reading) :
    (e.withPiece piece).readings consume length n r =
      (sequence (atom [piece]) e).readings consume length n r := by
  have hmove : ∀ pieces (r : Reading),
      (atom (piece :: pieces)).readings consume length n r =
        (sequence (atom [piece]) (atom pieces)).readings consume length n r := by
    intro pieces r
    rw [readings, readings, readings, hconsume]
    cases consume [piece] r.position with
    | none => rfl
    | some p =>
      simp only [Option.bind_some, Option.map_some, Option.toList_some, List.flatMap_cons,
        List.flatMap_nil, List.append_nil]
      rfl
  unfold withPiece
  split
  · exact hmove _ r
  · rename_i pieces more
    have hassoc : (sequence (atom [piece]) (sequence (atom pieces) more)).readings consume length n r
        = (sequence (sequence (atom [piece]) (atom pieces)) more).readings consume length n r := by
      rw [readings, readings]
      simp only [decisions, readings, List.flatMap_assoc, Nat.add_zero]
    rw [hassoc, readings, hmove, readings]
    rfl
  · rfl

/-- The readings of gathered pieces are those of the pieces one by one. -/
theorem readings_gathered (hconsume : ∀ piece pieces p,
      consume (piece :: pieces) p = (consume [piece] p).bind (consume pieces))
    (e : Expression Piece) : ∀ n, e.gathered.readings consume length n =
      e.readings (fun piece => consume [piece]) length n := by
  induction e with
  | empty => exact fun _ => rfl
  | atom piece => exact fun _ => rfl
  | group number body ih =>
    intro n
    funext r
    cases number with
    | none => rw [gathered, readings, readings, ih]
    | some m => rw [gathered, readings, readings, ih]
  | sequence first second ihf ihs =>
    intro n
    funext r
    by_cases hfirst : first.IsAtom
    · obtain ⟨piece, rfl⟩ := hfirst
      rw [gathered_sequence_atom, readings_withPiece hconsume, readings, readings]
      simp only [decisions, ihs]
      rfl
    · rw [gathered_sequence hfirst, readings, readings, (same_gathered first).decisions, ihf, ihs]
  | choice first second ihf ihs =>
    intro n
    funext r
    rw [gathered, readings, readings, (same_gathered first).decisions, ihf, ihs]
  | repeated q reluctant body ih =>
    intro n
    funext r
    rw [gathered, readings, readings, (same_gathered body).nullable, (same_gathered body).vacuous,
      ih]

theorem regular_withPiece {P : List Piece → Prop} {piece : Piece} {e : Expression (List Piece)}
    (hpiece : P [piece]) (hmore : ∀ pieces, P pieces → P (piece :: pieces)) (h : e.Regular P) :
    (e.withPiece piece).Regular P := by
  unfold withPiece
  split
  · exact hmore _ h
  · exact ⟨hmore _ h.1, h.2⟩
  · exact ⟨hpiece, h⟩

theorem regular_gathered {P : List Piece → Prop} {Q : Piece → Prop}
    (hpiece : ∀ piece, Q piece → P [piece])
    (hmore : ∀ piece pieces, Q piece → P pieces → P (piece :: pieces)) {e : Expression Piece}
    (h : e.Regular Q) : e.gathered.Regular P := by
  induction e with
  | empty => trivial
  | atom piece => exact hpiece piece h
  | group number body ih => exact ih h
  | sequence first second ihf ihs =>
    by_cases hfirst : first.IsAtom
    · obtain ⟨piece, rfl⟩ := hfirst
      rw [gathered_sequence_atom]
      exact regular_withPiece (hpiece piece h.1) (fun pieces => hmore piece pieces h.1) (ihs h.2)
    · rw [gathered_sequence hfirst]
      exact ⟨ihf h.1, ihs h.2⟩
  | choice first second ihf ihs => exact ⟨ihf h.1, ihs h.2⟩
  | repeated q reluctant body ih =>
    rw [gathered, Regular, (same_gathered body).vacuous]
    exact ⟨h.1, ih h.2⟩

end Gathered

end Expression

/-! ## Pieces on the remainders of an encoding -/

variable {encoding : Text} {p q : Nat}

theorem getElem?_remainders (encoding : Text) (p : Nat) :
    (remainders encoding)[p]? = if p ≤ encoding.length then some (encoding.drop p) else none := by
  induction encoding generalizing p with
  | nil =>
    cases p with
    | zero => rfl
    | succ p => simp [remainders]
  | cons c rest ih =>
    cases p with
    | zero => rfl
    | succ p => simp [remainders, ih]

theorem consumePieces_eq (pieces : List Piece) (p : Nat) :
    consumePieces (remainders encoding).toArray pieces p =
      if p ≤ encoding.length then (coverAll? pieces (encoding.drop p)).map (p + ·) else none := by
  rw [consumePieces, List.getElem?_toArray, getElem?_remainders]
  split
  · cases hcover : coverAll? pieces (encoding.drop p) <;> simp [hcover]
  · rfl

/-- The pieces one after the other cover no more than there is. -/
theorem le_of_coverAll? {pieces : List Piece} {rest : Text} {n : Nat}
    (h : coverAll? pieces rest = some n) : n ≤ rest.length := by
  induction pieces generalizing rest n with
  | nil =>
    cases h
    exact Nat.zero_le _
  | cons piece more ih =>
    rw [coverAll?] at h
    obtain ⟨here, hhere, h⟩ := Option.bind_eq_some_iff.mp h
    obtain ⟨beyond, hbeyond, h⟩ := Option.bind_eq_some_iff.mp h
    cases h
    have hle := Piece.le_of_cover? hhere
    have hmore := ih hbeyond
    rw [List.length_drop] at hmore
    omega

theorem le_of_consumePieces {pieces : List Piece}
    (h : consumePieces (remainders encoding).toArray pieces p = some q) :
    p ≤ q ∧ q ≤ encoding.length := by
  rw [consumePieces_eq] at h
  split at h
  · obtain ⟨n, hn, rfl⟩ := Option.map_eq_some_iff.mp h
    have := le_of_coverAll? hn
    rw [List.length_drop] at this
    omega
  · cases h

theorem consumePieces_cons (piece : Piece) (pieces : List Piece) (p : Nat) :
    consumePieces (remainders encoding).toArray (piece :: pieces) p =
      (consumePieces (remainders encoding).toArray [piece] p).bind
        (consumePieces (remainders encoding).toArray pieces) := by
  rw [consumePieces_eq, consumePieces_eq]
  split
  · rename_i hle
    rw [coverAll?, coverAll?]
    cases hhere : piece.cover? (encoding.drop p) with
    | none => rfl
    | some here =>
      have hcovered := Piece.le_of_cover? hhere
      rw [List.length_drop] at hcovered
      have hwithin : p + here ≤ encoding.length := by omega
      simp only [coverAll?, Option.bind_eq_bind, Option.bind_some, Option.pure_def, Nat.add_zero,
        Option.map_some, consumePieces_eq, hwithin, if_true, List.drop_drop]
      cases coverAll? pieces (encoding.drop (p + here)) with
      | none => rfl
      | some beyond => simp [Nat.add_assoc]
  · rfl

/-- A single piece that covers something is a step on the track of the encoding. -/
theorem consumePieces_singleton (encoding : Text) {piece : Piece} (hpiece : piece.Solid) :
    consumePieces (remainders encoding).toArray [piece] = (pieceTrack encoding).consume piece := by
  funext p
  refine Option.ext fun q => ?_
  have hcover : coverAll? [piece] (encoding.drop p) = piece.cover? (encoding.drop p) := by
    cases hhere : piece.cover? (encoding.drop p) <;> simp [coverAll?, hhere]
  rw [consumePieces_eq, consume_pieceTrack, hcover]
  split
  · rw [Option.map_eq_some_iff]
    constructor
    · rintro ⟨n, hn, rfl⟩
      exact ⟨n, Piece.pos_of_cover? hpiece hn, hn, rfl⟩
    · rintro ⟨n, _, hn, rfl⟩
      exact ⟨n, hn, rfl⟩
  · rename_i hlt
    refine iff_of_false (by simp) ?_
    rintro ⟨n, hpos, hn, rfl⟩
    have hle := Piece.le_of_cover? hn
    rw [List.length_drop] at hle
    omega

/-- What a search over gathered pieces finds is the preferred reading over single pieces. -/
theorem leftmost?_gathered {e : Expression Piece} (he : e.Regular Piece.Solid) :
    leftmost? e.gathered.automaton (consumePieces (remainders encoding).toArray) encoding.length =
      (e.firstReading? (pieceTrack encoding).consume encoding.length).map
        (Reading.thread (e.gathered.instructions 0).length) := by
  have hreg : e.gathered.Regular fun pieces =>
      ∀ p q, consumePieces (remainders encoding).toArray pieces p = some q → p < q := by
    refine Expression.regular_gathered (fun piece hpiece p q h => ?_)
      (fun piece pieces hpiece hpieces p q h => ?_) he
    · rw [consumePieces_singleton encoding hpiece] at h
      exact (pieceTrack encoding).forward h
    · rw [consumePieces_cons, consumePieces_singleton encoding hpiece] at h
      obtain ⟨mid, hmid, hq⟩ := Option.bind_eq_some_iff.mp h
      exact Nat.lt_trans ((pieceTrack encoding).forward hmid) (hpieces _ _ hq)
  have hreadings : ∀ n, e.gathered.readings (consumePieces (remainders encoding).toArray)
      encoding.length n = e.readings (pieceTrack encoding).consume encoding.length n := by
    intro n
    rw [Expression.readings_gathered fun piece pieces p => consumePieces_cons piece pieces p]
    exact Expression.readings_congr (fun piece hpiece => consumePieces_singleton encoding hpiece)
      he.allAtoms n
  rw [leftmost?_automaton (fun _ _ _ h => (le_of_consumePieces h).2) hreg,
    Expression.firstReading?, Expression.firstReading?, hreadings]

end Klingon.Pattern
