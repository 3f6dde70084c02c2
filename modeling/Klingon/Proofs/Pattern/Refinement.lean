import Klingon.Proofs.Pattern.Building
import Klingon.Proofs.Pattern.Completeness
import Klingon.Proofs.Pattern.Numbers
import Klingon.Proofs.Pattern.Room
import Klingon.Proofs.Pattern.Spelling

/-!
# Searching encodings is reading tokens

A pattern finds nothing in the encoding of a sentence unless its expression matches the tokens of
the sentence, and what it finds is a match of tokens from the leftmost start that has one. Which of
the matches from there it is, an expression decides whose normal form is that of the pattern, if
nothing but single pieces is lifted out of its branches: the match is its first reading.
-/

namespace Klingon.Pattern

variable {α β : Type}

/-! ## The first reading -/

theorem findSome?_range_eq_some_iff {n : Nat} {f : Nat → Option β} {b : β} :
    (List.range n).findSome? f = some b ↔ ∃ i < n, f i = some b ∧ ∀ j < i, f j = none := by
  induction n with
  | zero => simp
  | succ n ih =>
    rw [List.range_succ, List.findSome?_append, findSome?_singleton, Option.or_eq_some_iff, ih]
    constructor
    · rintro (⟨i, hi, h⟩ | ⟨hnone, h⟩)
      · exact ⟨i, by omega, h⟩
      · refine ⟨n, Nat.lt_succ_self n, h, fun j hj => ?_⟩
        exact List.findSome?_eq_none_iff.mp hnone j (List.mem_range.mpr hj)
    · rintro ⟨i, hi, h, hbefore⟩
      by_cases hin : i = n
      · subst hin
        refine .inr ⟨List.findSome?_eq_none_iff.mpr fun j hj => ?_, h⟩
        exact hbefore j (List.mem_range.mp hj)
      · exact .inl ⟨i, by omega, h, hbefore⟩

/-- The reading that starts at a position. -/
def Reading.startingAt (start : Nat) : Reading :=
  ⟨start, [(0, start)], []⟩

/-- The standing of a match that starts at a position. -/
def startingAt (start : Nat) : Standing :=
  (start, [(0, start)])

namespace Expression

variable {t : Track α} {e : Expression α} {s : Reading}

theorem firstReading?_eq_some_iff : e.firstReading? t.consume t.length = some s ↔
    ∃ start ≤ t.length, (e.readingsOn t 0 (.startingAt start)).head? = some s ∧
      ∀ before < start, e.readingsOn t 0 (.startingAt before) = [] := by
  rw [firstReading?, findSome?_range_eq_some_iff]
  simp only [Nat.lt_succ_iff, List.head?_eq_none_iff]
  rfl

theorem firstReading?_eq_none_iff : e.firstReading? t.consume t.length = none ↔
    ∀ start ≤ t.length, e.readingsOn t 0 (.startingAt start) = [] := by
  rw [firstReading?, List.findSome?_eq_none_iff]
  simp only [List.mem_range, Nat.lt_succ_iff, List.head?_eq_none_iff]
  rfl

end Expression

/-! ## Spelled expressions find the same starts -/

section Starts

variable {vocabulary : List Text} {tokens : List Token} {e : TokenExpression}

/-- Standings of tokens and of their blocks. -/
abbrev placed (vocabulary : List Text) (tokens : List Token) (x : Standing) : Standing :=
  (tokenLaying vocabulary tokens).standing x

theorem matches_spelled_offset
    (he : e.AllAtoms fun required => required.length = vocabulary.length) {x y' : Standing}
    (hx : x.1 ≤ tokens.length) :
    e.spelled.Matches (pieceTrack (encode vocabulary tokens)) (placed vocabulary tokens x) y' ↔
      ∃ y, e.Matches (tokenTrack vocabulary tokens) x y ∧ y' = placed vocabulary tokens y :=
  matches_spelled (tokenLaying vocabulary tokens)
    (he.imp fun _ hrequired _ hi => consumePieces_offset hrequired hi) _ _ hx

/-- A sentence without tokens, somewhere in an encoding. -/
def emptyLaying (vocabulary : List Text) {encoding : Text} {p : Nat} (hp : p ≤ encoding.length) :
    Laying (tokenTrack vocabulary []) (pieceTrack encoding) where
  place i := p + i
  increasing h := Nat.add_lt_add_left h p
  within h := by
    rw [Nat.le_zero.mp h]
    exact hp

/-- Inside a block there is nothing to match but the empty sequence. -/
theorem nullable_of_matches_spelled {p : Nat} (hp : p ≤ (encode vocabulary tokens).length)
    (hinside : ∀ i ≤ tokens.length, p ≠ offset vocabulary tokens i) {y' : Standing}
    (he : e.AllAtoms fun required => required.length = vocabulary.length)
    (h : e.spelled.Matches (pieceTrack (encode vocabulary tokens)) (startingAt p) y') :
    e.isNullable = true := by
  have hnone : e.AllAtoms fun required => ∀ i ≤ (tokenTrack vocabulary []).length,
      consumePieces (remainders (encode vocabulary tokens)).toArray (blockPieces required)
        ((emptyLaying vocabulary hp).place i) =
        ((tokenTrack vocabulary []).consume required i).map (emptyLaying vocabulary hp).place := by
    refine he.imp fun required _ i hi => ?_
    cases Nat.le_zero.mp hi
    cases hconsume : consumePieces (remainders (encode vocabulary tokens)).toArray
        (blockPieces required) ((emptyLaying vocabulary hp).place 0) with
    | none => rfl
    | some q =>
      obtain ⟨j, hj, heq⟩ := exists_offset_of_consumePieces hconsume
      exact absurd heq (hinside j hj)
  obtain ⟨y, hy, _⟩ := (matches_spelled (emptyLaying vocabulary hp) hnone (startingAt 0) _
    (Nat.le_refl _)).mp h
  cases hnull : e.isNullable with
  | true => rfl
  | false =>
    have hlt := hy.lt_of_not_nullable (Nat.le_refl _) hnull
    have hle := (hy.le (Nat.le_refl _)).2
    exact absurd (Nat.lt_of_lt_of_le hlt hle) (Nat.lt_irrefl _)

/-- The readings of the normal form of a spelled expression from a position. -/
abbrev normalReadings (vocabulary : List Text) (tokens : List Token) (e : TokenExpression)
    (p : Nat) : List Reading :=
  e.spelled.normal.readingsOn (pieceTrack (encode vocabulary tokens)) 0 (.startingAt p)

theorem normal_matches_iff {encoding : Text} {x y : Standing} :
    e.spelled.normal.Matches (pieceTrack encoding) x y ↔
      e.spelled.Matches (pieceTrack encoding) x y :=
  (Expression.rearranges_normal (L := fun _ => True) (allAtoms_spelled e)
    fun _ _ => trivial).symm.matches_iff

theorem normalReadings_ne_nil_iff {p : Nat} (hp : p ≤ (encode vocabulary tokens).length) :
    normalReadings vocabulary tokens e p ≠ [] ↔
      ∃ y, e.spelled.Matches (pieceTrack (encode vocabulary tokens)) (startingAt p) y := by
  constructor
  · intro hne
    obtain ⟨s, hs⟩ := List.exists_mem_of_ne_nil _ hne
    exact ⟨s.standing, normal_matches_iff.mp (Expression.matches_of_mem_readings hs)⟩
  · rintro ⟨y, hy⟩
    have hreg := Expression.regular_normal (allAtoms_spelled e)
    exact readings_ne_nil_of_matches (hreg.imp fun _ _ _ _ h => Track.forward _ h) hp
      (normal_matches_iff.mpr hy)

/-- The normal form of a spelled expression has readings from the start of a block if the expression
matches from its token. -/
theorem normalReadings_offset (he : e.AllAtoms fun required => required.length = vocabulary.length)
    {i : Nat} (hi : i ≤ tokens.length) :
    normalReadings vocabulary tokens e (offset vocabulary tokens i) ≠ [] ↔
      ∃ y, e.Matches (tokenTrack vocabulary tokens) (startingAt i) y := by
  rw [normalReadings_ne_nil_iff (offset_le_length hi)]
  have hplaced : ∀ y', e.spelled.Matches (pieceTrack (encode vocabulary tokens))
      (startingAt (offset vocabulary tokens i)) y' ↔ _ :=
    fun y' => matches_spelled_offset he (x := startingAt i) hi
  constructor
  · rintro ⟨y', h⟩
    obtain ⟨y, hy, _⟩ := (hplaced y').mp h
    exact ⟨y, hy⟩
  · rintro ⟨y, hy⟩
    exact ⟨_, (hplaced _).mpr ⟨y, hy, rfl⟩⟩

/-- If there are readings from within a block, there are some from the very beginning. -/
theorem normalReadings_zero_of_inside
    (he : e.AllAtoms fun required => required.length = vocabulary.length) {p : Nat}
    (hp : p ≤ (encode vocabulary tokens).length)
    (hinside : ∀ i ≤ tokens.length, p ≠ offset vocabulary tokens i)
    (h : normalReadings vocabulary tokens e p ≠ []) :
    normalReadings vocabulary tokens e (offset vocabulary tokens 0) ≠ [] := by
  obtain ⟨y, hy⟩ := (normalReadings_ne_nil_iff hp).mp h
  have hnull := nullable_of_matches_spelled hp hinside he hy
  exact (normalReadings_offset he (Nat.zero_le _)).mpr
    (Expression.exists_matches_of_nullable hnull _)

theorem offset_zero : offset vocabulary tokens 0 = 0 := by
  rw [offset, List.take_zero, Nat.zero_sub]
  rfl

/-- Readings start where a block starts, or there are some from the very beginning. -/
theorem offset_or_zero_of_normalReadings
    (he : e.AllAtoms fun required => required.length = vocabulary.length) {p : Nat}
    (hp : p ≤ (encode vocabulary tokens).length) (h : normalReadings vocabulary tokens e p ≠ []) :
    (∃ i ≤ tokens.length, p = offset vocabulary tokens i) ∨
      normalReadings vocabulary tokens e (offset vocabulary tokens 0) ≠ [] := by
  by_cases hinside : ∃ i ≤ tokens.length, p = offset vocabulary tokens i
  · exact .inl hinside
  · exact .inr (normalReadings_zero_of_inside he hp (fun i hi heq => hinside ⟨i, hi, heq⟩) h)

/-- The first reading of the normal form starts at the start of a block. -/
theorem firstReading?_normal_eq_some_iff
    (he : e.AllAtoms fun required => required.length = vocabulary.length) {s : Reading} :
    e.spelled.normal.firstReading? (pieceTrack (encode vocabulary tokens)).consume
        (encode vocabulary tokens).length = some s ↔
      ∃ i ≤ tokens.length,
        (normalReadings vocabulary tokens e (offset vocabulary tokens i)).head? = some s ∧
          ∀ j < i, normalReadings vocabulary tokens e (offset vocabulary tokens j) = [] := by
  have hfirst := Expression.firstReading?_eq_some_iff (t := pieceTrack (encode vocabulary tokens))
    (e := e.spelled.normal) (s := s)
  refine hfirst.trans ?_
  constructor
  · rintro ⟨start, hle, hhead, hbefore⟩
    have hne : normalReadings vocabulary tokens e start ≠ [] := by
      intro hnil
      rw [normalReadings] at hnil
      rw [hnil] at hhead
      cases hhead
    have hoffset : ∃ i ≤ tokens.length, start = offset vocabulary tokens i := by
      rcases offset_or_zero_of_normalReadings he hle hne with hoffset | hzero
      · exact hoffset
      · rw [offset_zero] at hzero
        by_cases hstart : start = 0
        · exact ⟨0, Nat.zero_le _, hstart.trans offset_zero.symm⟩
        · exact absurd (hbefore 0 (Nat.pos_of_ne_zero hstart)) hzero
    obtain ⟨i, hi, rfl⟩ := hoffset
    exact ⟨i, hi, hhead, fun j hj => hbefore _ (offset_lt_offset hj)⟩
  · rintro ⟨i, hi, hhead, hbefore⟩
    refine ⟨offset vocabulary tokens i, offset_le_length hi, hhead, fun p hp => ?_⟩
    have hle : p ≤ (encode vocabulary tokens).length :=
      Nat.le_of_lt (Nat.lt_of_lt_of_le hp (offset_le_length hi))
    by_contra hne
    rcases offset_or_zero_of_normalReadings he hle hne with ⟨j, _, rfl⟩ | hzero
    · exact hne (hbefore j (lt_of_offset_lt_offset hp))
    · have hfirst : offset vocabulary tokens 0 < offset vocabulary tokens i := by
        rw [offset_zero]
        exact Nat.lt_of_le_of_lt (Nat.zero_le p) hp
      exact hzero (hbefore 0 (lt_of_offset_lt_offset hfirst))

theorem firstReading?_normal_eq_none_iff
    (he : e.AllAtoms fun required => required.length = vocabulary.length) :
    e.spelled.normal.firstReading? (pieceTrack (encode vocabulary tokens)).consume
        (encode vocabulary tokens).length = none ↔
      ∀ i ≤ tokens.length,
        normalReadings vocabulary tokens e (offset vocabulary tokens i) = [] := by
  have hfirst := Expression.firstReading?_eq_none_iff (t := pieceTrack (encode vocabulary tokens))
    (e := e.spelled.normal)
  refine hfirst.trans ⟨fun h i hi => h _ (offset_le_length hi), fun h p hp => ?_⟩
  by_contra hne
  rcases offset_or_zero_of_normalReadings he hp hne with ⟨i, hi, rfl⟩ | hzero
  · exact hne (h i hi)
  · exact hzero (h 0 (Nat.zero_le _))

end Starts

/-! ## What is found -/

/-- An expression with the normal form of another, out of whose branches nothing but single pieces of
blocks is lifted on the way to it. -/
structure Represents (vocabulary : List Text) (e' e : TokenExpression) : Prop where
  atoms : e'.AllAtoms fun required => required.length = vocabulary.length
  normal : e'.spelled.normal = e.spelled.normal
  lifted : ∀ item ∈ e'.spelled.lifted, item.IsAtom

theorem placed_inj {vocabulary : List Text} {tokens : List Token} {x y : Standing}
    (h : placed vocabulary tokens x = placed vocabulary tokens y) : x = y := by
  have hposition := (tokenLaying vocabulary tokens).place_inj (congrArg Prod.fst h)
  have hsaved : (tokenLaying vocabulary tokens).saves x.2 =
      (tokenLaying vocabulary tokens).saves y.2 := congrArg Prod.snd h
  refine Prod.ext hposition (List.map_inj_right ?_ |>.mp hsaved)
  intro a b hab
  obtain ⟨hslot, hplace⟩ := Prod.mk.inj hab
  exact Prod.ext hslot ((tokenLaying vocabulary tokens).place_inj hplace)

/-- The match that a standing of tokens stands for. -/
def tokenMatch (groups : List (Text × Nat)) (y : Standing) : PatternMatch where
  tokens :=
    let start := (y.2.lookup 0).getD 0
    List.range' start (y.1 - start)
  groups := groups.filterMap fun (name, number) => do
    let start ← y.2.lookup (2 * number)
    let stop ← y.2.lookup (2 * number + 1)
    return (name, List.range' start (stop - start))

section Found

variable {vocabulary : List Text} {tokens : List Token} {e e' : TokenExpression} {i : Nat}
  {y : Standing}

/-- The preferred way from a token is the preferred way from its block. -/
theorem head?_normalReadings (h : Represents vocabulary e' e) (hi : i ≤ tokens.length) :
    (normalReadings vocabulary tokens e (offset vocabulary tokens i)).head?.map Reading.standing =
      (e'.readingsOn (tokenTrack vocabulary tokens) 0 (.startingAt i)).head?.map fun s =>
        placed vocabulary tokens s.standing := by
  have hlike : ReadsLike (tokenLaying vocabulary tokens) e' e'.spelled.normal :=
    (readsLike_spelled h.atoms).trans
      (Expression.rearranges_normal (allAtoms_spelled e') h.lifted).readsLike
  obtain ⟨C, hC, hways⟩ := hlike.readings 0 0
  have hstart : Corresponds (tokenLaying vocabulary tokens) C (.startingAt i)
      (.startingAt (offset vocabulary tokens i)) := ⟨hi, rfl, rfl, hC.blank⟩
  have hsame := (hways _ _ hstart).first (fun s => some (placed vocabulary tokens s.standing))
    (fun s => some s.standing) fun s _ s' _ hs => by
      rw [Reading.standing, Reading.standing, hs.position, hs.saved]
      rfl
  have hhead : ∀ (l : List Reading) (f : Reading → Standing),
      l.findSome? (fun s => some (f s)) = l.head?.map f := by
    intro l f
    cases l <;> rfl
  rw [hhead, hhead] at hsame
  rw [normalReadings, ← h.normal]
  exact hsame.symm

/-- The first reading of tokens is the first reading of their encoding. -/
theorem firstReading?_normal (he : e.AllAtoms fun required => required.length = vocabulary.length)
    (h : Represents vocabulary e' e) :
    (e.spelled.normal.firstReading? (pieceTrack (encode vocabulary tokens)).consume
        (encode vocabulary tokens).length).map Reading.standing =
      (e'.firstReading? (tokenTrack vocabulary tokens).consume tokens.length).map fun s =>
        placed vocabulary tokens s.standing := by
  have hnil : ∀ {i}, i ≤ tokens.length →
      (normalReadings vocabulary tokens e (offset vocabulary tokens i) = [] ↔
        e'.readingsOn (tokenTrack vocabulary tokens) 0 (.startingAt i) = []) := by
    intro i hi
    have hhead := head?_normalReadings h hi
    rw [← List.head?_eq_none_iff, ← List.head?_eq_none_iff, ← Option.map_eq_none_iff, hhead,
      Option.map_eq_none_iff]
  cases hfirst : e'.firstReading? (tokenTrack vocabulary tokens).consume tokens.length with
  | none =>
    have hall := Expression.firstReading?_eq_none_iff.mp hfirst
    have hnone := (firstReading?_normal_eq_none_iff he).mpr fun i (hi : i ≤ tokens.length) =>
      (hnil hi).mpr (hall i hi)
    rw [hnone]
    rfl
  | some s =>
    obtain ⟨i, hi, hhead, hbefore⟩ := Expression.firstReading?_eq_some_iff.mp hfirst
    have hplaced := head?_normalReadings h hi
    rw [hhead, Option.map_some, Option.map_eq_some_iff] at hplaced
    obtain ⟨s', hs', hstanding⟩ := hplaced
    have hsome := (firstReading?_normal_eq_some_iff he).mpr
      ⟨i, hi, hs', fun j hj => (hnil (Nat.le_trans (Nat.le_of_lt hj) hi)).mpr (hbefore j hj)⟩
    rw [hsome, Option.map_some, Option.map_some, hstanding]

theorem lookup_saves (saved : List (Nat × Nat)) (slot : Nat) :
    ((tokenLaying vocabulary tokens).saves saved).lookup slot =
      (saved.lookup slot).map (offset vocabulary tokens) := by
  induction saved with
  | nil => rfl
  | cons entry saved ih =>
    rw [Laying.saves, List.map_cons, List.lookup_cons, List.lookup_cons]
    by_cases heq : slot == entry.1
    · rw [heq]
      rfl
    · rw [Bool.eq_false_iff.mpr heq]
      exact ih

/-- A match of tokens saves its start in slot zero and keeps what it saves in order between its
ends. -/
structure Orderly (tokens : List Token) (i : Nat) (y : Standing) : Prop where
  start : y.2.lookup 0 = some i
  forward : i ≤ y.1
  within : y.1 ≤ tokens.length
  groups : ∀ number start stop, 0 < number → y.2.lookup (2 * number) = some start →
    y.2.lookup (2 * number + 1) = some stop → i ≤ start ∧ start ≤ stop ∧ stop ≤ y.1

theorem mem_of_lookup {κ ν : Type} [BEq κ] [LawfulBEq κ] {pairs : List (κ × ν)} {key : κ}
    {value : ν} (h : pairs.lookup key = some value) : (key, value) ∈ pairs := by
  obtain ⟨front, back, rfl, _⟩ := List.lookup_eq_some_iff.mp h
  exact List.mem_append_right _ List.mem_cons_self

/-- What a match saved lies within it. -/
theorem between_of_lookup {t : Track α} {e : Expression α} {slot position : Nat}
    (h : e.Matches t (startingAt i) y) (hi : i ≤ t.length)
    (hposition : y.2.lookup slot = some position) : i ≤ position ∧ position ≤ y.1 := by
  rcases h.saved_between hi _ (mem_of_lookup hposition) with hstart | hbetween
  · cases List.mem_singleton.mp hstart
    exact ⟨Nat.le_refl _, (h.le hi).1⟩
  · exact hbetween

theorem orderly_of_matches (hpos : ∀ m ∈ e.groupNumbers, 0 < m) (hi : i ≤ tokens.length)
    (h : e.Matches (tokenTrack vocabulary tokens) (startingAt i) y) : Orderly tokens i y := by
  have hle := h.le hi
  refine ⟨?_, hle.1, hle.2, fun number start stop hnumber hstart hstop => ?_⟩
  · have hslot : y.2.lookup 0 = (startingAt i).2.lookup 0 := h.lookup_eq fun m hm => by
      have := hpos m hm
      omega
    rw [hslot]
    rfl
  · have hopen : Expression.InOrder number (startingAt i).2 := by
      intro start stop hstart _
      have hne : (2 * number == 0) = false := beq_eq_false_iff_ne.mpr (by omega)
      rw [startingAt, List.lookup_cons, hne] at hstart
      cases hstart
    have hsaved : ∀ entry ∈ (startingAt i).2, entry.2 ≤ (startingAt i).1 := by
      intro entry hentry
      cases List.mem_singleton.mp hentry
      exact Nat.le_refl _
    have horder := h.inOrder hi hsaved hopen start stop hstart hstop
    exact ⟨(between_of_lookup h hi hstart).1, horder, (between_of_lookup h hi hstop).2⟩

theorem filterMap_congr_of_mem {l : List α} {f g : α → Option β} (h : ∀ a ∈ l, f a = g a) :
    l.filterMap f = l.filterMap g := by
  have hmap := congrArg (List.filterMap id) (List.map_congr_left h)
  rw [List.filterMap_map, List.filterMap_map] at hmap
  exact hmap

/-- What a thread saves for a standing of tokens. -/
theorem saved?_eq {thread : Thread}
    (hthread : (thread.position, thread.saved) = placed vocabulary tokens y) (slot : Nat) :
    thread.saved? slot = (y.2.lookup slot).map (offset vocabulary tokens) := by
  have hsaved : thread.saved = (tokenLaying vocabulary tokens).saves y.2 := congrArg Prod.snd hthread
  rw [Thread.saved?, hsaved, lookup_saves]

/-- Whatever the number of tokens, those of a match and of its groups are numbered in order. -/
theorem increasing_matchOf {pattern : Pattern} (hpos : ∀ p ∈ pattern.groups, 0 < p.2)
    (h : Orderly tokens i y) {thread : Thread}
    (hthread : (thread.position, thread.saved) = placed vocabulary tokens y) :
    (pattern.matchOf (encode vocabulary tokens) thread).tokens.Pairwise (· < ·) ∧
      ∀ group ∈ (pattern.matchOf (encode vocabulary tokens) thread).groups,
        group.2.Pairwise (· < ·) := by
  have hposition : thread.position = offset vocabulary tokens y.1 := congrArg Prod.fst hthread
  constructor
  · show (tokenNumbers (slice (encode vocabulary tokens)
      ((thread.saved? 0).getD 0, thread.position))).Pairwise (· < ·)
    rw [saved?_eq hthread, h.start, hposition, Option.map_some, Option.getD_some,
      tokenNumbers_slice h.forward h.within]
    exact increasing_numbersFrom i _
  · intro group hgroup
    obtain ⟨⟨name, number⟩, hmem, hnamed⟩ := List.mem_filterMap.mp hgroup
    obtain ⟨extent, hextent, rfl⟩ := Option.map_eq_some_iff.mp hnamed
    rw [Thread.group?, saved?_eq hthread, saved?_eq hthread] at hextent
    cases hstart : y.2.lookup (2 * number) with
    | none =>
      rw [hstart] at hextent
      cases hextent
    | some start =>
      cases hstop : y.2.lookup (2 * number + 1) with
      | none =>
        rw [hstart, hstop] at hextent
        cases hextent
      | some stop =>
        rw [hstart, hstop] at hextent
        cases hextent
        obtain ⟨_, hle, hbound⟩ := h.groups number start stop (hpos _ hmem) hstart hstop
        show (tokenNumbers (slice (encode vocabulary tokens)
          (offset vocabulary tokens start, offset vocabulary tokens stop))).Pairwise (· < ·)
        rw [tokenNumbers_slice hle (Nat.le_trans hbound h.within)]
        exact increasing_numbersFrom start _

/-- The match that is read off the encoding is the one the standing of tokens stands for. -/
theorem matchOf_eq {pattern : Pattern} (hpos : ∀ p ∈ pattern.groups, 0 < p.2)
    (h : Orderly tokens i y) (hlimit : tokens.length ≤ tokenNumberLimit) {thread : Thread}
    (hthread : (thread.position, thread.saved) = placed vocabulary tokens y) :
    pattern.matchOf (encode vocabulary tokens) thread = tokenMatch pattern.groups y := by
  have hposition : thread.position = offset vocabulary tokens y.1 := congrArg Prod.fst hthread
  have hslot := saved?_eq hthread
  have htokens : tokenNumbers (slice (encode vocabulary tokens)
      ((thread.saved? 0).getD 0, thread.position)) = (tokenMatch pattern.groups y).tokens := by
    rw [hslot, h.start, hposition]
    have hnumbers := @tokenNumbers_slice vocabulary _ _ _ h.forward h.within
    rw [numbersFrom_eq h.forward (Nat.le_trans h.within hlimit)] at hnumbers
    rw [tokenMatch, h.start]
    exact hnumbers
  have hgroups : (pattern.groups.filterMap fun (name, number) =>
      (thread.group? number).map fun extent =>
        (name, tokenNumbers (slice (encode vocabulary tokens) extent))) =
      (tokenMatch pattern.groups y).groups := by
    refine filterMap_congr_of_mem fun p hp => ?_
    obtain ⟨name, number⟩ := p
    dsimp only
    rw [Thread.group?, hslot, hslot]
    cases hstart : y.2.lookup (2 * number) with
    | none => rfl
    | some start =>
      cases hstop : y.2.lookup (2 * number + 1) with
      | none => rfl
      | some stop =>
        obtain ⟨_, hle, hstop⟩ := h.groups number start stop (hpos _ hp) hstart hstop
        have hwithin := Nat.le_trans hstop h.within
        have hnumbers := @tokenNumbers_slice vocabulary _ _ _ hle hwithin
        rw [numbersFrom_eq hle (Nat.le_trans hwithin hlimit)] at hnumbers
        simp [hnumbers]
  rw [matchOf, htokens, hgroups]

end Found

/-- The accepting thread of the leftmost match of a pattern in an encoded sentence. -/
def accepting? (pattern : Pattern) (tokens : List Token) : Option Thread :=
  let encoding := encode pattern.vocabulary tokens
  leftmost? pattern.automaton (consumePieces (remainders encoding).toArray) encoding.length

/-- Searching for a pattern in the encoding of a sentence is reading its expression on the tokens.
Nothing is found if the expression matches from no token. What is accepted starts, ends and saves its
groups where blocks start: it is a match of tokens, from the leftmost token that has one. Which of the
matches from there it is, the normal form always decides: it is the first reading of that, and the
first reading of any expression that represents that of the pattern. -/
structure ReadsTokens (pattern : Pattern) (e : TokenExpression) (tokens : List Token) : Prop where
  nothing : pattern.find? (encode pattern.vocabulary tokens) = none ↔
    ∀ i ≤ tokens.length, ∀ y,
      ¬ e.Matches (tokenTrack pattern.vocabulary tokens) (startingAt i) y
  something : ∀ thread, accepting? pattern tokens = some thread → ∃ i y,
    e.Matches (tokenTrack pattern.vocabulary tokens) (startingAt i) y ∧
      (∀ j < i, ∀ y', ¬ e.Matches (tokenTrack pattern.vocabulary tokens) (startingAt j) y') ∧
      Orderly tokens i y ∧
      (thread.position, thread.saved) = placed pattern.vocabulary tokens y ∧
      pattern.find? (encode pattern.vocabulary tokens) = some (tokenMatch pattern.groups y)
  chosen : (accepting? pattern tokens).map (fun thread => (thread.position, thread.saved)) =
    (e.spelled.normal.firstReading? (pieceTrack (encode pattern.vocabulary tokens)).consume
      (encode pattern.vocabulary tokens).length).map Reading.standing
  preferred : ∀ e', Represents pattern.vocabulary e' e →
    pattern.find? (encode pattern.vocabulary tokens) =
      (e'.firstReading? (tokenTrack pattern.vocabulary tokens).consume tokens.length).map fun s =>
        tokenMatch pattern.groups s.standing

theorem find?_encode (pattern : Pattern) (tokens : List Token) :
    pattern.find? (encode pattern.vocabulary tokens) =
      (accepting? pattern tokens).map (pattern.matchOf (encode pattern.vocabulary tokens)) := by
  rfl

section Search

variable {source : Text} {pattern : Pattern} {nodes : List Node} {e e' : TokenExpression}
  {tokens : List Token}

namespace Compiles

theorem pos_of_mem_groups (h : Compiles source pattern nodes e) : ∀ p ∈ pattern.groups, 0 < p.2 := by
  rintro ⟨name, number⟩ hp
  have hle := List.le_snd_of_mem_zipIdx ((h.groups name number).mp hp)
  exact hle

theorem pos_of_mem_groupNumbers (h : Compiles source pattern nodes e) :
    ∀ m ∈ e.groupNumbers, 0 < m := by
  intro m hm
  rw [(of_expression? h.expression).2, List.mem_range'_1] at hm
  omega

/-- The search follows the first reading of the normal form. -/
theorem accepting?_eq (h : Compiles source pattern nodes e) :
    accepting? pattern tokens = (e.spelled.normal.firstReading?
      (pieceTrack (encode pattern.vocabulary tokens)).consume
      (encode pattern.vocabulary tokens).length).map
        (Reading.thread (e.spelled.normal.gathered.instructions 0).length) := by
  rw [accepting?, h.automaton]
  exact leftmost?_gathered (Expression.regular_normal (allAtoms_spelled e))

/-- What is accepted is a match of tokens from the leftmost start. -/
theorem exists_matches_of_accepting? (h : Compiles source pattern nodes e) {thread : Thread}
    (hthread : accepting? pattern tokens = some thread) : ∃ i y, i ≤ tokens.length ∧
      e.Matches (tokenTrack pattern.vocabulary tokens) (startingAt i) y ∧
      (∀ j < i, ∀ y', ¬ e.Matches (tokenTrack pattern.vocabulary tokens) (startingAt j) y') ∧
      (thread.position, thread.saved) = placed pattern.vocabulary tokens y := by
  have hatoms := (of_expression? h.expression).1
  rw [h.accepting?_eq, Option.map_eq_some_iff] at hthread
  obtain ⟨s, hs, rfl⟩ := hthread
  obtain ⟨i, hi, hhead, hbefore⟩ := (firstReading?_normal_eq_some_iff hatoms).mp hs
  have hmem : s ∈ normalReadings pattern.vocabulary tokens e (offset pattern.vocabulary tokens i) :=
    List.mem_of_mem_head? (Option.mem_def.mpr hhead)
  have hspelled : e.spelled.Matches (pieceTrack (encode pattern.vocabulary tokens))
      (placed pattern.vocabulary tokens (startingAt i)) s.standing :=
    normal_matches_iff.mp (Expression.matches_of_mem_readings hmem)
  obtain ⟨y, hy, hstanding⟩ := (matches_spelled_offset hatoms hi).mp hspelled
  refine ⟨i, y, hi, hy, fun j hj y' hy' => ?_, hstanding⟩
  have hle : j ≤ tokens.length := Nat.le_trans (Nat.le_of_lt hj) hi
  exact (normalReadings_offset hatoms hle).mpr ⟨y', hy'⟩ (hbefore j hj)

theorem find?_eq_none_iff (h : Compiles source pattern nodes e) :
    pattern.find? (encode pattern.vocabulary tokens) = none ↔
      ∀ i ≤ tokens.length, ∀ y,
        ¬ e.Matches (tokenTrack pattern.vocabulary tokens) (startingAt i) y := by
  have hatoms := (of_expression? h.expression).1
  rw [find?_encode, Option.map_eq_none_iff, h.accepting?_eq, Option.map_eq_none_iff,
    firstReading?_normal_eq_none_iff hatoms]
  refine forall_congr' fun i => imp_congr_right fun hi => ?_
  have hoffset := normalReadings_offset hatoms hi
  constructor
  · intro hnil y hy
    exact hoffset.mpr ⟨y, hy⟩ hnil
  · intro hnone
    by_cases hnil : normalReadings pattern.vocabulary tokens e
        (offset pattern.vocabulary tokens i) = []
    · exact hnil
    · obtain ⟨y, hy⟩ := hoffset.mp hnil
      exact absurd hy (hnone y)

theorem find?_eq_firstReading? (h : Compiles source pattern nodes e)
    (he' : Represents pattern.vocabulary e' e) (hlimit : tokens.length ≤ tokenNumberLimit) :
    pattern.find? (encode pattern.vocabulary tokens) =
      (e'.firstReading? (tokenTrack pattern.vocabulary tokens).consume tokens.length).map fun s =>
        tokenMatch pattern.groups s.standing := by
  have hatoms := (of_expression? h.expression).1
  have hfirst := @firstReading?_normal _ tokens _ _ hatoms he'
  rw [find?_encode]
  cases haccept : accepting? pattern tokens with
  | none =>
    rw [h.accepting?_eq, Option.map_eq_none_iff] at haccept
    rw [haccept, Option.map_none, eq_comm, Option.map_eq_none_iff] at hfirst
    rw [hfirst]
    rfl
  | some thread =>
    obtain ⟨i, y, hi, hy, _, hplaced⟩ := h.exists_matches_of_accepting? haccept
    have horderly := orderly_of_matches h.pos_of_mem_groupNumbers hi hy
    rw [Option.map_some, matchOf_eq h.pos_of_mem_groups horderly hlimit hplaced]
    rw [h.accepting?_eq, Option.map_eq_some_iff] at haccept
    obtain ⟨s, hs, rfl⟩ := haccept
    rw [hs, Option.map_some, eq_comm, Option.map_eq_some_iff] at hfirst
    obtain ⟨s', hs', hstanding⟩ := hfirst
    have hsame : s'.standing = y := placed_inj (hstanding.trans hplaced)
    rw [hs', Option.map_some, hsame]

/-- The tokens of a match and of its groups are numbered in order. -/
theorem increasing_find? (h : Compiles source pattern nodes e) {found : PatternMatch}
    (hfound : pattern.find? (encode pattern.vocabulary tokens) = some found) :
    found.tokens.Pairwise (· < ·) ∧ ∀ group ∈ found.groups, group.2.Pairwise (· < ·) := by
  rw [find?_encode, Option.map_eq_some_iff] at hfound
  obtain ⟨thread, hthread, rfl⟩ := hfound
  obtain ⟨i, y, hi, hy, _, hplaced⟩ := h.exists_matches_of_accepting? hthread
  exact increasing_matchOf h.pos_of_mem_groups
    (orderly_of_matches h.pos_of_mem_groupNumbers hi hy) hplaced

theorem readsTokens (h : Compiles source pattern nodes e)
    (hlimit : tokens.length ≤ tokenNumberLimit) : ReadsTokens pattern e tokens where
  nothing := h.find?_eq_none_iff
  something thread hthread := by
    obtain ⟨i, y, hi, hy, hbefore, hplaced⟩ := h.exists_matches_of_accepting? hthread
    have horderly := orderly_of_matches h.pos_of_mem_groupNumbers hi hy
    refine ⟨i, y, hy, hbefore, horderly, hplaced, ?_⟩
    rw [find?_encode, hthread, Option.map_some,
      matchOf_eq h.pos_of_mem_groups horderly hlimit hplaced]
  chosen := by
    rw [h.accepting?_eq, Option.map_map]
    rfl
  preferred e' he' := h.find?_eq_firstReading? he' hlimit

end Compiles

end Search

/-- A pattern that compiles reads the tokens of every sentence. Its groups are those of its nodes, in
the order in which they open, and a token meets a condition if each bit that the condition asks about
is marked as the first literal of the bit says. -/
theorem exists_readsTokens_of_ofText {source : Text} {pattern : Pattern}
    (h : Pattern.ofText source = .ok pattern) : ∃ nodes e, Compiles source pattern nodes e ∧
      e.groupNumbers = List.range' 1 (groupNames nodes).length ∧
      (∀ (literals : List Literal) (token : Token),
        token.meets pattern.vocabulary (requirements pattern.vocabulary literals) = true ↔
          ∀ bit ∈ pattern.vocabulary, ∀ literal, literals.find? (·.bit = bit) = some literal →
            token.mark bit = markFor literal.expected) ∧
      ∀ tokens, tokens.length ≤ tokenNumberLimit → ReadsTokens pattern e tokens := by
  obtain ⟨nodes, e, hcompiles⟩ := compiles_of_ofText h
  refine ⟨nodes, e, hcompiles, (of_expression? hcompiles.expression).2, fun literals token => ?_,
    fun tokens hlimit => hcompiles.readsTokens hlimit⟩
  exact meets_requirements

/-! ## A common repetition

Both branches of a choice begin with any tokens. As these are taken together before a branch is
chosen, they cover as much as they can for the later branch too.
-/

section CommonRepetition

theorem ofNodes_eq_ok {source : Text} {nodes : List Node} {e : TokenExpression}
    {form : Expression Piece} (hcheck : checkGroups [] 0 nodes = .ok ())
    (hexpression : expression? (vocabularyOf nodes) nodes = some e) (hform : formOf e = .ok form) :
    ofNodes source nodes = .ok {
      source
      vocabulary := vocabularyOf nodes
      groups := numberedGroups nodes
      expression := written (vocabularyOf nodes) nodes
      automaton := form.gathered.automaton } := by
  simp only [ofNodes, hcheck, hexpression, hform, bind, Except.bind, pure, Except.pure]

/-- Any tokens up to a comma, or else any tokens up to a full stop. -/
def commaOrPeriod : Text :=
  "(.* {Comma}|.* {Period})"

def commaOrPeriodNodes : List Node :=
  [.groupOpen none, .wildcard none, .quantifier .star, .condition none [⟨"Comma", true⟩], .bar,
    .wildcard none, .quantifier .star, .condition none [⟨"Period", true⟩], .groupClose]

def anyTokens : TokenExpression :=
  .repeated .star false (.group none (.atom [none, none]))

def commaToken : TokenExpression :=
  .group none (.atom [some true, none])

def periodToken : TokenExpression :=
  .group none (.atom [none, some true])

def commaOrPeriodExpression : TokenExpression :=
  .group none (.choice (.sequence anyTokens commaToken) (.sequence anyTokens periodToken))

/-- Any tokens, and after them a comma or a full stop. -/
def thenCommaOrPeriod : TokenExpression :=
  .sequence anyTokens (.group none (.choice commaToken periodToken))

def anyPieces : Expression Piece :=
  .inSequence ((blockPieces [none, none]).map .atom)

def commaOrPeriodPieces : Expression Piece :=
  .sequence (.atom (.text [','])) (.sequence (.atom .digits)
    (.choice (.sequence (.atom (.text [':', '1'])) (.atom (.among anyMark)))
      (.sequence (.atom (.text [':']))
        (.sequence (.atom (.among anyMark)) (.atom (.text ['1']))))))

theorem normal_commaOrPeriod : commaOrPeriodExpression.spelled.normal =
    .sequence (.repeated .star false anyPieces) commaOrPeriodPieces := by
  decide +kernel

theorem normal_thenCommaOrPeriod : thenCommaOrPeriod.spelled.normal =
    .sequence (.repeated .star false anyPieces) commaOrPeriodPieces := by
  decide +kernel

theorem fits_commaOrPeriod : commaOrPeriodExpression.spelled.normal.fits = true :=
  Expression.fits_of_room _ (by decide +kernel)

def commaOrPeriodPattern : Pattern where
  source := commaOrPeriod
  vocabulary := ["Comma", "Period"]
  groups := []
  expression := written ["Comma", "Period"] commaOrPeriodNodes
  automaton := commaOrPeriodExpression.spelled.normal.gathered.automaton

theorem readNodes_commaOrPeriod : readNodes 0 commaOrPeriod = .ok commaOrPeriodNodes := by
  have hnodes : (readNodes 0 commaOrPeriod).toOption = some commaOrPeriodNodes := by
    decide +kernel
  cases hread : readNodes 0 commaOrPeriod with
  | error fault =>
    rw [hread] at hnodes
    cases hnodes
  | ok nodes =>
    rw [hread] at hnodes
    rw [Option.some.inj hnodes]

theorem expression?_commaOrPeriod :
    expression? ["Comma", "Period"] commaOrPeriodNodes = some commaOrPeriodExpression := by
  decide +kernel

theorem ofText_commaOrPeriod : Pattern.ofText commaOrPeriod = .ok commaOrPeriodPattern := by
  have hvocabulary : vocabularyOf commaOrPeriodNodes = ["Comma".toList, "Period".toList] := by
    decide
  have hexpression : expression? (vocabularyOf commaOrPeriodNodes) commaOrPeriodNodes =
      some commaOrPeriodExpression := by
    rw [hvocabulary]
    exact expression?_commaOrPeriod
  have hform : formOf commaOrPeriodExpression = .ok commaOrPeriodExpression.spelled.normal := by
    rw [formOf, if_neg (by decide), if_pos fits_commaOrPeriod]
  have hgroups : numberedGroups commaOrPeriodNodes = [] := rfl
  have hnodes : ofNodes commaOrPeriod commaOrPeriodNodes = .ok commaOrPeriodPattern := by
    rw [ofNodes_eq_ok rfl hexpression hform, hvocabulary, hgroups]
    rfl
  rw [ofText, readNodes_commaOrPeriod, Except.bind, hnodes]
  rfl

theorem compiles_commaOrPeriod :
    Compiles commaOrPeriod commaOrPeriodPattern commaOrPeriodNodes commaOrPeriodExpression where
  reads := readNodes_commaOrPeriod
  vocabulary := by decide
  expression := expression?_commaOrPeriod
  groups _ _ := Iff.rfl
  automaton := rfl

theorem represents_thenCommaOrPeriod :
    Represents ["Comma", "Period"] thenCommaOrPeriod commaOrPeriodExpression where
  atoms := by simp [thenCommaOrPeriod, anyTokens, commaToken, periodToken, Expression.AllAtoms]
  normal := normal_thenCommaOrPeriod.trans normal_commaOrPeriod.symm
  lifted := by
    have hlifted : thenCommaOrPeriod.spelled.lifted = [.atom (.text [',']), .atom .digits] := by
      decide +kernel
    rw [hlifted]
    intro item hitem
    rcases List.mem_cons.mp hitem with rfl | hitem
    · exact ⟨_, rfl⟩
    · cases List.mem_singleton.mp hitem
      exact ⟨_, rfl⟩

/-- A comma and a full stop. -/
def commaPeriod : List Token :=
  [⟨0, .punct, ",", []⟩, ⟨1, .punct, ".", []⟩]

theorem readsTokens_commaPeriod : ∃ nodes e,
    Compiles commaOrPeriod commaOrPeriodPattern nodes e ∧
      ReadsTokens commaOrPeriodPattern e commaPeriod := by
  obtain ⟨nodes, e, hcompiles, _, _, hreads⟩ := exists_readsTokens_of_ofText ofText_commaOrPeriod
  exact ⟨nodes, e, hcompiles, hreads commaPeriod (by decide)⟩

/-- The first branch matches the comma alone, yet the full stop is found too. -/
theorem find?_ne_firstReading?_commaPeriod :
    Pattern.ofText commaOrPeriod = .ok commaOrPeriodPattern ∧
      Compiles commaOrPeriod commaOrPeriodPattern commaOrPeriodNodes commaOrPeriodExpression ∧
      commaOrPeriodPattern.find? (encode commaOrPeriodPattern.vocabulary commaPeriod) =
        some ⟨[0, 1], []⟩ ∧
      (commaOrPeriodExpression.firstReading?
        (tokenTrack commaOrPeriodPattern.vocabulary commaPeriod).consume commaPeriod.length).map
          (fun s => tokenMatch commaOrPeriodPattern.groups s.standing) = some ⟨[0], []⟩ := by
  refine ⟨ofText_commaOrPeriod, compiles_commaOrPeriod, ?_, by decide +kernel⟩
  rw [compiles_commaOrPeriod.find?_eq_firstReading? represents_thenCommaOrPeriod (by decide)]
  decide +kernel

end CommonRepetition

end Klingon.Pattern
