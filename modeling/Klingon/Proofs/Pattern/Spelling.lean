import Klingon.Proofs.Pattern.Tokens

/-!
# Spelled expressions

An expression over tokens and its spelling over the pieces of the encoding read alike and match
alike: a standing between tokens is a standing between their blocks. A spelled expression that
matches anywhere else matches nothing but the empty sequence there.
-/

namespace Klingon.Pattern

variable {α β : Type}

/-! ## Pieces in sequence -/

section InSequence

variable {encoding : Text} {piece : Piece} {pieces : List Piece}

theorem allAtoms_inSequence (h : ∀ piece ∈ pieces, piece.Solid) :
    (Expression.inSequence (pieces.map .atom)).AllAtoms Piece.Solid := by
  induction pieces with
  | nil => trivial
  | cons piece more ih =>
    have hmore := ih fun piece hp => h piece (List.mem_cons_of_mem _ hp)
    cases more with
    | nil => exact h piece List.mem_cons_self
    | cons next more => exact ⟨h piece List.mem_cons_self, hmore⟩

/-- Some pieces in sequence are read as one atom. -/
theorem readingsOn_inSequence (hne : pieces ≠ []) (h : ∀ piece ∈ pieces, piece.Solid) (n : Nat)
    (r : Reading) :
    (Expression.inSequence (pieces.map .atom)).readingsOn (pieceTrack encoding) n r =
      ((consumePieces (remainders encoding).toArray pieces r.position).map fun position =>
        r.moveTo position).toList := by
  induction pieces generalizing n r with
  | nil => exact absurd rfl hne
  | cons piece more ih =>
    have hpiece := consumePieces_singleton encoding (h piece List.mem_cons_self)
    cases more with
    | nil => rw [hpiece]; rfl
    | cons next more =>
      have hmore := ih (by simp) fun piece hp => h piece (List.mem_cons_of_mem _ hp)
      rw [List.map_cons] at hmore
      rw [consumePieces_cons, hpiece, List.map_cons, List.map_cons, Expression.inSequence,
        Expression.readingsOn_sequence, Expression.readingsOn_atom]
      cases (pieceTrack encoding).consume piece r.position with
      | none => rfl
      | some p =>
        simp only [Option.map_some, Option.toList_some, List.flatMap_cons, List.flatMap_nil,
          List.append_nil, Option.bind_some]
        rw [hmore]
        rfl

theorem matches_inSequence (hne : pieces ≠ []) (h : ∀ piece ∈ pieces, piece.Solid)
    {x y : Standing} :
    (Expression.inSequence (pieces.map .atom)).Matches (pieceTrack encoding) x y ↔
      consumePieces (remainders encoding).toArray pieces x.1 = some y.1 ∧ y.2 = x.2 := by
  induction pieces generalizing x with
  | nil => exact absurd rfl hne
  | cons piece more ih =>
    have hpiece := consumePieces_singleton encoding (h piece List.mem_cons_self)
    cases more with
    | nil =>
      rw [hpiece]
      exact Expression.matches_atom
    | cons next more =>
      have hmore := fun x => ih (by simp) (fun piece hp => h piece (List.mem_cons_of_mem _ hp))
        (x := x)
      rw [List.map_cons] at hmore
      rw [consumePieces_cons, hpiece, Option.bind_eq_some_iff, List.map_cons, List.map_cons,
        Expression.inSequence, Expression.matches_sequence]
      simp only [Expression.matches_atom, hmore]
      constructor
      · rintro ⟨u, ⟨hp, hu⟩, hq, hy⟩
        exact ⟨⟨u.1, hp, hq⟩, hy.trans hu⟩
      · rintro ⟨⟨p, hp, hq⟩, hy⟩
        exact ⟨(p, x.2), ⟨hp, rfl⟩, hq, hy⟩

theorem isNullable_inSequence (hne : pieces ≠ []) :
    (Expression.inSequence (pieces.map Expression.atom)).isNullable = false := by
  cases pieces with
  | nil => exact absurd rfl hne
  | cons piece more => cases more <;> rfl

theorem isVacuous_inSequence (hne : pieces ≠ []) :
    (Expression.inSequence (pieces.map Expression.atom)).isVacuous = false := by
  cases pieces with
  | nil => exact absurd rfl hne
  | cons piece more => cases more <;> rfl

end InSequence

/-! ## The pieces of a block -/

theorem blockPieces_ne_nil (required : List (Option Bool)) : blockPieces required ≠ [] := by
  simp [blockPieces]

theorem solid_of_mem_blockPieces {required : List (Option Bool)} :
    ∀ piece ∈ blockPieces required, piece.Solid := by
  intro piece hpiece
  simp only [blockPieces, List.mem_cons, List.mem_map] at hpiece
  rcases hpiece with rfl | rfl | rfl | ⟨mark, _, rfl⟩
  · simp [Piece.Solid]
  · simp [Piece.Solid]
  · simp [Piece.Solid]
  · cases mark with
    | none => simp [markPiece, Piece.Solid]
    | some expected => cases expected <;> simp [markPiece, Piece.Solid]

theorem allAtoms_spelled (e : TokenExpression) : e.spelled.AllAtoms Piece.Solid := by
  induction e with
  | empty => trivial
  | atom required => exact allAtoms_inSequence solid_of_mem_blockPieces
  | group number body ih => exact ih
  | sequence first second ihf ihs => exact ⟨ihf, ihs⟩
  | choice first second ihf ihs => exact ⟨ihf, ihs⟩
  | repeated q reluctant body ih => exact ih

theorem isVacuous_spelled (e : TokenExpression) : e.spelled.isVacuous = e.isVacuous := by
  induction e with
  | empty => rfl
  | atom required => exact isVacuous_inSequence (blockPieces_ne_nil required)
  | group number body ih => exact ih
  | sequence first second ihf ihs =>
    rw [Expression.isVacuous, ← ihf, ← ihs]
    rfl
  | choice first second ihf ihs =>
    rw [Expression.isVacuous, ← ihf, ← ihs]
    rfl
  | repeated q reluctant body ih => exact ih

variable {vocabulary : List Text} {tokens : List Token}

/-- An expression over tokens and its spelling read alike. -/
theorem readsLike_spelled {e : TokenExpression}
    (he : e.AllAtoms fun required => required.length = vocabulary.length) :
    ReadsLike (tokenLaying vocabulary tokens) e e.spelled := by
  induction e with
  | empty => exact .empty
  | atom required =>
    have hne := blockPieces_ne_nil required
    exact .atom (consumePieces (remainders (encode vocabulary tokens)).toArray
      (blockPieces required)) (fun p hp => consumePieces_offset he hp) (isNullable_inSequence hne)
      (isVacuous_inSequence hne) (readingsOn_inSequence hne solid_of_mem_blockPieces)
  | group number body ih => exact (ih he).group number
  | sequence first second ihf ihs => exact (ihf he.1).sequence (ihs he.2)
  | choice first second ihf ihs => exact (ihf he.1).choice (ihs he.2)
  | repeated q reluctant body ih => exact (ih he).repeated q reluctant

/-! ## Spelled matches -/

/-- A standing as it lies in another track. -/
def Laying.standing {t : Track α} {t' : Track β} (m : Laying t t') (x : Standing) : Standing :=
  (m.place x.1, m.saves x.2)

/-- An expression matches on a track what another one matches where the track lies. -/
def MatchesLike {t : Track α} {t' : Track β} (m : Laying t t') (e : Expression α)
    (e' : Expression β) : Prop :=
  ∀ x y', x.1 ≤ t.length →
    (e'.Matches t' (m.standing x) y' ↔ ∃ y, e.Matches t x y ∧ y' = m.standing y)

namespace MatchesLike

variable {t : Track α} {t' : Track β} {m : Laying t t'} {first second body : Expression α}
  {first' second' body' : Expression β}

theorem empty : MatchesLike m .empty .empty := by
  intro x y' _
  simp only [Expression.matches_empty, exists_eq_left]

theorem unnamed (h : MatchesLike m body body') :
    MatchesLike m (.group none body) (.group none body') := by
  intro x y' hle
  simp only [Expression.matches_unnamed]
  exact h _ _ hle

theorem named (h : MatchesLike m body body') (k : Nat) :
    MatchesLike m (.group (some k) body) (.group (some k) body') := by
  intro x y' hle
  have hbody : ∀ y', body'.Matches t' (m.standing (x.1, (2 * k, x.1) :: x.2)) y' ↔
      ∃ y, body.Matches t (x.1, (2 * k, x.1) :: x.2) y ∧ y' = m.standing y := fun y' => h _ y' hle
  rw [Expression.matches_named]
  constructor
  · rintro ⟨saved, hmatches, hy⟩
    obtain ⟨u, hu, heq⟩ := (hbody _).mp hmatches
    have hposition : y'.1 = m.place u.1 := congrArg Prod.fst heq
    have hsaved : saved = m.saves u.2 := congrArg Prod.snd heq
    refine ⟨(u.1, (2 * k + 1, u.1) :: u.2), .named hu, Prod.ext hposition (hy.trans ?_)⟩
    rw [hposition, hsaved]
    rfl
  · rintro ⟨y, hy, rfl⟩
    obtain ⟨saved, hu, heq⟩ := Expression.matches_named.mp hy
    refine ⟨m.saves saved, (hbody _).mpr ⟨_, hu, rfl⟩, ?_⟩
    rw [Laying.standing, heq]
    rfl

theorem sequence (hfirst : MatchesLike m first first') (hsecond : MatchesLike m second second') :
    MatchesLike m (.sequence first second) (.sequence first' second') := by
  intro x y' hle
  rw [Expression.matches_sequence]
  constructor
  · rintro ⟨u', hf, hs⟩
    obtain ⟨u, hu, rfl⟩ := (hfirst _ _ hle).mp hf
    obtain ⟨y, hy, rfl⟩ := (hsecond _ _ (hu.le hle).2).mp hs
    exact ⟨y, .sequence hu hy, rfl⟩
  · rintro ⟨y, hy, rfl⟩
    obtain ⟨u, hf, hs⟩ := Expression.matches_sequence.mp hy
    exact ⟨m.standing u, (hfirst _ _ hle).mpr ⟨u, hf, rfl⟩, (hsecond _ _ (hf.le hle).2).mpr ⟨y, hs, rfl⟩⟩

theorem choice (hfirst : MatchesLike m first first') (hsecond : MatchesLike m second second') :
    MatchesLike m (.choice first second) (.choice first' second') := by
  intro x y' hle
  rw [Expression.matches_choice, hfirst _ _ hle, hsecond _ _ hle, ← exists_or]
  simp only [Expression.matches_choice, or_and_right]

/-- In both directions the induction is on the rounds that were made. -/
theorem repeated (h : MatchesLike m body body') (hvacuous : body'.isVacuous = body.isVacuous)
    (q : Quantifier) (reluctant : Bool) :
    MatchesLike m (.repeated q reluctant body) (.repeated q reluctant body') := by
  intro x y' hle
  constructor
  · intro hmatches
    generalize hx : m.standing x = x' at hmatches
    generalize hr : Expression.repeated q reluctant body' = e at hmatches
    induction hmatches generalizing x with
    | leave hq =>
      cases hr
      exact ⟨x, .leave hq, hx.symm⟩
    | once hround =>
      cases hr
      subst hx
      obtain ⟨y, hy, rfl⟩ := (h _ _ hle).mp hround
      exact ⟨y, .once hy, rfl⟩
    | again hq hvac hround _ _ ihm =>
      cases hr
      subst hx
      obtain ⟨u, hu, rfl⟩ := (h _ _ hle).mp hround
      obtain ⟨y, hy, rfl⟩ := ihm u (hu.le hle).2 rfl rfl
      exact ⟨y, .again hq (hvacuous ▸ hvac) hu hy, rfl⟩
    | _ => cases hr
  · rintro ⟨y, hmatches, rfl⟩
    generalize hr : Expression.repeated q reluctant body = e at hmatches
    induction hmatches with
    | leave hq =>
      cases hr
      exact .leave hq
    | once hround =>
      cases hr
      exact .once ((h _ _ hle).mpr ⟨_, hround, rfl⟩)
    | again hq hvac hround _ _ ihm =>
      cases hr
      refine .again hq (hvacuous.trans hvac) ((h _ _ hle).mpr ⟨_, hround, rfl⟩) ?_
      exact ihm (hround.le hle).2 rfl
    | _ => cases hr

end MatchesLike

/-- The pieces of a block match where the block lies what its atom matches between the tokens. -/
theorem matchesLike_block {t : Track (List (Option Bool))} {encoding : Text}
    (m : Laying t (pieceTrack encoding)) {required : List (Option Bool)}
    (h : ∀ i ≤ t.length, consumePieces (remainders encoding).toArray (blockPieces required)
      (m.place i) = (t.consume required i).map m.place) :
    MatchesLike m (.atom required) (Expression.spelled (.atom required)) := by
  intro x y' hle
  have hblock : (Expression.spelled (.atom required)).Matches (pieceTrack encoding)
      (m.standing x) y' ↔ _ :=
    matches_inSequence (blockPieces_ne_nil required) solid_of_mem_blockPieces
  have hconsume : consumePieces (remainders encoding).toArray (blockPieces required)
      (m.standing x).1 = _ := h x.1 hle
  rw [hconsume, Option.map_eq_some_iff] at hblock
  refine hblock.trans ?_
  simp only [Expression.matches_atom]
  constructor
  · rintro ⟨⟨q, hq, hy⟩, hsaved⟩
    exact ⟨(q, x.2), ⟨hq, rfl⟩, Prod.ext hy.symm hsaved⟩
  · rintro ⟨y, ⟨hq, hy⟩, rfl⟩
    exact ⟨⟨y.1, hq, rfl⟩, by rw [Laying.standing, hy]; rfl⟩

/-- An expression matches on a track what its spelling matches where the track lies. -/
theorem matches_spelled {t : Track (List (Option Bool))} {encoding : Text}
    (m : Laying t (pieceTrack encoding)) {e : TokenExpression}
    (he : e.AllAtoms fun required => ∀ i ≤ t.length,
      consumePieces (remainders encoding).toArray (blockPieces required) (m.place i) =
        (t.consume required i).map m.place) :
    MatchesLike m e e.spelled := by
  induction e with
  | empty => exact .empty
  | atom required => exact matchesLike_block m he
  | group number body ih =>
    cases number with
    | none => exact .unnamed (ih he)
    | some k => exact .named (ih he) k
  | sequence first second ihf ihs => exact .sequence (ihf he.1) (ihs he.2)
  | choice first second ihf ihs => exact .choice (ihf he.1) (ihs he.2)
  | repeated q reluctant body ih => exact .repeated (ih he) (isVacuous_spelled body) q reluctant

end Klingon.Pattern
