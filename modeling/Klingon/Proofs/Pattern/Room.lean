import Mathlib.Data.List.Forall2
import Klingon.Pattern.Room

/-!
# How much room an expression takes

The digits of all scripts share some of their bytes, and how many they share depends on what is
remembered of the bytes that are laid out. In any case no more is laid out than all bytes of all
digits. The other parts of an expression take the same room wherever they stand, so that there is a
bound on the room of an expression that is easy to compute.
-/

namespace Klingon.Pattern.Layout

variable (slot : Way → Nat)

@[simp]
theorem bytes_place (beside : Nat) (l : Layout) : (l.place beside).bytes = l.bytes + 32 + beside := by
  simp only [place, bytes, placeRoom]
  omega

@[simp]
theorem bytes_keep (beside : Nat) (l : Layout) : (l.keep beside).bytes = l.bytes + beside := by
  simp only [keep, bytes]
  omega

@[simp]
theorem bytes_parting (ways : Nat) (l : Layout) :
    (l.parting ways).bytes = l.bytes + 32 + 4 * ways :=
  bytes_place (targetRoom * ways) l

theorem bytes_layByte_le (state : Layout × Memory × Nat) (range : UInt8 × UInt8) :
    (layByte slot state range).1.bytes ≤ state.1.bytes + 32 := by
  obtain ⟨l, memory, target⟩ := state
  have hplace : (l.place 0).bytes = l.bytes + 32 := bytes_place 0 l
  rw [layByte]
  dsimp only
  split
  · split
    · exact Nat.le_add_right _ _
    · exact Nat.le_of_eq hplace
  · exact Nat.le_of_eq hplace

theorem bytes_foldl_layByte_le (ranges : List (UInt8 × UInt8)) (state : Layout × Memory × Nat) :
    (ranges.foldl (layByte slot) state).1.bytes ≤ state.1.bytes + 32 * ranges.length := by
  induction ranges generalizing state with
  | nil => exact Nat.le_refl _
  | cons range ranges ih =>
    have hone := bytes_layByte_le slot state range
    have hmore := ih (layByte slot state range)
    rw [List.foldl_cons, List.length_cons]
    omega

theorem bytes_layDigitRange_le (finish : Nat) (state : Layout × Memory)
    (ranges : List (UInt8 × UInt8)) :
    (layDigitRange slot finish state ranges).1.bytes ≤ state.1.bytes + (32 * ranges.length + 4) := by
  have hbytes := bytes_foldl_layByte_le slot ranges (state.1, state.2, finish)
  rw [layDigitRange]
  dsimp only
  rw [bytes_keep, targetRoom]
  exact Nat.add_le_add_right hbytes 4

/-- The room of some ranges of digits when no byte of theirs is shared. -/
def rangesRoom : List (List (UInt8 × UInt8)) → Nat
  | [] => 0
  | ranges :: more => 32 * ranges.length + 4 + rangesRoom more

theorem bytes_foldl_layDigitRange_le (finish : Nat) (list : List (List (UInt8 × UInt8)))
    (state : Layout × Memory) :
    (list.foldl (layDigitRange slot finish) state).1.bytes ≤
      state.1.bytes + rangesRoom list := by
  induction list generalizing state with
  | nil => exact Nat.le_refl _
  | cons ranges list ih =>
    have hone := bytes_layDigitRange_le slot finish state ranges
    have hmore := ih (layDigitRange slot finish state ranges)
    rw [List.foldl_cons, rangesRoom]
    omega

/-- The room that all bytes of all digits take. -/
def digitsRoom : Nat :=
  rangesRoom digitBytes + 104

theorem bytes_digits_le (l : Layout) : l.digits.bytes ≤ l.bytes + digitsRoom := by
  rw [digits]
  split
  · exact Nat.le_add_right _ _
  · have hranges := bytes_foldl_layDigitRange_le Way.slot (l.places + 1) digitBytes
      ((l.place 0).place 0, Array.replicate memorySize none)
    dsimp only at hranges ⊢
    rw [bytes_place, bytes_place] at hranges
    rw [bytes_parting, digitsRoom]
    omega

/-! ## Texts -/

/-- Whether a layout takes the same room wherever it stands. -/
def IsSteady (f : Layout → Layout) : Prop :=
  ∀ l, (f l).bytes = l.bytes + (f ⟨0, 0⟩).bytes

theorem isSteady_id : IsSteady fun l => l :=
  fun l => (Nat.add_zero l.bytes).symm

theorem isSteady_place (beside : Nat) : IsSteady (place beside) := by
  intro l
  have hempty : (⟨0, 0⟩ : Layout).bytes = 0 := rfl
  rw [bytes_place, bytes_place, hempty]
  omega

theorem IsSteady.comp {f g : Layout → Layout} (hf : IsSteady f) (hg : IsSteady g) :
    IsSteady fun l => f (g l) := by
  intro l
  show (f (g l)).bytes = l.bytes + (f (g ⟨0, 0⟩)).bytes
  rw [hf (g l), hg l, hf (g ⟨0, 0⟩), Nat.add_assoc]

theorem IsSteady.foldl {α : Type} {f : α → Layout → Layout} (h : ∀ a, IsSteady (f a))
    (items : List α) : IsSteady fun l => items.foldl (fun l a => f a l) l := by
  induction items with
  | nil => exact isSteady_id
  | cons a rest ih => exact ih.comp (h a)

theorem isSteady_shared (depth : Nat) (texts : List Text) : IsSteady (shared depth texts) := by
  induction depth generalizing texts with
  | zero => exact isSteady_id
  | succ depth ih =>
    cases hheads : (texts.filterMap List.head?).eraseDups with
    | nil =>
      have hnone : shared (depth + 1) texts = fun l => l := by
        funext l
        simp only [shared, hheads]
      exact hnone ▸ isSteady_id
    | cons c more =>
      have hsome : shared (depth + 1) texts = fun l =>
          (c :: more).foldl
            (fun l c => shared depth ((texts.filter (·.head? = some c)).map List.tail) l)
            ((l.place (rangeRoom * if (c :: more).length = 1 then 0
              else (c :: more).length)).parting 1) := by
        funext l
        simp only [shared, hheads]
      rw [hsome]
      refine (IsSteady.foldl (fun c => ih _) _).comp (IsSteady.comp ?_ (isSteady_place _))
      exact isSteady_place (targetRoom * 1)

theorem isSteady_texts (list : List Text) : IsSteady (texts list) :=
  (isSteady_shared _ _).comp (isSteady_place 0)

/-! ## Bounds -/

/-- Whether a layout takes at most the given room wherever it stands. -/
def TakesAtMost (room : Nat) (f : Layout → Layout) : Prop :=
  ∀ l, (f l).bytes ≤ l.bytes + room

/-- The room of branches that take at most the given room, each with a target beside it. -/
def totalRoom : List Nat → Nat
  | [] => 0
  | room :: more => room + 4 + totalRoom more

theorem foldl_takesAtMost {branches : List (Layout → Layout)} {rooms : List Nat}
    (h : List.Forall₂ (fun branch room => TakesAtMost room branch) branches rooms) (l : Layout) :
    (branches.foldl (fun l branch => (branch l).keep targetRoom) l).bytes ≤
      l.bytes + totalRoom rooms := by
  induction h generalizing l with
  | nil => exact Nat.le_refl _
  | @cons branch room branches rooms hbranch _ ih =>
    have hone := hbranch l
    have hmore := ih ((branch l).keep targetRoom)
    rw [bytes_keep, targetRoom] at hmore
    rw [List.foldl_cons, totalRoom, targetRoom]
    omega

/-- The room of a choice between branches that take at most the given room. -/
def choiceRoom (rooms : List Nat) : Nat :=
  totalRoom rooms + 72

theorem choice_takesAtMost {branches : List (Layout → Layout)} {rooms : List Nat}
    (h : List.Forall₂ (fun branch room => TakesAtMost room branch) branches rooms) :
    TakesAtMost (choiceRoom rooms) (choice branches) := by
  intro l
  cases h with
  | nil => exact Nat.le_add_right _ _
  | @cons first room _ _ hfirst hrest =>
    have hone := hfirst l
    rw [choiceRoom, totalRoom]
    cases hrest with
    | nil =>
      show (first l).bytes ≤ _
      omega
    | @cons second room' more rooms hsecond hmore =>
      have htwo := hsecond (first l)
      have hothers := foldl_takesAtMost hmore (((second (first l)).parting 2).place 0)
      rw [bytes_place, bytes_parting] at hothers
      rw [totalRoom, choice]
      omega

end Layout

/-- The room that a piece takes at most. -/
def Piece.room : Piece → Nat
  | text content => 32 * content.length
  | digits => Layout.digitsRoom
  | among characters => 64 + 8 * Layout.rangeCount characters

theorem Piece.lay_takesAtMost (piece : Piece) : Layout.TakesAtMost piece.room piece.lay := by
  intro l
  cases piece with
  | text content =>
    have hsteps : ∀ l : Layout,
        (content.foldl (fun l _ => l.place 0) l).bytes = l.bytes + 32 * content.length := by
      induction content with
      | nil => exact fun l => rfl
      | cons c rest ih =>
        intro l
        rw [List.foldl_cons, ih, Layout.bytes_place, List.length_cons]
        omega
    exact Nat.le_of_eq (hsteps l)
  | digits => exact Layout.bytes_digits_le l
  | among characters =>
    rw [lay, Layout.bytes_place, Layout.bytes_place, room, Layout.rangeRoom]
    omega

namespace Expression

/-- The room of an expression whose branches take at most the given room. -/
def branchesRoom (e : Expression Piece) (rooms : List Nat) : Nat :=
  match e.branches.mapM text? with
  | some (first :: second :: more) => (Layout.texts (first :: second :: more) ⟨0, 0⟩).bytes
  | _ => Layout.choiceRoom rooms

/-- The room that the branches of an expression take at most. -/
def rooms : Expression Piece → List Nat
  | empty => [32]
  | atom piece => [piece.room]
  | group _ body => [body.branchesRoom body.rooms]
  | sequence first second => [first.branchesRoom first.rooms + second.branchesRoom second.rooms]
  | choice first second => first.branchesRoom first.rooms :: second.rooms
  | repeated _ _ body => [body.branchesRoom body.rooms + 112]

theorem layBranches_takesAtMost (e : Expression Piece) {layouts : List (Layout → Layout)}
    {rooms : List Nat}
    (h : List.Forall₂ (fun branch room => Layout.TakesAtMost room branch) layouts rooms) :
    Layout.TakesAtMost (e.branchesRoom rooms) (e.layBranches layouts) := by
  have hchoice := Layout.choice_takesAtMost h
  rcases htexts : e.branches.mapM text? with _ | ⟨_ | ⟨first, _ | ⟨second, more⟩⟩⟩
  case some.cons.cons =>
    simp only [layBranches, branchesRoom, htexts]
    exact fun l => Nat.le_of_eq (Layout.isSteady_texts _ l)
  all_goals
    simp only [layBranches, branchesRoom, htexts]
    exact hchoice

theorem layouts_takeAtMost (e : Expression Piece) :
    List.Forall₂ (fun branch room => Layout.TakesAtMost room branch) e.layouts e.rooms := by
  induction e with
  | empty => exact .cons (fun l => Nat.le_of_eq (Layout.bytes_place 0 l)) .nil
  | atom piece => exact .cons piece.lay_takesAtMost .nil
  | group number body ih => exact .cons (body.layBranches_takesAtMost ih) .nil
  | sequence first second ihfirst ihsecond =>
    refine .cons (fun l => ?_) .nil
    have hsecond := second.layBranches_takesAtMost ihsecond l
    have hfirst := first.layBranches_takesAtMost ihfirst
      (second.layBranches second.layouts l)
    omega
  | choice first second ihfirst ihsecond =>
    exact .cons (first.layBranches_takesAtMost ihfirst) ihsecond
  | repeated q reluctant body ih =>
    have hbody := body.layBranches_takesAtMost ih
    cases q with
    | optional =>
      refine .cons (fun l => ?_) .nil
      have hbytes := hbody (l.parting 2)
      rw [Layout.bytes_parting] at hbytes
      rw [Layout.bytes_place]
      omega
    | plus =>
      refine .cons (fun l => ?_) .nil
      have hbytes := hbody l
      rw [Layout.bytes_parting]
      omega
    | star =>
      rw [layouts]
      split
      · refine .cons (fun l => ?_) .nil
        have hbytes := hbody l
        rw [Layout.bytes_place, Layout.bytes_parting, Layout.bytes_parting]
        omega
      · refine .cons (fun l => ?_) .nil
        have hbytes := hbody (l.parting 2)
        rw [Layout.bytes_parting] at hbytes
        omega

/-- The room that an expression takes at most. -/
def room (e : Expression Piece) : Nat :=
  e.branchesRoom e.rooms + 144

/-- There is room for an expression if there is room for what it takes at most. -/
theorem fits_of_room (e : Expression Piece) (h : e.room ≤ Layout.limit) : e.fits = true := by
  have hbytes := e.layBranches_takesAtMost e.layouts_takeAtMost
    ((((Layout.mk 0 0).parting 2).place 0).place Layout.rangeRoom)
  have hfollowing : ((((Layout.mk 0 0).parting 2).place 0).place Layout.rangeRoom).bytes = 112 := by
    decide
  rw [hfollowing] at hbytes
  rw [room] at h
  rw [fits, decide_eq_true_iff, layout, Layout.bytes_place]
  omega

end Expression

end Klingon.Pattern
