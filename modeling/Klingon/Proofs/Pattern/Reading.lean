import Klingon.Pattern.Normal

/-!
# Readings of an expression

What an expression means, apart from any automaton: from where a reading stands, the expression
lists all ways to read it, the preferred one first. An earlier branch is preferred to a later one.
A repetition goes on as long as it can, or leaves as soon as it can if it is reluctant; what is
always empty is not repeated. The decisions of an expression are numbered from left to right. A
reading that comes back to a decision before it has consumed anything has gone in a circle and
ends there.
-/

namespace Klingon.Pattern

/-- Where a reading stands: its position, the positions it saved, latest first, and the decisions it
has faced since it consumed something. -/
structure Reading where
  position : Nat
  saved : List (Nat × Nat)
  faced : List Nat := []
  deriving DecidableEq, Repr

namespace Reading

/-- The reading after an atom. -/
def moveTo (position : Nat) (r : Reading) : Reading :=
  { r with position, faced := [] }

def save (slot : Nat) (r : Reading) : Reading :=
  { r with saved := (slot, r.position) :: r.saved }

def face (decision : Nat) (r : Reading) : Reading :=
  { r with faced := decision :: r.faced }

/-- A reading faces a decision and goes on in several ways, or ends if it has faced it before. -/
def facing (decision : Nat) (ways : Reading → List Reading) (r : Reading) : List Reading :=
  if decision ∈ r.faced then [] else ways (r.face decision)

/-- The ways that go through the body of a repetition come first unless it is reluctant. -/
def preferring (reluctant : Bool) (enter leave : List Reading) : List Reading :=
  if reluctant then leave ++ enter else enter ++ leave

/-- The decision to go once more through the body of a repetition, and so on. A round that consumes
nothing comes back to the decision, so there are no more rounds than positions. -/
def rounds (decision : Nat) (reluctant : Bool) (body : Reading → List Reading) :
    Nat → Reading → List Reading
  | 0, _ => []
  | left + 1, r =>
    facing decision
      (fun r => preferring reluctant ((body r).flatMap (rounds decision reluctant body left)) [r]) r

/-- A reading that comes back to the decision to go on has no more rounds. -/
theorem rounds_of_faced {decision left : Nat} {reluctant : Bool} {body : Reading → List Reading}
    {r : Reading} (hin : decision ∈ r.faced) : rounds decision reluctant body left r = [] := by
  cases left with
  | zero => rfl
  | succ left => exact if_pos hin

/-- The ways through a repetition, the first of whose decisions has the given number. A body that
may be empty is entered once before the decision to go on is faced. -/
def repetition (q : Quantifier) (vacuous nullable reluctant : Bool) (length decision : Nat)
    (body : Reading → List Reading) (r : Reading) : List Reading :=
  match q, vacuous with
  | .plus, true => body r
  | .plus, false => (body r).flatMap (rounds decision reluctant body (length + 1))
  | .optional, _ | .star, true => facing decision (fun r => preferring reluctant (body r) [r]) r
  | .star, false =>
    if nullable then
      facing decision (fun r => preferring reluctant
        ((body r).flatMap (rounds (decision + 1) reluctant body (length + 1))) [r]) r
    else rounds decision reluctant body (length + 1) r

end Reading

namespace Expression

variable {α : Type}

/-- How many decisions a repetition has besides those of its body. -/
def loopDecisions (q : Quantifier) (vacuous nullable : Bool) : Nat :=
  match q, vacuous with
  | .plus, true => 0
  | .star, false => if nullable then 2 else 1
  | _, _ => 1

/-- How many decisions an expression has. -/
def decisions : Expression α → Nat
  | empty => 0
  | atom _ => 0
  | group _ body => body.decisions
  | sequence first second => first.decisions + second.decisions
  | choice first second => 1 + first.decisions + second.decisions
  | repeated q _ body => loopDecisions q body.isVacuous body.isNullable + body.decisions

/-- All ways to read an expression whose first decision has the given number, in order of
preference. An atom takes a position to the one after it, if it stands there. -/
def readings (consume : α → Nat → Option Nat) (length : Nat) :
    Expression α → Nat → Reading → List Reading
  | empty, _, r => [r]
  | atom a, _, r => ((consume a r.position).map fun position => r.moveTo position).toList
  | group none body, n, r => body.readings consume length n r
  | group (some m) body, n, r =>
    (body.readings consume length n (r.save (2 * m))).map (Reading.save (2 * m + 1))
  | sequence first second, n, r =>
    (first.readings consume length n r).flatMap
      (second.readings consume length (n + first.decisions))
  | choice first second, n, r =>
    r.facing n fun r =>
      first.readings consume length (n + 1) r ++
        second.readings consume length (n + 1 + first.decisions) r
  | repeated q reluctant body, n, r =>
    Reading.repetition q body.isVacuous body.isNullable reluctant length n
      (body.readings consume length (n + loopDecisions q body.isVacuous body.isNullable)) r

/-- The preferred reading from the leftmost start that has one. The start is saved in slot zero. -/
def firstReading? (consume : α → Nat → Option Nat) (length : Nat) (e : Expression α) :
    Option Reading :=
  (List.range (length + 1)).findSome? fun start =>
    (e.readings consume length 0 ⟨start, [(0, start)], []⟩).head?

end Expression

/-! ## The first of several ways -/

section FirstWay

variable {β γ δ : Type}

theorem findSome?_singleton (a : β) (K : β → Option δ) : [a].findSome? K = K a := by
  cases h : K a <;> simp [h]

theorem findSome?_flatMap (l : List β) (f : β → List γ) (K : γ → Option δ) :
    (l.flatMap f).findSome? K = l.findSome? fun a => (f a).findSome? K := by
  induction l with
  | nil => rfl
  | cons a l ih =>
    rw [List.flatMap_cons, List.findSome?_append, ih]
    cases h : (f a).findSome? K <;> simp [h]

/-- Of the ways through a repetition the preferred side decides first. -/
theorem findSome?_preferring (reluctant : Bool) (enter : List Reading) (r : Reading)
    (K : Reading → Option δ) :
    (Reading.preferring reluctant enter [r]).findSome? K =
      if reluctant then (K r).or (enter.findSome? K) else (enter.findSome? K).or (K r) := by
  cases reluctant <;> simp only [Reading.preferring, List.findSome?_append, findSome?_singleton,
    Bool.false_eq_true, ↓reduceIte]

end FirstWay

end Klingon.Pattern
