import Klingon.Pattern.Automaton

/-!
# Searching with an automaton

A sequence has the positions from zero to its length. What an instruction may consume is a
parameter: it takes a position to the one after what stands there, if that is what the instruction
asks for. The search follows the preferred way first and never visits an instruction twice
at one position, so it ends, and the first way to an acceptance decides.
-/

namespace Klingon.Pattern

/-- Where a search stands, and the positions it saved, latest first. -/
structure Thread where
  address : Nat
  position : Nat
  saved : List (Nat × Nat)
  deriving DecidableEq, Repr

namespace Thread

/-- The position that was saved last in a slot. -/
def saved? (thread : Thread) (slot : Nat) : Option Nat :=
  thread.saved.lookup slot

/-- The extent of a numbered group, if the group took part. -/
def group? (thread : Thread) (number : Nat) : Option (Nat × Nat) := do
  let start ← thread.saved? (2 * number)
  let stop ← thread.saved? (2 * number + 1)
  return (start, stop)

end Thread

variable {α : Type}

/-- The threads after one instruction, in order of preference. -/
def advance (consume : α → Nat → Option Nat) (thread : Thread) :
    Instruction α → List Thread
  | .consume a =>
    match consume a thread.position with
    | some position => [{ thread with address := thread.address + 1, position }]
    | none => []
  | .fork preferred other =>
    [{ thread with address := preferred }, { thread with address := other }]
  | .jump target => [{ thread with address := target }]
  | .save slot =>
    [{ thread with
      address := thread.address + 1
      saved := (slot, thread.position) :: thread.saved }]
  | .accept => []

/-- Visiting a place that was free leaves fewer places free. -/
theorem count_false_set_lt {visited : Array Bool} {i : Nat} (h : i < visited.size)
    (hfree : visited[i] = false) :
    (visited.set i true h).count false < visited.count false := by
  have hmem : false ∈ visited := hfree ▸ Array.getElem_mem h
  have hpos : 0 < visited.count false := Array.count_pos_iff.mpr hmem
  rw [Array.count_set h, hfree]
  simp only [BEq.rfl, ↓reduceIte]
  have htrue : (true == false) = false := rfl
  rw [htrue]
  simp only [Bool.false_eq_true, ↓reduceIte]
  omega

/-- The first accepting thread. The threads on the stack are followed in order, each to its end;
the places, one for each instruction at each position, that were visited are not entered again. -/
def search (code : Array (Instruction α)) (consume : α → Nat → Option Nat)
    (visited : Array Bool) : List Thread → Option Thread
  | [] => none
  | thread :: rest =>
    let place := thread.position * code.size + thread.address
    if h : place < visited.size then
      if hvisited : visited[place] then search code consume visited rest
      else
        match code[thread.address]? with
        | none => search code consume (visited.set place true h) rest
        | some .accept => some thread
        | some instruction =>
          search code consume (visited.set place true h)
            (advance consume thread instruction ++ rest)
    else search code consume visited rest
  termination_by stack => (visited.count false, stack.length)
  decreasing_by
    · exact Prod.Lex.right _ (by simp)
    · exact Prod.Lex.left _ _ (count_false_set_lt h (by simpa using hvisited))
    · exact Prod.Lex.left _ _ (count_false_set_lt h (by simpa using hvisited))
    · exact Prod.Lex.right _ (by simp)

/-- The accepting thread of the leftmost match in a sequence of the given length. Slot zero holds
where the match starts. -/
def leftmost? (code : Array (Instruction α)) (consume : α → Nat → Option Nat)
    (length : Nat) : Option Thread :=
  search code consume (Array.replicate ((length + 1) * code.size) false)
    ((List.range (length + 1)).map fun start => ⟨0, start, [(0, start)]⟩)

end Klingon.Pattern
