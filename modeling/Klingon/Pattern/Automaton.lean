import Klingon.Pattern.Expression

/-!
# Pattern automata

An expression becomes a list of instructions. A fork prefers its first target: the body of a
greedy repetition, the exit of a reluctant one, the first branch of a choice. A repetition whose
body may be empty enters the body once before it can be left, and the choice to go on stands after
the body.
-/

namespace Klingon.Pattern

inductive Instruction (α : Type) where
  | consume (a : α)
  | fork (preferred other : Nat)
  | jump (target : Nat)
  | save (slot : Nat)
  | accept
  deriving DecidableEq, Repr

namespace Expression

variable {α : Type}

/-- A fork between the body of a repetition and its exit. -/
def repetitionFork (reluctant : Bool) (body exit : Nat) : Instruction α :=
  if reluctant then .fork exit body else .fork body exit

/-- The instructions of an expression when the first of them has the given address. They end where
the next instruction stands. -/
def instructions (start : Nat) : Expression α → List (Instruction α)
  | empty => []
  | atom a => [.consume a]
  | group none body => body.instructions start
  | group (some n) body =>
    .save (2 * n) :: body.instructions (start + 1) ++ [.save (2 * n + 1)]
  | sequence first second =>
    let front := first.instructions start
    front ++ second.instructions (start + front.length)
  | choice first second =>
    let front := first.instructions (start + 1)
    let middle := start + front.length + 2
    let back := second.instructions middle
    .fork (start + 1) middle :: front ++ .jump (middle + back.length) :: back
  | repeated .optional reluctant body =>
    let code := body.instructions (start + 1)
    repetitionFork reluctant (start + 1) (start + code.length + 1) :: code
  | repeated .plus reluctant body =>
    let code := body.instructions start
    code ++ [repetitionFork reluctant start (start + code.length + 1)]
  | repeated .star reluctant body =>
    let code := body.instructions (start + 1)
    let exit := start + code.length + 2
    let entry := repetitionFork reluctant (start + 1) exit
    if body.isNullable then entry :: code ++ [entry] else entry :: code ++ [.jump start]

/-- The automaton that accepts where the expression ends. -/
def automaton (e : Expression α) : Array (Instruction α) :=
  (e.instructions 0 ++ [Instruction.accept]).toArray

end Expression

end Klingon.Pattern
