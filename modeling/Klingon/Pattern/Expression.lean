import Klingon.Pattern.Node

/-!
# Pattern expressions

The nodes of a pattern form a regular expression whose atoms are requirements on one token. Every
atom is a group of its own, numbered if it is named, so that a quantifier repeats the whole token.
The expression also has a written form, in which an atom is a block of the encoding; expressions
over the pieces of such blocks are of the same type.
-/

namespace Klingon.Pattern

/-- A regular expression over atoms. -/
inductive Expression (α : Type) where
  | empty
  | atom (a : α)
  | group (number : Option Nat) (body : Expression α)
  | sequence (first second : Expression α)
  | choice (first second : Expression α)
  | repeated (q : Quantifier) (reluctant : Bool) (body : Expression α)
  deriving DecidableEq, Repr

/-- An expression over tokens; an atom asks for marks of one token. -/
abbrev TokenExpression := Expression (List (Option Bool))

namespace Expression

variable {α β : Type}

/-- The expressions one after the other. -/
def inSequence : List (Expression α) → Expression α
  | [] => empty
  | [e] => e
  | e :: next :: more => sequence e (inSequence (next :: more))

/-- One of the expressions, an earlier one by preference. -/
def oneOf : List (Expression α) → Expression α
  | [] => empty
  | [e] => e
  | e :: next :: more => choice e (oneOf (next :: more))

/-- Whether the expression matches the empty sequence of atoms. -/
def isNullable : Expression α → Bool
  | empty => true
  | atom _ => false
  | group _ body => body.isNullable
  | sequence first second => first.isNullable && second.isNullable
  | choice first second => first.isNullable || second.isNullable
  | repeated .plus _ body => body.isNullable
  | repeated _ _ _ => true

/-- The expression with an expression in place of each atom. -/
def expand (f : α → Expression β) : Expression α → Expression β
  | empty => empty
  | atom a => f a
  | group number body => group number (body.expand f)
  | sequence first second => sequence (first.expand f) (second.expand f)
  | choice first second => choice (first.expand f) (second.expand f)
  | repeated q reluctant body => repeated q reluctant (body.expand f)

/-- The chain whose remaining part an expression is. -/
inductive Chain where
  | none
  | sequence
  | choice
  deriving DecidableEq, Repr

/-- How deep the written form nests: a group, a sequence, a choice and a repetition each count as
one level, and the set of the marks of a bit that is not asked for counts as two. A chain of
sequences or of choices is one level. -/
def depth : Chain → TokenExpression → Nat
  | _, empty => 0
  | _, atom required => if required.any Option.isNone then 3 else 2
  | _, group _ body => 1 + body.depth .none
  | chain, sequence first second =>
    (if chain = .sequence then 0 else 1) + max (first.depth .none) (second.depth .sequence)
  | chain, choice first second =>
    (if chain = .choice then 0 else 1) + max (first.depth .none) (second.depth .choice)
  | _, repeated _ _ body => 1 + body.depth .none

/-- The deepest nesting that is allowed. -/
def depthLimit : Nat := 250

end Expression

/-- A group under construction: its number, the branches that are complete and the items of the
current one, last first. -/
structure OpenGroup where
  number : Option Nat
  branches : List TokenExpression := []
  items : List TokenExpression := []
  deriving DecidableEq, Repr

namespace OpenGroup

def branch (g : OpenGroup) : TokenExpression :=
  Expression.inSequence g.items.reverse

def close (g : OpenGroup) : TokenExpression :=
  Expression.oneOf (g.branch :: g.branches).reverse

def push (item : TokenExpression) (g : OpenGroup) : OpenGroup :=
  { g with items := item :: g.items }

end OpenGroup

/-- The number of a group with this name when `count` groups have one already. -/
def groupNumber (count : Nat) (name : Option Text) : Option Nat :=
  name.map fun _ => count + 1

def countGroup (count : Nat) (name : Option Text) : Nat :=
  if name.isSome then count + 1 else count

/-- Builds the expression of the nodes that follow. A quantifier applies to the item before it and
is reluctant if a question mark follows; without such an item there is no expression. -/
def build (vocabulary : List Text) (count : Nat) (inner : OpenGroup) (outer : List OpenGroup) :
    List Node → Option TokenExpression
  | [] => if outer = [] then some inner.close else none
  | .condition name literals :: rest =>
    let item := .group (groupNumber count name) (.atom (requirements vocabulary literals))
    build vocabulary (countGroup count name) (inner.push item) outer rest
  | .wildcard name :: rest =>
    let item := .group (groupNumber count name) (.atom (requirements vocabulary []))
    build vocabulary (countGroup count name) (inner.push item) outer rest
  | .groupOpen name :: rest =>
    build vocabulary (countGroup count name) { number := groupNumber count name } (inner :: outer)
      rest
  | .groupClose :: rest =>
    match outer with
    | [] => none
    | parent :: others =>
      build vocabulary count (parent.push (.group inner.number inner.close)) others rest
  | .bar :: rest =>
    build vocabulary count
      { inner with branches := inner.branch :: inner.branches, items := [] } outer rest
  | .quantifier q :: .quantifier .optional :: rest =>
    match inner.items with
    | [] => none
    | item :: items =>
      build vocabulary count { inner with items := .repeated q true item :: items } outer rest
  | .quantifier q :: rest =>
    match inner.items with
    | [] => none
    | item :: items =>
      build vocabulary count { inner with items := .repeated q false item :: items } outer rest

/-- The expression of a whole pattern. -/
def expression? (vocabulary : List Text) (nodes : List Node) : Option TokenExpression :=
  build vocabulary 0 { number := none } [] nodes

/-- How the requirement on a mark is written. -/
def writtenMark : Option Bool → Text
  | some true => "1"
  | some false => "0"
  | none => "[01.]"

def writtenToken (required : List (Option Bool)) : Text :=
  ",\\d+:" ++ required.flatMap writtenMark

/-- A group that is named counts; any other does not. -/
def writtenOpening (name : Option Text) : Text :=
  if name.isSome then "(" else "(?:"

/-- The written form of a node. -/
def writtenNode (vocabulary : List Text) : Node → Text
  | .condition name literals =>
    writtenOpening name ++ writtenToken (requirements vocabulary literals) ++ ")"
  | .wildcard name => writtenOpening name ++ writtenToken (requirements vocabulary []) ++ ")"
  | .groupOpen name => writtenOpening name
  | .groupClose => ")"
  | .bar => "|"
  | .quantifier q => [q.symbol]

/-- The written form of a pattern, as a regular expression over encoded sentences. -/
def written (vocabulary : List Text) (nodes : List Node) : Text :=
  nodes.flatMap (writtenNode vocabulary)

end Klingon.Pattern
