import Klingon.Ordered
import Klingon.Pattern.Block
import Klingon.Pattern.Room
import Klingon.Pattern.Search

/-!
# Rule patterns

A pattern that reads well is kept with its vocabulary, its named groups and the automaton of its
normal form. It is searched for in encoded sentences; a match gives the numbers of its tokens and
those of each group that took part.
-/

namespace Klingon

structure PatternError where
  pattern : Text
  fault : PatternFault
  deriving DecidableEq, Repr

def PatternError.message (error : PatternError) : Text :=
  "invalid rule pattern " ++ error.pattern.quoted ++ ": " ++ error.fault.message

/-- A match by the numbers of its tokens and, in the order of their names, of the groups'. -/
structure PatternMatch where
  tokens : List Nat
  groups : List (Text × List Nat)
  deriving DecidableEq, Repr

/-- The tokens of a group that took part. -/
def PatternMatch.group? (found : PatternMatch) (name : Text) : Option (List Nat) :=
  found.groups.lookup name

/-- A rule pattern. The groups come in the order of their names, each with its number in the
expression. -/
structure Pattern where
  source : Text
  vocabulary : List Text
  groups : List (Text × Nat)
  expression : Text
  automaton : Array (Pattern.Instruction (List Pattern.Piece))

namespace Pattern

/-- The groups of a pattern; they are numbered from one in the order in which they open. -/
def numberedGroups (nodes : List Node) : List (Text × Nat) :=
  Ordered.ofPairs ((groupNames nodes).zipIdx 1)

/-- The normal form of an expression, unless it is nested too deep or takes too much room. -/
def formOf (e : TokenExpression) : Except PatternFault (Expression Piece) :=
  if Expression.depthLimit < e.depth .none then .error .nestedTooDeep
  else if e.spelled.normal.fits then .ok e.spelled.normal
  else .error .tooLarge

/-- The pattern that its nodes make, or the first fault of its groups, then of its expression. -/
def ofNodes (source : Text) (nodes : List Node) : Except PatternFault Pattern := do
  checkGroups [] 0 nodes
  let vocabulary := vocabularyOf nodes
  match expression? vocabulary nodes with
  | none => .error .nothingToRepeat
  | some e =>
    let form ← formOf e
    return {
      source
      vocabulary
      groups := numberedGroups nodes
      expression := written vocabulary nodes
      automaton := form.gathered.automaton }

/-- The pattern that a text writes. -/
def ofText (source : Text) : Except PatternError Pattern :=
  ((readNodes 0 source).bind (ofNodes source)).mapError fun fault => { pattern := source, fault }

/-- The part of an encoding between two positions. -/
def slice (encoding : Text) (extent : Nat × Nat) : Text :=
  (encoding.take extent.2).drop extent.1

/-- The match that an accepting thread stands for. -/
def matchOf (pattern : Pattern) (encoding : Text) (thread : Thread) : PatternMatch where
  tokens := tokenNumbers (slice encoding ((thread.saved? 0).getD 0, thread.position))
  groups := pattern.groups.filterMap fun (name, number) =>
    (thread.group? number).map fun extent => (name, tokenNumbers (slice encoding extent))

/-- The leftmost match in an encoded sentence. -/
def find? (pattern : Pattern) (encoding : Text) : Option PatternMatch :=
  (leftmost? pattern.automaton (consumePieces (remainders encoding).toArray) encoding.length).map
    (pattern.matchOf encoding)

end Pattern

end Klingon
