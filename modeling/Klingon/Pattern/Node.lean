import Klingon.Text.Alphanumeric
import Klingon.Text.Blank
import Klingon.Text.Quoted

/-!
# The nodes of a rule pattern

A pattern is written as token conditions in braces, full stops for any token, and the operators of
regular expressions. A name before an atom or an opening parenthesis makes it a group; a name
before a blank stands for any token. Reading a pattern gives its nodes in order, or the first
fault.
-/

namespace Klingon

/-- Why a text is no rule pattern. Offsets count bytes. -/
inductive PatternFault where
  | unterminatedCondition (offset : Nat)
  | emptyBit (offset : Nat)
  | danglingName (name : Text)
  | unexpectedChar (c : Char) (offset : Nat)
  | unbalancedParentheses
  | duplicateName (name : Text)
  | nothingToRepeat
  | nestedTooDeep
  | tooLarge
  deriving DecidableEq, Repr

def PatternFault.message : PatternFault → Text
  | unterminatedCondition offset => "unterminated condition list at " ++ Text.decimal offset
  | emptyBit offset => "empty bit name at " ++ Text.decimal offset
  | danglingName name => "group name " ++ name.quoted ++ " is not followed by an atom"
  | unexpectedChar c offset =>
    "unexpected character " ++ Text.quotedChar c ++ " at " ++ Text.decimal offset
  | unbalancedParentheses => "unbalanced parentheses"
  | duplicateName name => "duplicate group name " ++ name.quoted
  | nothingToRepeat => "failed to build matcher: nothing to repeat"
  | nestedTooDeep => "failed to build matcher: nested too deep"
  | tooLarge => "failed to build matcher: too large"

namespace Pattern

/-- A bit that a condition asks for, or forbids. -/
structure Literal where
  bit : Text
  expected : Bool
  deriving DecidableEq, Repr

inductive Quantifier where
  | star
  | plus
  | optional
  deriving DecidableEq, Repr

def Quantifier.symbol : Quantifier → Char
  | star => '*'
  | plus => '+'
  | optional => '?'

/-- A piece of a pattern as it is written. -/
inductive Node where
  | condition (name : Option Text) (literals : List Literal)
  | wildcard (name : Option Text)
  | groupOpen (name : Option Text)
  | groupClose
  | bar
  | quantifier (q : Quantifier)
  deriving DecidableEq, Repr

namespace Node

def name? : Node → Option Text
  | condition name _ | wildcard name | groupOpen name => name
  | _ => none

def literals : Node → List Literal
  | condition _ literals => literals
  | _ => []

end Node

/-- Splits a condition list at its commas. A comma after « does not separate until » is read. -/
def splitItems (quoted : Bool) : Text → List Text
  | [] => [[]]
  | c :: rest =>
    if c = ',' && !quoted then [] :: splitItems false rest
    else
      let quoted := if c = '«' then true else if c = '»' then false else quoted
      match splitItems quoted rest with
      | [] => [[c]]
      | item :: more => (c :: item) :: more

/-- An item is a bit, after an exclamation mark if it is forbidden. -/
def literal? (item : Text) : Option Literal :=
  let (bit, expected) :=
    match item with
    | '!' :: bit => (bit, false)
    | _ => (item, true)
  if bit = [] then none else some ⟨bit, expected⟩

/-- What an atom or an operator leaves: the node it makes, if any, the number of bytes after its
first character, and the rest of the pattern. -/
structure AtomReading where
  node : Option Node
  width : Nat := 0
  rest : Text
  deriving DecidableEq, Repr

/-- Reads the character after an optional name, with what belongs to it. The offset is that of the
character. -/
def readAtom (name : Option Text) (offset : Nat) (c : Char) (rest : Text) :
    Except PatternFault AtomReading :=
  match c with
  | '{' =>
    match Text.cut? '}' rest with
    | none => .error (.unterminatedCondition offset)
    | some (list, after) =>
      match (splitItems false list).mapM literal? with
      | none => .error (.emptyBit offset)
      | some literals =>
        .ok {
          node := some (.condition name literals)
          width := Text.byteLength list + 1
          rest := after }
  | '(' => .ok { node := some (.groupOpen name), rest }
  | '.' => .ok { node := some (.wildcard name), rest }
  | _ =>
    if Text.isBlank c then
      .ok { node := if name.isSome then some (.wildcard name) else none, rest }
    else if name.isSome then .error (.unexpectedChar c offset)
    else
      match c with
      | '*' => .ok { node := some (.quantifier .star), rest }
      | '+' => .ok { node := some (.quantifier .plus), rest }
      | '?' => .ok { node := some (.quantifier .optional), rest }
      | '|' => .ok { node := some .bar, rest }
      | ')' => .ok { node := some .groupClose, rest }
      | _ => .error (.unexpectedChar c offset)

/-- Where the part after a separator starts: it is shorter than the whole. -/
theorem length_lt_of_cut? {sep : Char} {text front back : Text}
    (h : Text.cut? sep text = some (front, back)) : back.length < text.length := by
  induction text generalizing front with
  | nil => simp [Text.cut?] at h
  | cons c rest ih =>
    rw [Text.cut?] at h
    split at h
    · cases h
      simp
    · obtain ⟨p, hp, hpair⟩ := Option.map_eq_some_iff.mp h
      cases hpair
      have := ih hp
      simp only [List.length_cons]
      omega

/-- An atom leaves no more than what follows its first character. -/
theorem length_le_of_readAtom {name : Option Text} {offset : Nat} {c : Char} {rest : Text}
    {reading : AtomReading} (h : readAtom name offset c rest = .ok reading) :
    reading.rest.length ≤ rest.length := by
  unfold readAtom at h
  split at h
  · split at h
    · cases h
    · rename_i hcut
      split at h
      · cases h
      · cases h
        exact Nat.le_of_lt (length_lt_of_cut? hcut)
  · cases h
    exact Nat.le_refl _
  · cases h
    exact Nat.le_refl _
  · split at h
    · cases h
      exact Nat.le_refl _
    · split at h
      · cases h
      · split at h <;> cases h <;> exact Nat.le_refl _

/-- The nodes of the rest of a pattern, which starts at the given offset. -/
def readNodes (offset : Nat) (text : Text) : Except PatternFault (List Node) :=
  let name := text.takeWhile Text.isNameChar
  match _hrest : text.dropWhile Text.isNameChar with
  | [] => if name = [] then .ok [] else .error (.danglingName name)
  | c :: rest =>
    let here := offset + Text.byteLength name
    match _hatom : readAtom (if name = [] then none else some name) here c rest with
    | .error fault => .error fault
    | .ok reading => do
      let more ← readNodes (here + c.utf8Size + reading.width) reading.rest
      return reading.node.toList ++ more
  termination_by text.length
  decreasing_by
    have hafter := length_le_of_readAtom _hatom
    have hdrop := (List.dropWhile_sublist (p := Text.isNameChar) (l := text)).length_le
    rw [_hrest, List.length_cons] at hdrop
    omega

/-- The bits the nodes ask about, in the order of their first appearance. -/
def vocabularyOf (nodes : List Node) : List Text :=
  (nodes.flatMap fun node => node.literals.map (·.bit)).eraseDups

/-- Checks from left to right that no group name repeats and no parenthesis closes what is not
open, and last that no parenthesis is left open. -/
def checkGroups (seen : List Text) (depth : Nat) : List Node → Except PatternFault Unit
  | [] => if depth = 0 then .ok () else .error .unbalancedParentheses
  | node :: rest =>
    match node.name? with
    | some name =>
      if name ∈ seen then .error (.duplicateName name)
      else
        match node with
        | .groupOpen _ => checkGroups (name :: seen) (depth + 1) rest
        | _ => checkGroups (name :: seen) depth rest
    | none =>
      match node with
      | .groupOpen _ => checkGroups seen (depth + 1) rest
      | .groupClose =>
        if depth = 0 then .error .unbalancedParentheses else checkGroups seen (depth - 1) rest
      | _ => checkGroups seen depth rest

/-- The group names in the order in which the groups open. -/
def groupNames (nodes : List Node) : List Text :=
  nodes.filterMap Node.name?

/-- What a condition requires of the mark of a bit: the first literal of the bit decides. -/
def requirement (literals : List Literal) (bit : Text) : Option Bool :=
  (literals.find? (·.bit = bit)).map (·.expected)

/-- What a condition requires of each mark of a block. -/
def requirements (vocabulary : List Text) (literals : List Literal) : List (Option Bool) :=
  vocabulary.map (requirement literals)

end Pattern

end Klingon
