import Klingon.Pattern.Normal

/-!
# The room of an expression

An expression is made ready for a walk from the end of a match back to its start. It is laid out
place by place, last member first: a place for each character, and a place wherever ways part or
meet, which keeps its targets beside it. The digits of all scripts are laid out byte by byte, and
digits that start with the same bytes share the places of these. An expression that takes more room
than there is cannot be searched for.
-/

namespace Klingon.Pattern

/-- The places that are laid out, and the bytes that are kept beside them. -/
structure Layout where
  places : Nat
  beside : Nat
  deriving DecidableEq, Repr

namespace Layout

/-- The bytes of a place. -/
def placeRoom : Nat := 32

/-- The bytes of a target, kept beside a place where ways part. -/
def targetRoom : Nat := 4

/-- The bytes of a range of characters with its target. -/
def rangeRoom : Nat := 8

def bytes (l : Layout) : Nat :=
  placeRoom * l.places + l.beside

/-- Keeps some bytes beside a place that is there. -/
def keep (bytes : Nat) (l : Layout) : Layout :=
  { l with beside := l.beside + bytes }

/-- One more place, with some bytes beside it. -/
def place (beside : Nat) (l : Layout) : Layout where
  places := l.places + 1
  beside := l.beside + beside

/-- A place where ways part, or where they meet and one goes back. -/
def parting (ways : Nat) (l : Layout) : Layout :=
  l.place (targetRoom * ways)

/-- A way over one byte of a range to a place. -/
structure Way where
  target : Nat
  low : UInt8
  high : UInt8
  deriving DecidableEq, Repr

/-- How many ways can be remembered at once. -/
def memorySize : Nat := 1000

/-- Takes a number into a running 64-bit digest. -/
def digest (sum : UInt64) (value : Nat) : UInt64 :=
  (sum ^^^ UInt64.ofNat value) * 1099511628211

/-- Where a way is remembered. -/
def Way.slot (way : Way) : Nat :=
  let sum := digest (digest (digest 14695981039346656037 way.target) way.low.toNat) way.high.toNat
  sum.toNat % memorySize

/-- The ways that are remembered, each with the place it starts from. A way that falls on the slot
of another takes its place, so that the other may have to be laid out again. -/
abbrev Memory := Array (Option (Way × Nat))

/-- The place from which a range of bytes leads to a target, laid out unless it is remembered. -/
def layByte (slot : Way → Nat) (state : Layout × Memory × Nat) (range : UInt8 × UInt8) :
    Layout × Memory × Nat :=
  let (l, memory, target) := state
  let way : Way := ⟨target, range.1, range.2⟩
  let fresh := (l.place 0, memory.setIfInBounds (slot way) (some (way, l.places)), l.places)
  match memory[slot way]? with
  | some (some (known, start)) => if known = way then (l, memory, start) else fresh
  | _ => fresh

/-- The ranges of the bytes of each range of digits. The digits of a range differ in the last byte
only. -/
def digitBytes : List (List (UInt8 × UInt8)) :=
  Text.digitRanges.map fun range =>
    (String.utf8EncodeChar (Char.ofNat range.1)).zip (String.utf8EncodeChar (Char.ofNat range.2))

/-- The way through one range of digits to the place where all of them end. -/
def layDigitRange (slot : Way → Nat) (finish : Nat) (state : Layout × Memory)
    (ranges : List (UInt8 × UInt8)) : Layout × Memory :=
  let (l, memory, _) := ranges.foldl (layByte slot) (state.1, state.2, finish)
  (l.keep targetRoom, memory)

/-- The room there is: ten mebibytes. -/
def limit : Nat := 10 * Nat.pow 2 20

/-- A run of digits: where the ranges part, where they meet, and the way back for the next digit.
When there is no room left it is not laid out any more. -/
def digits (l : Layout) : Layout :=
  if limit < l.bytes then l
  else
    let empty : Memory := Array.replicate memorySize none
    let laid :=
      digitBytes.foldl (layDigitRange Way.slot (l.places + 1)) ((l.place 0).place 0, empty)
    laid.1.parting 2

/-- How many ranges without a gap a set makes, given in increasing order. -/
def rangeCount : Text → Nat
  | [] => 0
  | [_] => 1
  | c :: d :: rest => (if d.toNat = c.toNat + 1 then 0 else 1) + rangeCount (d :: rest)

/-- Texts that begin alike share the places of their common beginning, down to a given depth. -/
def shared : Nat → List Text → Layout → Layout
  | 0, _, l => l
  | depth + 1, texts, l =>
    match (texts.filterMap List.head?).eraseDups with
    | [] => l
    | heads =>
      let ranges := if heads.length = 1 then 0 else heads.length
      heads.foldl
        (fun l c => shared depth ((texts.filter (·.head? = some c)).map List.tail) l)
        ((l.place (rangeRoom * ranges)).parting 1)

/-- One of several texts. The walk goes backwards, so texts share what they end with. -/
def texts (list : List Text) (l : Layout) : Layout :=
  shared ((list.map List.length).foldl max 0) (list.map List.reverse) (l.place 0)

/-- A choice between branches that are laid out one after the other. The places where they part and
meet come after the first two. -/
def choice : List (Layout → Layout) → Layout → Layout
  | [], l => l
  | [branch], l => branch l
  | first :: second :: more, l =>
    more.foldl (fun l branch => (branch l).keep targetRoom)
      (((second (first l)).parting 2).place 0)

end Layout

/-- A piece laid out. -/
def Piece.lay : Piece → Layout → Layout
  | text content, l => content.foldl (fun l _ => l.place 0) l
  | digits, l => l.digits
  | among characters, l => (l.place 0).place (Layout.rangeRoom * Layout.rangeCount characters)

namespace Expression

def text? : Expression Piece → Option Text
  | atom (.text content) => some content
  | _ => none

/-- An expression whose branches have the given layouts. -/
def layBranches (e : Expression Piece) (layouts : List (Layout → Layout)) : Layout → Layout :=
  match e.branches.mapM text? with
  | some (first :: second :: more) => Layout.texts (first :: second :: more)
  | _ => Layout.choice layouts

/-- The layouts of the branches of an expression. A repetition of what may be empty is an optional
repetition that is entered at least once. -/
def layouts : Expression Piece → List (Layout → Layout)
  | empty => [Layout.place 0]
  | atom piece => [piece.lay]
  | group _ body => [body.layBranches body.layouts]
  | sequence first second =>
    [fun l => first.layBranches first.layouts (second.layBranches second.layouts l)]
  | choice first second => first.layBranches first.layouts :: second.layouts
  | repeated .optional _ body =>
    [fun l => (body.layBranches body.layouts (l.parting 2)).place 0]
  | repeated .plus _ body => [fun l => (body.layBranches body.layouts l).parting 2]
  | repeated .star _ body =>
    if body.isNullable then
      [fun l => (((body.layBranches body.layouts l).parting 2).parting 2).place 0]
    else [fun l => body.layBranches body.layouts (l.parting 2)]

/-- The layout of an expression behind that of the text that may follow it. -/
def layout (e : Expression Piece) : Layout :=
  let following := (((Layout.mk 0 0).parting 2).place 0).place Layout.rangeRoom
  (e.layBranches e.layouts following).place 0

/-- Whether there is room for an expression. -/
def fits (e : Expression Piece) : Bool :=
  e.layout.bytes ≤ Layout.limit

end Expression

end Klingon.Pattern
