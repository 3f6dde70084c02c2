import Klingon.Proofs.Pattern.Building
import Klingon.Proofs.Pattern.Renaming

/-!
# The parentheses of the written form

In a regular expression the parentheses that capture are numbered from left to right. In the written
form of a pattern these are the ones of its named nodes, and the groups of its expression have the
numbers that their parentheses have in the text.
-/

namespace Klingon.Pattern

/-- A character of a regular expression; a parenthesis that captures has its number. -/
inductive Symbol where
  | char (c : Char)
  | opens (number : Nat)
  deriving DecidableEq, Repr

namespace Symbol

def toChar : Symbol → Char
  | char c => c
  | opens _ => '('

def number? : Symbol → Option Nat
  | char _ => none
  | opens number => some number

/-- A text in which nothing captures. -/
def plain (text : Text) : List Symbol :=
  text.map char

theorem plain_append (front back : Text) : plain (front ++ back) = plain front ++ plain back :=
  List.map_append

end Symbol

/-! ## Numbering the parentheses of a text -/

/-- Whether a parenthesis captures that stands before the text. One before a question mark does
not, unless the group is given a name there. -/
def captures : Text → Bool
  | '?' :: 'P' :: '<' :: _ => true
  | '?' :: '<' :: _ => true
  | '?' :: _ => false
  | _ => true

/-- Numbers the parentheses of a regular expression that capture, from the one after `count` on. The
character after a backslash stands for itself, and so do the characters of a set. -/
def numbered (count : Nat) (inSet escaped : Bool) : Text → List Symbol
  | [] => []
  | c :: rest =>
    if escaped then .char c :: numbered count inSet false rest
    else if c = '\\' then .char c :: numbered count inSet true rest
    else if inSet then .char c :: numbered count (c != ']') false rest
    else if c = '(' ∧ captures rest then
      .opens (count + 1) :: numbered (count + 1) false false rest
    else .char c :: numbered count (c == '[') false rest

/-- The symbols of a regular expression. -/
def symbolsOf (text : Text) : List Symbol :=
  numbered 0 false false text

/-! ## The symbols of nodes and expressions -/

/-- The opening of a group. -/
def openingSymbols : Option Nat → List Symbol
  | some number => [.opens number]
  | none => Symbol.plain "(?:"

/-- A group around what is asked of one token. -/
def tokenSymbols (number : Option Nat) (required : List (Option Bool)) : List Symbol :=
  openingSymbols number ++ Symbol.plain (writtenToken required) ++ [.char ')']

/-- The symbols of a node that has `count` named ones before it. -/
def Node.symbols (vocabulary : List Text) (count : Nat) : Node → List Symbol
  | condition name literals =>
    tokenSymbols (groupNumber count name) (requirements vocabulary literals)
  | wildcard name => tokenSymbols (groupNumber count name) (requirements vocabulary [])
  | groupOpen name => openingSymbols (groupNumber count name)
  | groupClose => [.char ')']
  | bar => [.char '|']
  | quantifier q => [.char q.symbol]

/-- The symbols of the nodes behind `count` named ones. -/
def nodeSymbols (vocabulary : List Text) : Nat → List Node → List Symbol
  | _, [] => []
  | count, node :: rest =>
    node.symbols vocabulary count ++ nodeSymbols vocabulary (countGroup count node.name?) rest

theorem written_cons (vocabulary : List Text) (node : Node) (rest : List Node) :
    written vocabulary (node :: rest) = writtenNode vocabulary node ++ written vocabulary rest :=
  List.flatMap_cons

theorem map_toChar_plain (text : Text) : (Symbol.plain text).map Symbol.toChar = text := by
  rw [Symbol.plain, List.map_map]
  exact List.map_id text

theorem map_toChar_openingSymbols (count : Nat) (name : Option Text) :
    (openingSymbols (groupNumber count name)).map Symbol.toChar = writtenOpening name := by
  cases name <;> rfl

theorem map_toChar_tokenSymbols (count : Nat) (name : Option Text)
    (required : List (Option Bool)) :
    (tokenSymbols (groupNumber count name) required).map Symbol.toChar =
      writtenOpening name ++ writtenToken required ++ ")" := by
  rw [tokenSymbols, List.map_append, List.map_append, map_toChar_openingSymbols, map_toChar_plain]
  rfl

theorem Node.map_toChar_symbols (vocabulary : List Text) (count : Nat) (node : Node) :
    (node.symbols vocabulary count).map Symbol.toChar = writtenNode vocabulary node := by
  cases node with
  | condition name literals => exact map_toChar_tokenSymbols count name _
  | wildcard name => exact map_toChar_tokenSymbols count name _
  | groupOpen name => exact map_toChar_openingSymbols count name
  | groupClose => rfl
  | bar => rfl
  | quantifier q => rfl

theorem map_toChar_nodeSymbols (vocabulary : List Text) (count : Nat) (nodes : List Node) :
    (nodeSymbols vocabulary count nodes).map Symbol.toChar = written vocabulary nodes := by
  induction nodes generalizing count with
  | nil => rfl
  | cons node rest ih =>
    rw [nodeSymbols, List.map_append, node.map_toChar_symbols, ih, written_cons]

/-- The symbols of an expression over tokens. -/
def Expression.symbols : TokenExpression → List Symbol
  | empty => []
  | atom required => Symbol.plain (writtenToken required)
  | group number body => openingSymbols number ++ body.symbols ++ [.char ')']
  | sequence first second => first.symbols ++ second.symbols
  | choice first second => first.symbols ++ .char '|' :: second.symbols
  | repeated q reluctant body =>
    body.symbols ++ .char q.symbol :: if reluctant then [.char '?'] else []

section Symbols

variable {vocabulary : List Text} {count : Nat} {inner : OpenGroup} {outer : List OpenGroup}
  {nodes : List Node} {e : TokenExpression}

/-! ## Building an expression keeps the symbols of its nodes -/

/-- The symbols in a group under construction. -/
def OpenGroup.symbols (g : OpenGroup) : List Symbol :=
  (g.branches.reverse.flatMap fun branch => branch.symbols ++ [.char '|']) ++
    g.items.reverse.flatMap Expression.symbols

/-- The symbols of the nodes that led to a state. -/
def symbolsSoFar (inner : OpenGroup) : List OpenGroup → List Symbol
  | [] => inner.symbols
  | parent :: others =>
    symbolsSoFar parent others ++ openingSymbols inner.number ++ inner.symbols

namespace OpenGroup

variable {g : OpenGroup} {item : TokenExpression}

theorem symbols_push : (g.push item).symbols = g.symbols ++ item.symbols := by
  simp [symbols, push, List.flatMap_append]

theorem symbols_branch : g.branch.symbols = g.items.reverse.flatMap Expression.symbols :=
  Expression.flatMap_inSequence rfl (fun _ _ => rfl) _

theorem symbols_oneOf (front : List TokenExpression) (last : TokenExpression) :
    (Expression.oneOf (front ++ [last])).symbols =
      (front.flatMap fun branch => branch.symbols ++ [.char '|']) ++ last.symbols := by
  induction front with
  | nil => rfl
  | cons branch front ih =>
    have hcons : (Expression.oneOf (branch :: (front ++ [last]))).symbols =
        branch.symbols ++ .char '|' :: (Expression.oneOf (front ++ [last])).symbols := by
      cases front <;> rfl
    rw [List.cons_append, hcons, ih]
    simp

theorem symbols_close : g.close.symbols = g.symbols := by
  rw [close, List.reverse_cons, symbols_oneOf, symbols_branch, symbols]

theorem symbols_bar : symbols { g with branches := g.branch :: g.branches, items := [] } =
    g.symbols ++ [.char '|'] := by
  simp [symbols, symbols_branch, List.flatMap_append]

theorem symbols_repeatLast {items : List TokenExpression} (hitems : g.items = item :: items)
    (q : Quantifier) (reluctant : Bool) :
    symbols { g with items := .repeated q reluctant item :: items } =
      g.symbols ++ .char q.symbol :: if reluctant then [.char '?'] else [] := by
  simp [symbols, hitems, List.flatMap_append, Expression.symbols]

end OpenGroup

/-- A change of the innermost group adds the same to the whole. -/
theorem symbolsSoFar_eq_append {g : OpenGroup} {more : List Symbol}
    (h : g.symbols = inner.symbols ++ more) (hnumber : g.number = inner.number) :
    symbolsSoFar g outer = symbolsSoFar inner outer ++ more := by
  cases outer with
  | nil => exact h
  | cons parent others =>
    rw [symbolsSoFar, hnumber, h, ← List.append_assoc]
    rfl

/-- Reading nodes adds their symbols. -/
theorem symbols_of_build (hbuild : build vocabulary count inner outer nodes = some e) :
    e.symbols = symbolsSoFar inner outer ++ nodeSymbols vocabulary count nodes := by
  -- On the reading: a node adds its symbols to the innermost group, or opens or closes one.
  fun_induction build vocabulary count inner outer nodes with
  | case1 count inner =>
    cases hbuild
    rw [nodeSymbols, List.append_nil, OpenGroup.symbols_close]
    rfl
  | case2 => cases hbuild
  | case3 count inner outer name literals rest item ih =>
    rw [ih hbuild, symbolsSoFar_eq_append OpenGroup.symbols_push rfl, List.append_assoc]
    rfl
  | case4 count inner outer name rest item ih =>
    rw [ih hbuild, symbolsSoFar_eq_append OpenGroup.symbols_push rfl, List.append_assoc]
    rfl
  | case5 count inner outer name rest ih =>
    have hempty : OpenGroup.symbols { number := groupNumber count name } = [] := rfl
    rw [ih hbuild, symbolsSoFar, hempty, List.append_nil, List.append_assoc]
    rfl
  | case6 => cases hbuild
  | case7 count inner rest parent others ih =>
    rw [ih hbuild, symbolsSoFar_eq_append OpenGroup.symbols_push rfl, Expression.symbols,
      OpenGroup.symbols_close, symbolsSoFar]
    simp [nodeSymbols, Node.symbols, countGroup, Node.name?]
  | case8 count inner outer rest ih =>
    rw [ih hbuild, symbolsSoFar_eq_append OpenGroup.symbols_bar rfl, List.append_assoc]
    rfl
  | case9 => cases hbuild
  | case10 count inner outer q rest item items hitems ih =>
    rw [ih hbuild, symbolsSoFar_eq_append (OpenGroup.symbols_repeatLast hitems q true) rfl,
      List.append_assoc]
    rfl
  | case11 => cases hbuild
  | case12 count inner outer q rest hq item items hitems ih =>
    rw [ih hbuild, symbolsSoFar_eq_append (OpenGroup.symbols_repeatLast hitems q false) rfl,
      List.append_assoc]
    rfl

/-- The expression of a pattern has the symbols of its nodes. -/
theorem symbols_of_expression? (h : expression? vocabulary nodes = some e) :
    e.symbols = nodeSymbols vocabulary 0 nodes :=
  symbols_of_build h

/-! ## The written form has the symbols of its nodes -/

/-- Outside sets, a character that opens nothing and takes nothing away is passed over. -/
theorem numbered_cons {c : Char} (h : c ≠ '\\' ∧ c ≠ '[' ∧ c ≠ '(') (rest : Text) :
    numbered count false false (c :: rest) = .char c :: numbered count false false rest := by
  have hset : (c == '[') = false := beq_false_of_ne h.2.1
  simp [numbered, h.1, h.2.2, hset]

theorem numbered_symbol (q : Quantifier) (rest : Text) :
    numbered count false false (q.symbol :: rest) =
      .char q.symbol :: numbered count false false rest := by
  cases q <;> exact numbered_cons (by decide) rest

theorem numbered_writtenToken (required : List (Option Bool)) (rest : Text) :
    numbered count false false (writtenToken required ++ rest) =
      Symbol.plain (writtenToken required) ++ numbered count false false rest := by
  have hmarks : numbered count false false (required.flatMap writtenMark ++ rest) =
      Symbol.plain (required.flatMap writtenMark) ++ numbered count false false rest := by
    induction required with
    | nil => rfl
    | cons mark required ih =>
      rw [List.flatMap_cons, List.append_assoc, Symbol.plain_append, List.append_assoc, ← ih]
      match mark with
      | some true => rfl
      | some false => rfl
      | none => rfl
  rw [writtenToken, List.append_assoc, Symbol.plain_append, List.append_assoc, ← hmarks]
  rfl

/-- The opening of a named group is numbered if nothing else follows that would make it another. -/
theorem numbered_writtenOpening (name : Option Text) {rest : Text} (h : captures rest = true) :
    numbered count false false (writtenOpening name ++ rest) =
      openingSymbols (groupNumber count name) ++
        numbered (countGroup count name) false false rest := by
  cases name with
  | none => rfl
  | some name =>
    simp [writtenOpening, numbered, h, groupNumber, openingSymbols, countGroup]

theorem numbered_token (name : Option Text) (required : List (Option Bool)) (rest : Text) :
    numbered count false false (writtenOpening name ++ writtenToken required ++ ")" ++ rest) =
      tokenSymbols (groupNumber count name) required ++
        numbered (countGroup count name) false false rest := by
  rw [List.append_assoc, List.append_assoc, numbered_writtenOpening name rfl,
    numbered_writtenToken, tokenSymbols, List.append_assoc, List.append_assoc]
  exact congrArg _ (congrArg _ (numbered_cons (by decide) rest))

/-- A quantifier, reluctant or not, needs an item before it. -/
theorem build_quantifier_of_items_eq_nil (hitems : inner.items = []) (q : Quantifier)
    (rest : List Node) : build vocabulary count inner outer (.quantifier q :: rest) = none := by
  rw [build.eq_def]
  split
  case h_7 => rw [hitems]
  case h_8 => rw [hitems]
  all_goals next heq => cases heq

/-- Nothing is repeated at the start of a group, so a parenthesis before it captures. -/
theorem captures_written (hbuild : build vocabulary count inner outer nodes = some e)
    (hitems : inner.items = []) : captures (written vocabulary nodes) = true := by
  cases nodes with
  | nil => rfl
  | cons node rest =>
    cases node with
    | condition name literals => cases name <;> rfl
    | wildcard name => cases name <;> rfl
    | groupOpen name => cases name <;> rfl
    | groupClose => rfl
    | bar => rfl
    | quantifier q =>
      rw [build_quantifier_of_items_eq_nil hitems] at hbuild
      cases hbuild

theorem numbered_of_build (hbuild : build vocabulary count inner outer nodes = some e) :
    numbered count false false (written vocabulary nodes) = nodeSymbols vocabulary count nodes := by
  fun_induction build vocabulary count inner outer nodes with
  | case1 count inner => rfl
  | case2 => cases hbuild
  | case3 count inner outer name literals rest item ih =>
    rw [written_cons, nodeSymbols, Node.name?, ← ih hbuild]
    exact numbered_token name _ _
  | case4 count inner outer name rest item ih =>
    rw [written_cons, nodeSymbols, Node.name?, ← ih hbuild]
    exact numbered_token name _ _
  | case5 count inner outer name rest ih =>
    rw [written_cons, nodeSymbols, writtenNode,
      numbered_writtenOpening name (captures_written hbuild rfl), ih hbuild]
    rfl
  | case6 => cases hbuild
  | case7 count inner rest parent others ih =>
    rw [written_cons, nodeSymbols]
    exact (numbered_cons (by decide) _).trans (congrArg _ (ih hbuild))
  | case8 count inner outer rest ih =>
    rw [written_cons, nodeSymbols]
    exact (numbered_cons (by decide) _).trans (congrArg _ (ih hbuild))
  | case9 => cases hbuild
  | case10 count inner outer q rest item items hitems ih =>
    rw [written_cons, written_cons, nodeSymbols, nodeSymbols]
    exact (numbered_symbol q _).trans
      (congrArg _ ((numbered_symbol .optional _).trans (congrArg _ (ih hbuild))))
  | case11 => cases hbuild
  | case12 count inner outer q rest hq item items hitems ih =>
    rw [written_cons, nodeSymbols]
    exact (numbered_symbol q _).trans (congrArg _ (ih hbuild))

/-- The captures of the written form are the openings of the named nodes. -/
theorem symbolsOf_written (h : expression? vocabulary nodes = some e) :
    symbolsOf (written vocabulary nodes) = nodeSymbols vocabulary 0 nodes :=
  numbered_of_build h

/-! ## The groups of an expression -/

theorem number?_plain (text : Text) : (Symbol.plain text).filterMap Symbol.number? = [] := by
  induction text with
  | nil => rfl
  | cons c text ih => exact ih

theorem number?_openingSymbols (number : Option Nat) :
    (openingSymbols number).filterMap Symbol.number? = number.toList := by
  cases number <;> rfl

/-- The captures in the symbols of an expression are its groups. -/
theorem number?_symbols (e : TokenExpression) :
    e.symbols.filterMap Symbol.number? = e.groupNumbers := by
  induction e with
  | empty => rfl
  | atom required => exact number?_plain _
  | group number body ih =>
    rw [Expression.symbols, List.filterMap_append, List.filterMap_append, number?_openingSymbols,
      ih]
    exact List.append_nil _
  | sequence first second ihf ihs =>
    rw [Expression.symbols, List.filterMap_append, ihf, ihs, Expression.groupNumbers]
  | choice first second ihf ihs =>
    rw [Expression.symbols, List.filterMap_append, ihf, Expression.groupNumbers, ← ihs]
    rfl
  | repeated q reluctant body ih =>
    rw [Expression.symbols, List.filterMap_append, ih]
    cases reluctant <;> exact List.append_nil _

/-- How many parentheses are open behind some symbols, unless one closes that is not open. No set
and nothing escaped in a written form is a parenthesis. -/
def heightBehind : Nat → List Symbol → Option Nat
  | height, [] => some height
  | height, symbol :: rest =>
    if symbol.toChar = '(' then heightBehind (height + 1) rest
    else if symbol.toChar = ')' then if height = 0 then none else heightBehind (height - 1) rest
    else heightBehind height rest

theorem heightBehind_char {c : Char} (hopen : c ≠ '(') (hclose : c ≠ ')') (height : Nat)
    (rest : List Symbol) : heightBehind height (.char c :: rest) = heightBehind height rest := by
  rw [heightBehind, Symbol.toChar, if_neg hopen, if_neg hclose]

theorem heightBehind_plain {text : Text} (hopen : '(' ∉ text) (hclose : ')' ∉ text) (height : Nat)
    (rest : List Symbol) :
    heightBehind height (Symbol.plain text ++ rest) = heightBehind height rest := by
  induction text with
  | nil => rfl
  | cons c text ih =>
    rw [List.mem_cons, not_or] at hopen hclose
    rw [← ih hopen.2 hclose.2]
    exact heightBehind_char (Ne.symm hopen.1) (Ne.symm hclose.1) _ _

theorem heightBehind_openingSymbols (number : Option Nat) (height : Nat) (rest : List Symbol) :
    heightBehind height (openingSymbols number ++ rest) = heightBehind (height + 1) rest := by
  cases number <;> rfl

/-- An expression closes all the parentheses that it opens, and no other. -/
theorem heightBehind_symbols (e : TokenExpression) (height : Nat) (rest : List Symbol) :
    heightBehind height (e.symbols ++ rest) = heightBehind height rest := by
  induction e generalizing height rest with
  | empty => rfl
  | atom required =>
    have hopen : '(' ∉ blockAlphabet := by decide
    have hclose : ')' ∉ blockAlphabet := by decide
    have hsubset := subset_blockAlphabet_writtenToken required
    exact heightBehind_plain (fun h => hopen (hsubset h)) (fun h => hclose (hsubset h)) height rest
  | group number body ih =>
    rw [Expression.symbols, List.append_assoc, List.append_assoc, heightBehind_openingSymbols, ih]
    rfl
  | sequence first second ihf ihs => rw [Expression.symbols, List.append_assoc, ihf, ihs]
  | choice first second ihf ihs =>
    rw [Expression.symbols, List.append_assoc, ihf, List.cons_append,
      heightBehind_char (by decide) (by decide), ihs]
  | repeated q reluctant body ih =>
    rw [Expression.symbols, List.append_assoc, ih]
    cases q <;> cases reluctant <;> rfl

end Symbols

end Klingon.Pattern
