import Klingon.Json

/-!
# Lexemes of JSON

The bytes of a document are read one by one. Between lexemes there may be blanks; a bare word runs
as far as letters, digits, signs and points go and has to be a literal or a number; a string runs
to the next quote that no backslash precedes.
-/

namespace Klingon.Json

inductive Lexeme where
  | openArray
  | closeArray
  | openObject
  | closeObject
  | comma
  | colon
  | null
  | bool (value : Bool)
  | number (value : Numeral)
  | string (text : Option Text)
  deriving DecidableEq, Repr

/-- A byte of a string as it stands, or the UTF-16 unit of a hexadecimal escape. -/
inductive StringPiece where
  | byte (value : UInt8)
  | unit (value : Nat)
  deriving DecidableEq, Repr

namespace StringPiece

def isHighSurrogate (unit : Nat) : Bool := 0xD800 ≤ unit && unit < 0xDC00

def isLowSurrogate (unit : Nat) : Bool := 0xDC00 ≤ unit && unit < 0xE000

/-- The bytes the pieces spell, unless a surrogate stands alone. -/
def spell : List StringPiece → Option (List UInt8)
  | [] => some []
  | byte b :: rest => (spell rest).map (b :: ·)
  | [unit u] =>
    if isHighSurrogate u || isLowSurrogate u then none
    else some (String.utf8EncodeChar (Char.ofNat u))
  | unit u :: unit v :: rest =>
    if isHighSurrogate u then
      if isLowSurrogate v then
        (spell rest).map
          (String.utf8EncodeChar (Char.ofNat (0x10000 + (u - 0xD800) * 0x400 + (v - 0xDC00))) ++ ·)
      else none
    else if isLowSurrogate u then none
    else (spell (unit v :: rest)).map (String.utf8EncodeChar (Char.ofNat u) ++ ·)
  | unit u :: byte b :: rest =>
    if isHighSurrogate u || isLowSurrogate u then none
    else (spell (byte b :: rest)).map (String.utf8EncodeChar (Char.ofNat u) ++ ·)

/-- The text of a string, unless its bytes are not UTF-8. -/
def text? (pieces : List StringPiece) : Option Text := do
  let bytes ← spell pieces
  let text ← String.fromUTF8? ⟨bytes.toArray⟩
  return text.toList

end StringPiece

/-- The digits at the start of a text and what follows them; there must be one. -/
def digits? (text : Text) : Option (Text × Text) :=
  let found := text.takeWhile Char.isDigit
  if found = [] then none else some (found, text.dropWhile Char.isDigit)

/-- The whole part, which starts with a zero only if it is zero. -/
def whole? (text : Text) : Option (Text × Text) := do
  let (found, rest) ← digits? text
  if found.head? = some '0' && found.length ≠ 1 then none else some (found, rest)

def fraction? : Text → Option (Text × Text)
  | '.' :: rest => digits? rest
  | rest => some ([], rest)

def exponent? : Text → Option (Int × Text)
  | 'e' :: rest | 'E' :: rest =>
    match rest with
    | '-' :: digits => (digits? digits).map fun (d, r) => (-(Numeral.digitsValue d : Int), r)
    | '+' :: digits => (digits? digits).map fun (d, r) => (Numeral.digitsValue d, r)
    | digits => (digits? digits).map fun (d, r) => (Numeral.digitsValue d, r)
  | rest => some (0, rest)

def numeral? (text : Text) : Option Numeral := do
  let unsigned := (Text.dropStart? "-" text).getD text
  let (whole, rest) ← whole? unsigned
  let (fraction, rest) ← fraction? rest
  let (exponent, rest) ← exponent? rest
  if rest = [] then some ⟨whole, fraction, exponent⟩ else none

/-- The lexeme a bare word stands for. -/
def bareLexeme? (word : Text) : Option Lexeme :=
  if word = "null" then some .null
  else if word = "true" then some (.bool true)
  else if word = "false" then some (.bool false)
  else (numeral? word).map .number

/-- Where the reader stands: between lexemes, in a bare word, in a string, after a backslash in a
string, or within a hexadecimal escape. What was read of the lexeme is kept last first. -/
inductive ScanState where
  | between
  | bare (word : Text)
  | string (pieces : List StringPiece)
  | escape (pieces : List StringPiece)
  | hex (pieces : List StringPiece) (left value : Nat)
  deriving DecidableEq, Repr

def isBareChar (c : Char) : Bool :=
  c.isAlphanum || c = '+' || c = '-' || c = '.'

/-- The character that a letter after a backslash stands for. -/
def simpleEscape? (c : Char) : Option Char :=
  match c with
  | '"' | '\\' | '/' => some c
  | 'b' => some '\x08'
  | 'f' => some '\x0c'
  | 'n' => some '\n'
  | 'r' => some '\r'
  | 't' => some '\t'
  | _ => none

def hexDigit? (c : Char) : Option Nat :=
  if '0' ≤ c && c ≤ '9' then some (c.toNat - '0'.toNat)
  else if 'a' ≤ c && c ≤ 'f' then some (c.toNat - 'a'.toNat + 10)
  else if 'A' ≤ c && c ≤ 'F' then some (c.toNat - 'A'.toNat + 10)
  else none

/-- A byte between lexemes. -/
def scanBetween (b : UInt8) : Option (List Lexeme × ScanState) :=
  match Char.ofNat b.toNat with
  | ' ' | '\t' | '\n' | '\r' => some ([], .between)
  | '[' => some ([.openArray], .between)
  | ']' => some ([.closeArray], .between)
  | '{' => some ([.openObject], .between)
  | '}' => some ([.closeObject], .between)
  | ',' => some ([.comma], .between)
  | ':' => some ([.colon], .between)
  | '"' => some ([], .string [])
  | c => if isBareChar c then some ([], .bare [c]) else none

/-- One byte: the lexemes it completes and where the reader stands after it. -/
def scanByte (state : ScanState) (b : UInt8) : Option (List Lexeme × ScanState) :=
  let c := Char.ofNat b.toNat
  match state with
  | .between => scanBetween b
  | .bare word =>
    if isBareChar c then some ([], .bare (c :: word))
    else do
      let lexeme ← bareLexeme? word.reverse
      let (more, next) ← scanBetween b
      return (lexeme :: more, next)
  | .string pieces =>
    if c = '"' then some ([.string (StringPiece.text? pieces.reverse)], .between)
    else if c = '\\' then some ([], .escape pieces)
    else if b < 0x20 then none
    else some ([], .string (.byte b :: pieces))
  | .escape pieces =>
    if c = 'u' then some ([], .hex pieces 4 0)
    else (simpleEscape? c).map fun e => ([], .string (.byte e.toUInt8 :: pieces))
  | .hex pieces left value => do
    let digit ← hexDigit? c
    let value := 16 * value + digit
    if left = 1 then some ([], .string (.unit value :: pieces))
    else some ([], .hex pieces (left - 1) value)

/-- The lexeme that the end of the document completes. -/
def scanEnd : ScanState → Option (List Lexeme)
  | .between => some []
  | .bare word => (bareLexeme? word.reverse).map ([·])
  | _ => none

/-- The lexemes of a document. -/
def lexemes (bytes : List UInt8) : Option (List Lexeme) := do
  let (found, state) ← bytes.foldlM
    (fun (found, state) b => do
      let (more, next) ← scanByte state b
      return (more.reverse ++ found, next))
    ([], ScanState.between)
  let last ← scanEnd state
  return (last.reverse ++ found).reverse

end Klingon.Json
