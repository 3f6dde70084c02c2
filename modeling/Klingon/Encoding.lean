import Klingon.Token

/-!
# Encoding sentences

A rule sees a sentence through its vocabulary of bits. Each token becomes a block: a comma, the
token's number, a colon, and one mark for each bit. The mark says whether all analyses of the word
hold the bit, none does, or some do; a punctuation token holds the bits of its character.
-/

namespace Klingon

/-- A punctuation character with the names it has as bits. -/
def named (c : Char) (names : List Text) : Char × List Text :=
  (c, names)

/-- The names of single punctuation characters. -/
def punctuationNames : List (Char × List Text) :=
  [ named '.' ["Period"],
    named ',' ["Comma"],
    named ':' ["Colon"],
    named ';' ["Semicolon"],
    named '!' ["ExclamationMark"],
    named '?' ["QuestionMark"],
    named '"' ["QuotationMark"],
    named '“' ["QuotationMark", "Left"],
    named '”' ["QuotationMark", "Right"],
    named '‘' ["QuotationMark", "Left"],
    named '’' ["QuotationMark", "Right"],
    named '«' ["QuotationMark", "Left"],
    named '»' ["QuotationMark", "Right"],
    named '‹' ["QuotationMark", "Left"],
    named '›' ["QuotationMark", "Right"],
    named '<' ["LessThanSign", "AngleBracket", "Left"],
    named '>' ["GreaterThanSign", "AngleBracket", "Right"],
    named '(' ["Parenthesis", "Left"],
    named ')' ["Parenthesis", "Right"],
    named '{' ["Brace", "Left"],
    named '}' ["Brace", "Right"],
    named '[' ["Bracket", "Left"],
    named ']' ["Bracket", "Right"],
    named '*' ["Asterisk"],
    named '/' ["Slash"],
    named '\\' ["Backslash"],
    named '\x60' ["Backtick"],
    named '~' ["Tilde"],
    named '^' ["CircumflexMark"],
    named '=' ["EqualsSign"],
    named '+' ["PlusSign"],
    named '-' ["MinusSign"],
    named '–' ["Dash"],
    named '_' ["Underscore"],
    named '%' ["PercentSign"],
    named '$' ["DollarSign", "CurrencySign"],
    named '€' ["EuroSign", "CurrencySign"] ]

namespace Token

/-- Whether a punctuation token holds a bit. All hold Punct; a token of one character also holds
the names of the character and its code point in decimal. -/
def punctHolds (text bit : Text) : Bool :=
  bit = "Punct" ||
    match text with
    | [c] => ((punctuationNames.lookup c).any (bit ∈ ·)) || bit = Text.decimal c.toNat
    | _ => false

/-- How a token holds a bit. A token without analyses holds none. -/
def mark (token : Token) (bit : Text) : Char :=
  if token.kind = .punct then
    if punctHolds token.text bit then '1' else '0'
  else
    let holding := token.analyses.countP (·.holds bit)
    if holding = 0 then '0'
    else if holding = token.analyses.length then '1'
    else '.'

def marks (vocabulary : List Text) (token : Token) : List Char :=
  vocabulary.map token.mark

/-- The block of the token with the given number. -/
def block (vocabulary : List Text) (index : Nat) (token : Token) : Text :=
  "," ++ Text.decimal index ++ ":" ++ token.marks vocabulary

end Token

/-- The blocks of tokens that are numbered from `index` on. -/
def encodeFrom (vocabulary : List Text) (index : Nat) : List Token → Text
  | [] => []
  | token :: rest => token.block vocabulary index ++ encodeFrom vocabulary (index + 1) rest

/-- The encoding of a sentence over a vocabulary. -/
def encode (vocabulary : List Text) (tokens : List Token) : Text :=
  encodeFrom vocabulary 0 tokens

end Klingon
