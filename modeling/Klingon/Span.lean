import Klingon.Letter
import Klingon.Text.Blank

/-!
# Spans

A text splits into words, blank stretches and punctuation: a maximal run of word characters, a
maximal run of blanks, or a maximal run of one other character repeated.
-/

namespace Klingon

inductive TokenKind where
  | word
  | space
  | punct
  deriving DecidableEq, Repr

namespace TokenKind

def symbol : TokenKind → Text
  | word => "WORD"
  | space => "SPACE"
  | punct => "PUNCT"

def ofChar (c : Char) : TokenKind :=
  if Text.isWordChar c then word else if Text.isBlank c then space else punct

end TokenKind

/-- A piece of a text and the kind of its characters. -/
structure Span where
  kind : TokenKind
  text : Text
  deriving DecidableEq, Repr

namespace Span

/-- Whether neighbouring characters belong to one span. -/
def joins (c d : Char) : Bool :=
  TokenKind.ofChar c = TokenKind.ofChar d && (TokenKind.ofChar c ≠ .punct || c = d)

/-- Puts a character in front of spans, into the first of them if it belongs there. -/
def push (c : Char) : List Span → List Span
  | [] => [⟨TokenKind.ofChar c, [c]⟩]
  | span :: rest =>
    if span.text.head?.any (joins c) then ⟨span.kind, c :: span.text⟩ :: rest
    else ⟨TokenKind.ofChar c, [c]⟩ :: span :: rest

/-- The spans of a text, from left to right. -/
def ofText (text : Text) : List Span :=
  text.foldr push []

end Span

end Klingon
