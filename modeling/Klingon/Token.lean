import Klingon.Analyzer
import Klingon.Span

/-!
# Tokens

A token is a span of a text at an offset counted in characters. The words of a text carry their
analyses, other tokens carry none.
-/

namespace Klingon

structure Token where
  offset : Nat
  kind : TokenKind
  text : Text
  analyses : List Analysis := []
  deriving DecidableEq, Repr

namespace Token

/-- The offset after the last character. -/
def stop (token : Token) : Nat :=
  token.offset + token.text.length

def isWord (token : Token) : Bool :=
  token.kind = .word

def isSpace (token : Token) : Bool :=
  token.kind = .space

/-- Gives each span the offset that follows from the spans before it. -/
def ofSpans (offset : Nat) : List Span → List Token
  | [] => []
  | span :: rest =>
    { offset, kind := span.kind, text := span.text } :: ofSpans (offset + span.text.length) rest

/-- The tokens of a text, without analyses. -/
def ofText (text : Text) : List Token :=
  ofSpans 0 (Span.ofText text)

/-- The token with the analyses of its word. -/
def analyzed (analyzer : Analyzer) (token : Token) : Token :=
  if token.isWord then { token with analyses := analyzer.analyze token.text } else token

end Token

/-- The tokens of a text; the words have their analyses. -/
def Analyzer.tokens (analyzer : Analyzer) (text : Text) : List Token :=
  (Token.ofText text).map (Token.analyzed analyzer)

end Klingon
