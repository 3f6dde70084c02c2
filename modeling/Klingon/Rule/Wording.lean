import Klingon.Text.Alphanumeric
import Klingon.Token

/-!
# Wordings

The message of a rule may refer to the groups of its pattern: a dollar sign and a name stand for
the words of the group, and for their headwords if a mark follows. A wording is read once, from
left to right; what is inserted is not read again, and a reference to a group that is not there
stays as it is written.
-/

namespace Klingon

inductive WordingPiece where
  | literal (c : Char)
  | reference (name : Text) (byHeadword : Bool)
  deriving DecidableEq, Repr

namespace WordingPiece

/-- What asks for headwords when it follows a reference. -/
def headwordMark : Text := "\\lemma"

/-- The piece as it is written. -/
def written : WordingPiece → Text
  | literal c => [c]
  | reference name byHeadword => '$' :: name ++ if byHeadword then headwordMark else []

end WordingPiece

/-- Reads a wording. The name of a reference is the longest run of name characters. -/
def wordingPieces : Text → List WordingPiece
  | [] => []
  | c :: rest =>
    let name := rest.takeWhile Text.isNameChar
    if c = '$' ∧ name ≠ [] then
      match _hmark : Text.dropStart? WordingPiece.headwordMark (rest.drop name.length) with
      | some after => .reference name true :: wordingPieces after
      | none => .reference name false :: wordingPieces (rest.drop name.length)
    else .literal c :: wordingPieces rest
  termination_by text => text.length
  decreasing_by
    · have hafter := Text.length_of_dropStart? _hmark
      simp only [List.length_cons, List.length_drop] at hafter ⊢
      omega
    · simp only [List.length_cons, List.length_drop]
      omega
    · simp

namespace Token

/-- The headword of the first analysis, or the text of a token without analyses. -/
def headword (token : Token) : Text :=
  match token.analyses with
  | [] => token.text
  | analysis :: _ => analysis.headword

end Token

/-- The words, or the headwords, of the numbered tokens. -/
def spellTokens (tokens : List Token) (byHeadword : Bool) (numbers : List Nat) : Text :=
  List.intercalate " " <| (numbers.filterMap (tokens[·]?)).map fun token =>
    if byHeadword then token.headword else token.text

/-- A piece with a reference to a group replaced by its tokens. -/
def WordingPiece.spell (tokens : List Token) (groups : List (Text × List Nat)) :
    WordingPiece → Text
  | literal c => [c]
  | reference name byHeadword =>
    match groups.lookup name with
    | some numbers => spellTokens tokens byHeadword numbers
    | none => (reference name byHeadword).written

/-- A wording with its references replaced. -/
def fillIn (tokens : List Token) (groups : List (Text × List Nat)) (wording : Text) : Text :=
  (wordingPieces wording).flatMap (WordingPiece.spell tokens groups)

end Klingon
