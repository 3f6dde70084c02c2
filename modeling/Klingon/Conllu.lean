import Klingon.Token

/-!
# The CoNLL-U format

A text is written as rows, one for each token that is not blank. A row names the token's place in
its sentence, its form, headword, parts of speech and features. A full stop, an exclamation mark
or a question mark ends a sentence: an empty line follows and the count starts again.
-/

namespace Klingon.Conllu

/-- The mark of an empty column. -/
def blank : Text := "_"

/-- The feature each suffix expresses in its position. -/
def suffixFeatures : List (SuffixSlot × Text × Text) :=
  [ (.v7, "-pu'", "Aspect=Perf"),
    (.v7, "-ta'", "Aspect=Int"),
    (.v7, "-taH", "Aspect=Imp"),
    (.v7, "-lI'", "Aspect=Prog"),
    (.v8, "-neS", "Polite=Humb"),
    (.v9, "-jaj", "Mood=Jus"),
    (.v9, "-ghach", "VerbForm=Vnoun"),
    (.v9, "-wI'", "VerbForm=Vnoun"),
    (.n2, "-pu'", "Number=Plur"),
    (.n2, "-Du'", "Number=Plur"),
    (.n2, "-mey", "Number=Plur"),
    (.n4, "-wI'", "Poss=Yes|PossPerson=1|PossNumber=Sing"),
    (.n4, "-ma'", "Poss=Yes|PossPerson=1|PossNumber=Plur"),
    (.n4, "-lI'", "Poss=Yes|PossPerson=2|PossNumber=Sing"),
    (.n4, "-ra'", "Poss=Yes|PossPerson=2|PossNumber=Plur"),
    (.n4, "-wIj", "Poss=Yes|PossPerson=1|PossNumber=Sing"),
    (.n4, "-maj", "Poss=Yes|PossPerson=1|PossNumber=Plur"),
    (.n4, "-lIj", "Poss=Yes|PossPerson=2|PossNumber=Sing"),
    (.n4, "-raj", "Poss=Yes|PossPerson=2|PossNumber=Plur"),
    (.n4, "-Daj", "Poss=Yes|PossPerson=3|PossNumber=Sing"),
    (.n4, "-chaj", "Poss=Yes|PossPerson=3|PossNumber=Plur"),
    (.n5, "-Daq", "Case=Loc"),
    (.n5, "-vo'", "Case=Ela"),
    (.n5, "-mo'", "Case=Cau"),
    (.n5, "-vaD", "Case=Dat"),
    (.n5, "-'e'", "Case=Top"),
    (.l2, "-DIch", "NumType=Ord") ]

def suffixFeature? (slot : SuffixSlot) (text : Text) : Option Text :=
  (suffixFeatures.find? fun f => f.1 = slot && f.2.1 = text).map (·.2.2)

/-- One row; the three columns between features and remarks are always empty. -/
structure Row where
  index : Nat
  form : Text
  headword : Text := blank
  upos : Text := blank
  xpos : Text := blank
  feats : Text := blank
  misc : Text := blank
  deriving DecidableEq, Repr

namespace Row

/-- Items separated by bars, or the mark of an empty column. -/
def listed (items : List Text) : Text :=
  if items = [] then blank else List.intercalate "|" items

def punct (index : Nat) (text : Text) : Row :=
  { index, form := text, headword := text, upos := "PUNCT", xpos := "PUNCT" }

/-- The prefix whose agreement a row shows. Verbs without prefix agree too. -/
def agreeingPrefix? (analysis : Analysis) : Option Text :=
  analysis.verbPrefix.or
    (if analysis.fine.upos = "VERB" || analysis.fine.upos = "ADJ" then some "-" else none)

def features (analysis : Analysis) : List Text :=
  ((agreeingPrefix? analysis).bind fun dashed =>
    (Agreement.find? dashed analysis.voice).map Agreement.features).toList ++
  analysis.suffixes.filterMap fun s => suffixFeature? s.1 s.2

def remarks (analysis : Analysis) : List Text :=
  (analysis.verbPrefix.map ("Prefix=".toList ++ ·)).toList ++
  analysis.suffixes.map fun s => "Suffix".toList ++ s.1.symbol ++ "=" ++ s.2

/-- The row of a word. It shows the first analysis if all have the same class and headword, and
only the form otherwise. -/
def word (index : Nat) (form : Text) : List Analysis → Row
  | [] => { index, form }
  | analysis :: others =>
    if others.all fun a => a.broad = analysis.broad && a.headword = analysis.headword then
      { index
        form
        headword := analysis.headword
        upos := analysis.fine.upos
        xpos := analysis.combined
        feats := listed (features analysis)
        misc := listed (remarks analysis) }
    else { index, form }

def columns (row : Row) : List Text :=
  [Text.decimal row.index, row.form, row.headword, row.upos, row.xpos, row.feats, blank, blank,
    blank, row.misc]

def line (row : Row) : Text :=
  List.intercalate "\t" row.columns

end Row

def endsSentence (span : Span) : Bool :=
  span.kind = .punct && (span.text = "." || span.text = "!" || span.text = "?")

/-- The row of a span that is not blank. -/
def row (analyzer : Analyzer) (index : Nat) (span : Span) : Row :=
  match span.kind with
  | .word => Row.word index span.text (analyzer.analyze span.text)
  | _ => Row.punct index span.text

/-- The lines of the spans of a text, the first of which has the given place. -/
def linesFrom (analyzer : Analyzer) (index : Nat) : List Span → List Text
  | [] => []
  | span :: rest =>
    if span.kind = .space then linesFrom analyzer index rest
    else
      let line := (row analyzer index span).line
      if endsSentence span then line :: [] :: linesFrom analyzer 1 rest
      else line :: linesFrom analyzer (index + 1) rest

/-- The rows of a text, separated by line feeds. -/
def render (analyzer : Analyzer) (text : Text) : Text :=
  List.intercalate "\n" (linesFrom analyzer 1 (Span.ofText text))

end Klingon.Conllu
