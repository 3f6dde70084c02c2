import Klingon.Features
import Klingon.Grammaticality
import Klingon.Template.Inventory

/-!
# Analyzing words

A word is read by every template of the lexicon. The pieces of a reading are walked from left to
right: the headword gives one analysis for each homograph, a suffix is recorded under its position,
and a rover that follows a suffix becomes part of it. Words of the other classes are looked up as
they are.
-/

namespace Klingon

/-- A lexicon with its templates. -/
structure Analyzer where
  lexicon : Lexicon
  templates : List Template
  deriving DecidableEq, Repr

namespace Analyzer

def ofLexicon (lexicon : Lexicon) : Analyzer :=
  { lexicon, templates := lexicon.templates }

/-- The diminutive suffixes of address: -oy follows a consonant and -'oy a vowel. The text before
the suffix is given. -/
def isEuphonicSuffix (before suffix : Text) : Bool :=
  if suffix = "oy" then !before.endsInVowel
  else if suffix = "'oy" then before.endsInVowel
  else true

/-- Whether every suffix among the captures may follow the text before it. -/
def isEuphonic (before : Text) : List Capture → Bool
  | [] => true
  | capture :: rest =>
    (match capture.role with
      | .suffix _ _ => isEuphonicSuffix before capture.text
      | _ => true) &&
    isEuphonic (before ++ capture.text) rest

/-- The analyses of a word whose headword has this spelling: one for each homograph with the
required tag, or one without entry if there is no homograph. -/
def expandHeadword (lexicon : Lexicon) (kind : TemplateKind) (surface : Text)
    (analysis : Analysis) : List Analysis :=
  let named := { analysis with headword := surface }
  match lexicon.homographs surface kind.headwordClass with
  | [] => [{ named with parts := named.parts ++ [surface] }]
  | entries =>
    (entries.filter fun entry => kind.requiredTag.all entry.hasTag).map fun entry =>
      { named with
        parts := named.parts ++ [entry.id]
        fine := entry.fineTag
        sourceTag := entry.pos
        entryId := entry.id }

/-- Records the prefix. -/
def addPrefix (wordClass : WordClass) (text : Text) (analysis : Analysis) : Analysis :=
  { analysis with
    verbPrefix := some (text ++ "-")
    parts := analysis.parts ++ [text ++ "-:" ++ wordClass.key] }

/-- Records a suffix with the rover that follows it. -/
def addSuffix (wordClass : WordClass) (text rover : Text) (analysis : Analysis) : Analysis :=
  { analysis with
    suffixes :=
      match Affix.slot? ("-" ++ text) wordClass with
      | some slot => Ordered.put slot ("-" ++ text ++ rover) analysis.suffixes
      | none => analysis.suffixes
    parts := analysis.parts ++ ["-" ++ text ++ ":" ++ wordClass.key] }

/-- The class of the word after a suffix. -/
def classAfter (wordClass : WordClass) (text : Text) : WordClass :=
  if Affix.isNominalizer ("-" ++ text) wordClass then .noun else wordClass

/-- Walks the captures of a reading. The class is that of the word so far. -/
def walk (lexicon : Lexicon) (kind : TemplateKind) :
    WordClass → List Capture → Analysis → List Analysis
  | _, [], analysis => [analysis]
  | wordClass, capture :: rest, analysis =>
    match capture.role with
    | .verbPrefix => walk lexicon kind wordClass rest (addPrefix wordClass capture.text analysis)
    | .headword =>
      (expandHeadword lexicon kind capture.text analysis).flatMap
        (walk lexicon kind kind.inflectionClass rest)
    | .suffix _ fixed =>
      let suffixClass := fixed.getD wordClass
      let next := classAfter suffixClass capture.text
      match rest with
      | [] => [addSuffix suffixClass capture.text [] analysis]
      | following :: more =>
        if Affix.isRover following.text then
          walk lexicon kind next more
            (addSuffix suffixClass capture.text following.text analysis)
        else
          walk lexicon kind next (following :: more)
            (addSuffix suffixClass capture.text [] analysis)

/-- The captures of a template's reading of the word, if it is euphonic. -/
def euphonicCaptures? (template : Template) (word : Text) : Option (List Capture) :=
  (template.captures? word).filter (isEuphonic [])

/-- The analyses by one template. -/
def byTemplate (lexicon : Lexicon) (template : Template) (word : Text) : List Analysis :=
  match euphonicCaptures? template word with
  | some captures =>
    walk lexicon template.kind template.kind.headwordClass captures
      { word, broad := template.kind.headwordClass }
  | none => []

/-- Pronouns are read as verbs only if no template before has read the word as a bare entry. -/
def isTried (template : Template) (found : List Analysis) : Bool :=
  template.kind ≠ .pronounVerb || (found.head?.map (·.parts.length)).all (1 < ·)

/-- The analysis of a word that stands in the lexicon as it is. -/
def ofEntry (word : Text) (entry : Entry) : Analysis :=
  { word
    broad := .other
    headword := entry.name
    fine := entry.fineTag
    sourceTag := entry.pos
    entryId := entry.id
    parts := [entry.id] }

/-- The readings of the word, before what follows from them is added. -/
def readings (analyzer : Analyzer) (word : Text) : List Analysis :=
  analyzer.templates.foldl
    (fun found template =>
      if isTried template found then found ++ byTemplate analyzer.lexicon template word
      else found) [] ++
    (analyzer.lexicon.homographs word .other).map (ofEntry word)

/-- Adds the combined tag, the violation and the features. -/
def complete (analysis : Analysis) : Analysis :=
  { analysis with
    combined := analysis.combinedTag
    ungrammatical := analysis.violation?.map Violation.message
    features := some analysis.derivedFeatures }

/-- The analyses of a word in the order in which they are found, each once. -/
def analyze (analyzer : Analyzer) (word : Text) : List Analysis :=
  ((analyzer.readings word).map complete).eraseDups

/-- A piece of a word as a morpheme: prefixes and suffixes carry a dash. -/
def morpheme (capture : Capture) : Text :=
  match capture.role with
  | .verbPrefix => capture.text ++ "-"
  | .headword => capture.text
  | .suffix _ _ => "-" ++ capture.text

/-- The ways in which the templates divide a word, as a set in increasing order. -/
def morphemes (analyzer : Analyzer) (word : Text) : List (List Text) :=
  Ordered.ofList <| analyzer.templates.filterMap fun template =>
    (euphonicCaptures? template word).map (·.map morpheme)

end Analyzer

end Klingon
