import Klingon.Session
import Klingon.Tool.Surroundings

/-!
# Finding the dictionary

A dictionary is looked for in the place that an option names, in that of a variable, in the data
directory of the user and in the working directory, in this order. A place is the file itself or
the directory that holds it.
-/

namespace Klingon.Dictionary

def fileName : Text := "qawHaq.json"

/-- The variable that names the dictionary or its directory. -/
def placeVariable : Text := "YAJWIZ_DICT_PATH"

/-- A name inside a directory. -/
def inside (directory name : Text) : Text :=
  if directory = [] then name
  else if directory.getLast? = some '/' then directory ++ name
  else directory ++ "/" ++ name

variable {m : Type → Type} [Monad m]

/-- The directory for data of the user. -/
def dataDirectory? (s : Surroundings m) : m (Option Text) := do
  match ← s.setting? "XDG_DATA_HOME" with
  | some (c :: path) => return some (c :: path)
  | _ => return (← s.setting? "HOME").map fun home => inside (inside home ".local") "share"

/-- The places in which the dictionary is looked for. -/
def places (s : Surroundings m) (chosen : Option Text) : m (List Text) := do
  let named ← s.setting? placeVariable
  let data ← dataDirectory? s
  let current ← s.workingDirectory?
  return chosen.toList ++ named.toList ++ (data.map (inside · "yajwiz")).toList ++ current.toList

/-- The first dictionary in the given places. -/
def find? (s : Surroundings m) : List Text → m (Option Text)
  | [] => return none
  | place :: rest => do
    if ← s.isFile place then return some place
    let file := inside place fileName
    if ← s.isFile file then return some file
    find? s rest

/-- The message when no place holds a dictionary. -/
def notFound (tried : List Text) : Text :=
  "no " ++ fileName ++ " found; tried:\n" ++
    List.intercalate "\n" (tried.map ("  - ".toList ++ ·))

/-- A session on the dictionary that is found first. -/
def openSession (s : Surroundings m) (chosen : Option Text) : ExceptT Text m Session := do
  let tried ← ExceptT.lift (places s chosen)
  match ← ExceptT.lift (find? s tried) with
  | none => throw (notFound tried)
  | some file =>
    match Lexicon.ofExport? (← s.demand file) with
    | some lexicon => return Session.ofLexicon lexicon
    | none => throw ("failed to load " ++ file ++ ": failed to parse dictionary")

/-- Takes the option that names the dictionary. -/
def takeChoice (args : List Text) : ExceptT Text m (Option Text × List Text) :=
  Surroundings.extractOption "-d" "--dict-path" args

end Klingon.Dictionary
