import Klingon.Tool.Surroundings

/-!
# Directories in memory

A directory with its files, as the surroundings of a tool. Names of files are paths below the
directory. Outside it nothing is known but that there are directories, the root among them; other
paths lead nowhere. Names with a slash at the end and steps through a file find a file where a
directory is needed. Names and paths have a greatest length, which counts bytes.
-/

namespace Klingon

/-- A directory by its full name and the paths and contents of its files. -/
structure Directory where
  name : Text
  files : List (Text × Text)
  deriving DecidableEq, Repr

namespace Directory

/-- What a path leads to. -/
inductive Target where
  | file (content : Text)
  | directory
  | missing
  | throughFile
  | tooLong
  deriving DecidableEq, Repr

def file? (d : Directory) (steps : List Text) : Option Text :=
  d.files.lookup (List.intercalate "/" steps)

/-- Whether some file lies below the steps. -/
def isDirectory (d : Directory) (steps : List Text) : Bool :=
  let start : Text := List.intercalate "/" steps ++ "/"
  steps = [] || d.files.any fun f => (Text.dropStart? start f.1).isSome

/-- Whether a step names no entry of a directory. -/
def isRelative (step : Text) : Bool :=
  step = [] || step = "." || step = ".."

/-- The greatest length of a name. -/
def nameLimit : Nat := 255

/-- The greatest length of a path. -/
def pathLimit : Nat := 4095

/-- Follows steps outside the directory. -/
def followOutside : List Text → Target
  | [] => .directory
  | step :: rest =>
    if isRelative step then followOutside rest
    else if nameLimit < Text.byteLength step then .tooLong
    else .missing

/-- Follows the steps of a path from a directory, which is given by the steps to it. An empty step
and a dot stay where they are, and two dots go back. -/
def follow (d : Directory) (here : List Text) : List Text → Target
  | [] => .directory
  | step :: rest =>
    if step = [] || step = "." then follow d here rest
    else if step = ".." then
      if here = [] then followOutside rest else follow d here.dropLast rest
    else if nameLimit < Text.byteLength step then .tooLong
    else
      let there := here ++ [step]
      if d.isDirectory there then follow d there rest
      else
        match d.file? there with
        | some content => if rest = [] then .file content else .throughFile
        | none => .missing

/-- The part of a path below the directory. -/
def below? (d : Directory) (path : Text) : Option Text :=
  if path = d.name then some []
  else
    match Text.dropStart? (d.name ++ "/") path with
    | some rest => some rest
    | none => if path.head? = some '/' then none else some path

def target (d : Directory) (path : Text) : Target :=
  if path = [] then .missing
  else if pathLimit < Text.byteLength path then .tooLong
  else
    match d.below? path with
    | some rest => d.follow [] (rest.splitOn '/')
    | none => followOutside (path.splitOn '/')

def isFile (d : Directory) (path : Text) : Bool :=
  match d.target path with
  | .file _ => true
  | _ => false

def read (d : Directory) (path : Text) : Except ReadFault Text :=
  match d.target path with
  | .file content => .ok content
  | .directory => .error .isADirectory
  | .missing => .error .notFound
  | .throughFile => .error .notADirectory
  | .tooLong => .error .nameTooLong

/-- The surroundings of a tool that runs in the directory. -/
def surroundings (d : Directory) (settings : List (Text × Text)) (input : Text) :
    Surroundings Id where
  setting? name := settings.lookup name
  workingDirectory? := some d.name
  isFile path := d.isFile path
  read path := d.read path
  input := .ok input

end Directory

end Klingon
