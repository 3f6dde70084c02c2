import Klingon.Tool.Arguments

/-!
# The surroundings of a tool

What a tool sees of the system it runs on: variables, files and its input. The effects of looking
are a parameter, so that a tool can run on a disk or on files held in memory. A tool ends with what
it wrote, or with one fatal message.
-/

namespace Klingon

/-- Why something could not be read. -/
inductive ReadFault where
  | notFound
  | notADirectory
  | isADirectory
  | nameTooLong
  | notText
  | other (description : Text)
  deriving DecidableEq, Repr

def ReadFault.message : ReadFault → Text
  | notFound => "No such file or directory (os error 2)"
  | notADirectory => "Not a directory (os error 20)"
  | isADirectory => "Is a directory (os error 21)"
  | nameTooLong => "File name too long (os error 36)"
  | notText => "stream did not contain valid UTF-8"
  | other description => description

structure Surroundings (m : Type → Type) where
  setting? : Text → m (Option Text)
  /-- The full name of the directory the tool runs in. -/
  workingDirectory? : m (Option Text)
  isFile : Text → m Bool
  read : Text → m (Except ReadFault Text)
  input : m (Except ReadFault Text)

/-- What a tool leaves behind. -/
structure Outcome where
  code : Nat := 0
  output : Text := []
  errors : Text := []
  deriving DecidableEq, Repr

namespace Outcome

/-- The end of a tool that met a fatal error before it wrote anything. -/
def fatal (message : Text) : Outcome where
  code := 1
  errors := "error: " ++ message ++ "\n"

def ofResult : Except Text Outcome → Outcome
  | .ok outcome => outcome
  | .error message => fatal message

end Outcome

/-- Each line with the line feed that ends it. -/
def endLines (lines : List Text) : Text :=
  lines.flatMap (· ++ ['\n'])

namespace Surroundings

variable {m : Type → Type} [Monad m]

/-- A file that the tool cannot do without. -/
def demand (s : Surroundings m) (path : Text) : ExceptT Text m Text := do
  match ← s.read path with
  | .ok content => return content
  | .error fault => throw ("failed to read " ++ path ++ ": " ++ fault.message)

/-- The input of a tool that cannot do without. -/
def demandInput (s : Surroundings m) : ExceptT Text m Text := do
  match ← s.input with
  | .ok content => return content
  | .error fault => throw ("failed to read stdin: " ++ fault.message)

/-- Takes an option; a missing value is fatal. -/
def extractOption (short long : Text) (args : List Text) :
    ExceptT Text m (Option Text × List Text) :=
  match Arguments.extractOption short long args with
  | .ok found => return found
  | .error arg => throw (arg ++ " requires a value")

end Surroundings

end Klingon
