import Klingon.Text

/-!
# Command-line arguments

An option with a value is written as its long name, an equals sign and the value, or as one of its
names with the value in the next argument. A flag is one of its names. What does not begin with a
dash, and a dash alone, is an operand.
-/

namespace Klingon.Arguments

/-- The value of an option that stands in the same argument. -/
def inlineValue? (long arg : Text) : Option Text :=
  Text.dropStart? (long ++ "=") arg

/-- Takes an option out of the arguments; of several values the last counts, and `value` is the one
found so far. An option at the end without its value is an error. -/
def extractFrom (short long : Text) (value : Option Text) :
    List Text → Except Text (Option Text × List Text)
  | [] => .ok (value, [])
  | arg :: rest =>
    match inlineValue? long arg with
    | some found => extractFrom short long (some found) rest
    | none =>
      if arg = long || arg = short then
        match rest with
        | [] => .error arg
        | found :: more => extractFrom short long (some found) more
      else do
        let (found, others) ← extractFrom short long value rest
        return (found, arg :: others)

/-- The value of an option and the arguments that are left, or the option that lacks its value. -/
def extractOption (short long : Text) (args : List Text) : Except Text (Option Text × List Text) :=
  extractFrom short long none args

def isGiven (short long : Text) (args : List Text) : Bool :=
  args.any fun arg => arg = short || arg = long

def asksForHelp (args : List Text) : Bool :=
  isGiven "-h" "--help" args

def isOperand (arg : Text) : Bool :=
  arg = "-" || arg.head? ≠ some '-'

def operands (args : List Text) : List Text :=
  args.filter isOperand

end Klingon.Arguments
