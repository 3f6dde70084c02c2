import Klingon.Tool

/-!
# The command line

The first argument names the tool, the others are passed on to it. The tool sees the variables, the
files and the input of the process.
-/

namespace Klingon

/-- The text that some bytes spell. -/
def decoded (content : ByteArray) : Except ReadFault Text :=
  match String.fromUTF8? content with
  | some text => .ok text.toList
  | none => .error .notText

/-- Why the system could not read a file. -/
def readFaultOf : IO.Error → ReadFault
  | .noFileOrDirectory .. | .noSuchThing .. => .notFound
  | .inappropriateType _ code _ => if code = 21 then .isADirectory else .notADirectory
  | .invalidArgument .. => .nameTooLong
  | fault => .other (toString fault)

def readFile (path : Text) : IO (Except ReadFault Text) := do
  try
    return decoded (← IO.FS.readBinFile (String.ofList path))
  catch fault =>
    return .error (readFaultOf fault)

/-- The surroundings of the process. -/
def processSurroundings : Surroundings IO where
  setting? name := return (← IO.getEnv (String.ofList name)).map String.toList
  workingDirectory? := do
    try
      return some (← IO.currentDir).toString.toList
    catch _ =>
      return none
  isFile path := return (← readFile path).isOk
  read := readFile
  input := do
    try
      return .ok (← (← IO.getStdin).readToEnd).toList
    catch _ =>
      return .error .notText

def usage : Text :=
  "the first argument names the tool: " ++
    List.intercalate ", " (Tool.all.map Tool.name)

/-- Runs the tool that the arguments name. -/
def runNamed (args : List Text) : IO Outcome := do
  match args with
  | [] => return .fatal usage
  | name :: rest =>
    match Tool.ofName? name with
    | some tool => tool.run processSurroundings rest
    | none => return .fatal usage

end Klingon

def main (args : List String) : IO UInt32 := do
  let outcome ← Klingon.runNamed (args.map String.toList)
  (← IO.getStdout).putStr (String.ofList outcome.output)
  (← IO.getStderr).putStr (String.ofList outcome.errors)
  return outcome.code.toUInt32
