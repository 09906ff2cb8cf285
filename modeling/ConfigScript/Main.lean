import ConfigScript.Command

set_option autoImplicit false

/-!
# The program

Reads the file and the environment variables that a command line asks for, and prints the answer.
-/

namespace ConfigScript.Program

def fileState (name : String) : IO FileState := do
  try
    return .contents (← IO.FS.readBinFile name)
  catch error =>
    match error with
    | .noFileOrDirectory .. => return .missing
    | .inappropriateType .. => return .directory
    | error => return .unreadable (toString error)

def options : IO Options := do
  let chunkName ← IO.getEnv "LUACONF_CHUNK_NAME"
  let maxDepth ← IO.getEnv "LUACONF_MAX_DEPTH"
  let strictIntegers ← IO.getEnv "LUACONF_STRICT_INTEGERS"
  return .ofEnvironment fun name =>
    if name = "LUACONF_CHUNK_NAME" then chunkName
    else if name = "LUACONF_MAX_DEPTH" then maxDepth
    else if name = "LUACONF_STRICT_INTEGERS" then strictIntegers
    else none

def failWith (error : Error) : IO UInt32 := do
  IO.eprint (Command.failureText error)
  return 1

partial def printEvents (walker : Walker) : IO UInt32 :=
  match walker.next? with
  | none => return 0
  | some (.ok (event, path), rest) => do
    IO.println (Command.eventLine event path)
    printEvents rest
  | some (.error invalid, _) => failWith (.invalidStream invalid.path invalid.fault)

def answer (command : Command) : IO UInt32 := do
  match command.load (← options) (← fileState command.file) with
  | .error error => failWith error
  | .ok document =>
    match command.report with
    | .events => printEvents document.walker
    | .json =>
      match document.read? .json with
      | some (.ok (.json value)) =>
        IO.println value.pretty
        return 0
      | some (.error error) => failWith error
      | _ => return 1

end ConfigScript.Program

def main (words : List String) : IO UInt32 := do
  match ConfigScript.Command.read? words with
  | some command => ConfigScript.Program.answer command
  | none =>
    IO.eprintln "usage: (events | json) FILE [-t | --tag NAME]..."
    return 2
