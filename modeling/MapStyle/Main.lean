import MapStyle.CommandLine.Run
import MapStyle.Number.Float

/-!
# The program

Reads the files that the command line names, writes what the run yields, and ends with its code.
-/

set_option autoImplicit false

namespace MapStyle

open CommandLine

def readFile (path : String) : IO File := do
  try
    return .text (← IO.FS.readFile path)
  catch
    | .noFileOrDirectory _ _ _ => return .unavailable notFound
    | .permissionDenied _ _ reason => return .unavailable reason
    | e => return .unreadable (toString e)

def readFiles (paths : List String) : IO (List (String × File)) :=
  paths.mapM fun path => do return (path, ← readFile path)

def finish (e : Exit) : IO UInt32 := do
  IO.print e.stdout
  IO.eprint e.stderr
  return e.code.toUInt32

def runProgram (args : List String) : IO UInt32 := do
  match (parse args : Except Exit (Invocation Float)) with
  | .error e => finish e
  | .ok i =>
    let files ← readFiles i.paths
    finish (i.run fun path => (files.lookup path).getD (.unavailable notFound))

end MapStyle

def main (args : List String) : IO UInt32 := MapStyle.runProgram args
