import DashCalc.Command.Run

/-!
# The program

Reads the files that a run may look at, runs it, and prints what comes of it.
-/

open DashCalc.Command

/-- What is at a path of the file system. -/
def readState (path : String) : IO FileState := do
  try return .bytes (← IO.FS.readBinFile path)
  catch
    | .noFileOrDirectory .. => return .missing
    | _ => return .directory

/-- What a run with these arguments can see. -/
def observe (wish : Option Wish) : IO World := do
  let configVariable ← IO.getEnv configVariableName
  let userConfig := userConfigPath (← IO.getEnv "XDG_CONFIG_HOME") (← IO.getEnv "HOME")
  let paths := match wish with
    | some (.run i) => World.paths configVariable userConfig i
    | _ => []
  let states ← paths.mapM fun path => do return (path, ← readState path)
  let file (path : String) : FileState := (states.lookup path).getD .missing
  return { file, configVariable, userConfig }

def main (arguments : List String) : IO UInt32 := do
  let wish := parse arguments
  let outcome := fulfil (← observe wish) wish
  IO.print outcome.output
  match outcome.complaint with
  | some complaint => IO.eprintln complaint.message
  | none => pure ()
  return outcome.code
