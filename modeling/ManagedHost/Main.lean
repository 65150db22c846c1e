import ManagedHost.Command.Run

/-!
# The program
-/

open ManagedHost

/-- Read a file; a directory is there and cannot be read. -/
def readContent (name : String) : IO FileContent := do
  try
    return .ofBytes (← IO.FS.readBinFile name)
  catch
    | .noFileOrDirectory .. => return .missing
    | _ => return .unreadable

/-- The variables that matter, as far as they are set. -/
def readVariables : IO (List (String × String)) := do
  let names := Variable.all.map Variable.name ++ ["XDG_CONFIG_HOME", "HOME", "APPDATA"]
  let found ← names.mapM fun name => return (name, ← IO.getEnv name)
  return found.filterMap fun (name, value) => value.map (name, ·)

/-- Answer the arguments in the surroundings of the process. -/
def main (args : List String) : IO UInt32 := do
  let found ← readVariables
  let env : Environment := fun name => found.lookup name
  let files ← (settingsFiles env).mapM fun name => return (name, ← readContent name)
  let outcome := runProgram { env, file := fun name => (files.lookup name).getD .missing } args
  IO.print outcome.stdout
  IO.eprint outcome.stderr
  return outcome.exit.toUInt32
