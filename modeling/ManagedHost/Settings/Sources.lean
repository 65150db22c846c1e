import ManagedHost.Settings.Document
import ManagedHost.Number.Numeral

/-!
# Where settings come from

Settings are layered: defaults, then files from the lowest priority to the highest, then variables
of the environment.
-/

namespace ManagedHost

/-- The variables that are set. -/
abbrev Environment := String → Option String

/-! ### Variables -/

/-- A variable that overrides a setting. -/
structure Variable where
  name : String
  /-- Set what the variable's value gives, if the value can be used. -/
  set? : String → Settings → Option Settings

namespace Variable

/-- A variable that gives a whole number of 64 bits. -/
def word (name : String) (set : Nat → Settings → Settings) : Variable where
  name := name
  set? value s := (wordOfText? (Text.trim value)).map (set · s)

/-- The variables in the order in which they are looked at. -/
def all : List Variable :=
  [{ name := "SKYRT_GC_GROWTH_RATIO"
     set? := fun value s => (Binary64.ofText? (Text.trim value)).map fun x =>
       { s with heap := { s.heap with growthRatio := x } } },
    word "SKYRT_GC_MAX_PAUSE_MS" fun n s => { s with heap := { s.heap with maxPauseMs := n } },
    word "SKYRT_GC_INITIAL_TRIGGER" fun n s =>
      { s with heap := { s.heap with initialTrigger := n } },
    word "SKYRT_GC_ARENA_SIZE" fun n s => { s with heap := { s.heap with arenaSize := n } },
    word "SKYRT_GC_MAX_HEAP" fun n s => { s with heap := { s.heap with maxHeapSize := n } },
    word "SKYRT_EVENT_LOOP_WORKERS" fun n s =>
      { s with loop := { s.loop with workers := some n } },
    word "SKYRT_SCHEDULER_WORKERS" fun n s =>
      { s with scheduler := { s.scheduler with workers := some n } },
    word "SKYRT_ARENA_BLOCK_SIZE" fun n s => { s with arena := { s.arena with blockSize := n } },
    { name := "SKYRT_LOG"
      set? := fun value s => (LogLevel.ofText? (Text.trim value)).map fun level =>
        { s with log := { level := level.name } } }]

end Variable

namespace Settings

/-- Let variables override settings, one after the other up to the first that cannot be used: the
settings then, and the error. -/
def overrideBy (env : Environment) : List Variable → Settings → Settings × Option SettingsError
  | [], s => (s, none)
  | v :: rest, s =>
    match env v.name with
    | none => overrideBy env rest s
    | some value =>
      match v.set? value s with
      | some s => overrideBy env rest s
      | none => (s, some (.badVariable v.name value))

/-- Let the variables of the environment override settings. -/
def override (env : Environment) (s : Settings) : Settings × Option SettingsError :=
  overrideBy env Variable.all s

end Settings

/-! ### Files -/

/-- What is found under the name of a file. -/
inductive FileContent where
  | missing
  /-- Something that cannot be read as text. -/
  | unreadable
  | text (s : String)
deriving DecidableEq, Inhabited

/-- The content of a file with the given bytes. -/
def FileContent.ofBytes (bytes : ByteArray) : FileContent :=
  match String.fromUTF8? bytes with
  | some s => .text s
  | none => .unreadable

/-- A file with settings. -/
structure SettingsFile where
  name : String
  content : FileContent
deriving DecidableEq, Inhabited

/-- The table in a file, as the library reads it; a missing file has none. -/
def SettingsFile.table? (lib : Toml.Library) (f : SettingsFile) :
    Except SettingsError (Option Toml.Table) :=
  match f.content with
  | .missing => .ok none
  | .unreadable => .error (.unreadable f.name)
  | .text s =>
    match lib.readLayer s with
    | some t => .ok (some t)
    | none => .error (.malformed f.name)

/-- Lay files over a table, the highest priority last. -/
def joinFiles (lib : Toml.Library) :
    List SettingsFile → Toml.Table → Except SettingsError Toml.Table
  | [], t => .ok t
  | f :: rest, t =>
    match f.table? lib with
    | .ok (some upper) => joinFiles lib rest (Toml.overlay upper t)
    | .ok none => joinFiles lib rest t
    | .error e => .error e

namespace Settings

/-- The valid settings that files, as the library reads them, and variables give; the files with the
highest priority last. -/
def resolveWith (lib : Toml.Library) (files : List SettingsFile) (env : Environment) :
    Except SettingsError Settings :=
  match joinFiles lib files [] with
  | .error e => .error e
  | .ok t =>
    match ofTable? .joined t with
    | none => .error (.malformed "<merged>")
    | some s =>
      match s.override env with
      | (_, some e) => .error e
      | (s, none) => s.checked

/-- The valid settings that files and variables give. -/
def resolve (files : List SettingsFile) (env : Environment) : Except SettingsError Settings :=
  resolveWith .standard files env

end Settings

/-! ### Places -/

/-- The name of the file with a project's settings. -/
def projectFile : String := "skyrt.toml"

/-- A name inside a directory. -/
def joinPath (directory name : String) : String :=
  if directory.isEmpty || directory.toList.getLast? = some '/' then directory ++ name
  else directory ++ "/" ++ name

/-- The directory of the user's settings. -/
def userDirectory? (env : Environment) : Option String :=
  match env "XDG_CONFIG_HOME", env "HOME", env "APPDATA" with
  | some xdg, _, _ => some (joinPath xdg "skyrt")
  | none, some home, _ => some (joinPath (joinPath home ".config") "skyrt")
  | none, none, some data => some (joinPath data "skyrt")
  | none, none, none => none

/-- The file with the user's settings. -/
def userFile? (env : Environment) : Option String :=
  (userDirectory? env).map (joinPath · "config.toml")

/-- The files with settings, the highest priority last. -/
def settingsFiles (env : Environment) : List String := (userFile? env).toList ++ [projectFile]

end ManagedHost
