import ManagedHost.Command.Help
import ManagedHost.Log.Level
import ManagedHost.Number.Numeral

/-!
# Requests on the command line

The arguments are read from left to right, and the first that decides the outcome wins: a mistake, a
question for help or for the version.  Options of the whole program stand before the command,
options of a command after it.  A value follows its option as the next argument, unless that starts
with a hyphen, or in the same argument after an equals sign.
-/

namespace ManagedHost

/-- What the program is asked to do. -/
inductive Command where
  /-- Show the settings. -/
  | settings
  /-- Fill a heap, collect it once and report. -/
  | heap (objects size rooted : Nat)
  /-- Run a task after each delay, in milliseconds. -/
  | schedule (delays : List Nat)
  /-- Show name and version. -/
  | version
deriving DecidableEq, Inhabited

/-- What a list of arguments asks for. -/
inductive Request where
  | run (level : Option LogLevel) (command : Command)
  | showVersion
  | showHelp (topic : Topic)
  | misuse
deriving DecidableEq, Inhabited

namespace Request

/-- The name and the attached value of an argument `--name` or `--name=value`. -/
def longOption? (arg : String) : Option (String × Option String) :=
  match arg.toList with
  | '-' :: '-' :: name =>
    let value := match name.dropWhile (· != '=') with
      | _ :: value => some (String.ofList value)
      | [] => none
    some (String.ofList (name.takeWhile (· != '=')), value)
  | _ => none

/-- Whether the argument starts with a hyphen. -/
def isHyphenated (arg : String) : Bool := arg.toList.head? = some '-'

/-- Whether the argument asks for help. -/
def asksHelp (arg : String) : Bool := arg = "--help" || arg.toList.take 2 = ['-', 'h']

/-! ### Options of the heap command -/

/-- The options given so far. -/
structure HeapOptions where
  objects : Option Nat := none
  size : Option Nat := none
  rooted : Option Nat := none
deriving DecidableEq, Inhabited

/-- Set an option that is not set yet. -/
def HeapOptions.set? (o : HeapOptions) (name value : String) : Option HeapOptions :=
  match name, o.objects, o.size, o.rooted, wordOfText? value with
  | "objects", none, _, _, some n => some { o with objects := some n }
  | "size", _, none, _, some n => some { o with size := some n }
  | "rooted", _, _, none, some n => some { o with rooted := some n }
  | _, _, _, _, _ => none

/-- The command for the options, with 1000 objects of 64 bytes and ten of them rooted by default. -/
def HeapOptions.command (o : HeapOptions) : Command :=
  .heap (o.objects.getD 1000) (o.size.getD 64) (o.rooted.getD 10)

/-- Read the options of the heap command. -/
def heap (level : Option LogLevel) : HeapOptions → List String → Request
  | o, [] => .run level o.command
  | o, arg :: rest =>
    if asksHelp arg then .showHelp .heap
    else if arg = "--" then if rest.isEmpty then .run level o.command else .misuse
    else
      match longOption? arg, rest with
      | some (name, some value), rest =>
        match o.set? name value with
        | some o => heap level o rest
        | none => .misuse
      | some (name, none), value :: rest =>
        if isHyphenated value then .misuse
        else
          match o.set? name value with
          | some o => heap level o rest
          | none => .misuse
      | _, _ => .misuse

/-! ### Delays -/

/-- The schedule command, with delays of 30, 10 and 20 by default. -/
def scheduleCommand (delays : List Nat) : Command :=
  .schedule (if delays.isEmpty then [30, 10, 20] else delays)

/-- Read the delays that follow `done`; after `--` no argument is an option. -/
def schedule (level : Option LogLevel) : List Nat → List String → Request
  | done, [] => .run level (scheduleCommand done)
  | done, arg :: rest =>
    if asksHelp arg then .showHelp .schedule
    else if arg = "--" then
      match rest.mapM wordOfText? with
      | some delays => .run level (scheduleCommand (done ++ delays))
      | none => .misuse
    else
      match wordOfText? arg with
      | some n => schedule level (done ++ [n]) rest
      | none => .misuse

/-! ### The whole line -/

/-- Read the arguments of a command that takes none. -/
def bare (level : Option LogLevel) (command : Command) (topic : Topic) : List String → Request
  | [] => .run level command
  | arg :: rest =>
    if asksHelp arg then .showHelp topic
    else if arg = "--" && rest.isEmpty then .run level command
    else .misuse

/-- Read the name of a command about which help is asked for. -/
def help : List String → Request
  | [] => .showHelp .program
  | [name] =>
    match Topic.ofName? name with
    | some topic => .showHelp topic
    | none => .misuse
  | _ => .misuse

/-- Read a command and its arguments. -/
def command (level : Option LogLevel) (name : String) (args : List String) : Request :=
  match Topic.ofName? name with
  | some .settings => bare level .settings .settings args
  | some .heap => heap level {} args
  | some .schedule => schedule level [] args
  | some .version => bare level .version .version args
  | some .help => help args
  | _ => .misuse

/-- Read a command, or a question for help or for the version. -/
def parseFrom (level : Option LogLevel) : List String → Request
  | [] => .misuse
  | arg :: rest =>
    if asksHelp arg then .showHelp .program
    else if arg = "--version" || arg.toList.take 2 = ['-', 'V'] then .showVersion
    else if isHyphenated arg then .misuse
    else command level arg rest

/-- The text of a log level that the arguments start with, and the arguments after it. -/
def levelOption? : List String → Option (String × List String)
  | [] => none
  | arg :: rest =>
    match longOption? arg, arg.toList, rest with
    | some ("log", some value), _, rest => some (value, rest)
    | some ("log", none), _, value :: rest =>
      if isHyphenated value then none else some (value, rest)
    | none, ['-', 'l'], value :: rest => if isHyphenated value then none else some (value, rest)
    | none, '-' :: 'l' :: '=' :: value, rest => some (String.ofList value, rest)
    | none, '-' :: 'l' :: c :: value, rest => some (String.ofList (c :: value), rest)
    | _, _, _ => none

/-- Read the arguments of the program.  A log level is given at most once. -/
def parse (args : List String) : Request :=
  match levelOption? args with
  | some (text, rest) =>
    match LogLevel.ofText? text with
    | some level => parseFrom (some level) rest
    | none => .misuse
  | none => parseFrom none args

end Request

end ManagedHost
