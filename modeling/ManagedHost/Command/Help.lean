/-!
# Help

A help page says what a command is for, how it is called, and what may be given to it.  The rows of
a part have their texts aligned.
-/

namespace ManagedHost

/-- The name of the program. -/
def programName : String := "skyrt"

/-- What help can be asked about. -/
inductive Topic where
  | program
  | settings
  | heap
  | schedule
  | version
  | help
deriving DecidableEq, Inhabited

namespace Topic

/-- The name of the command that the topic is about. -/
def name : Topic → String
  | program => ""
  | settings => "config"
  | heap => "gc"
  | schedule => "sched"
  | version => "version"
  | help => "help"

/-- The topics about commands, in the order in which they are listed. -/
def commands : List Topic := [settings, heap, schedule, version, help]

/-- The command with the given name. -/
def ofName? (name : String) : Option Topic := commands.find? (·.name = name)

/-- What the command is for. -/
def purpose : Topic → String
  | program => programName
  | settings => "Print the effective runtime configuration as TOML"
  | heap => "Allocate objects, run one collection and print GC and optimizer statistics as JSON"
  | schedule => "Schedule tasks with the given delays and print the dispatch order"
  | version => "Print version information"
  | help => "Print this message or the help of the given subcommand(s)"

/-- How the command is called. -/
def call : Topic → String
  | program => "[OPTIONS] <COMMAND>"
  | settings => "config"
  | heap => "gc [OPTIONS]"
  | schedule => "sched [MS]..."
  | version => "version"
  | help => "help [COMMAND]..."

/-- The row about the question for help. -/
def helpRow : String × String := ("-h, --help", "Print help")

/-- What may be given to the command: the parts of its page, and their rows. -/
def parts : Topic → List (String × List (String × String))
  | program =>
    [("Commands", commands.map fun t => (t.name, t.purpose)),
      ("Options",
        [("-l, --log <LEVEL>",
            "Override the configured log level (trace, debug, info, warn, error)"),
          helpRow, ("-V, --version", "Print version")])]
  | heap =>
    [("Options",
        [("    --objects <OBJECTS>", "Number of objects to allocate [default: 1000]"),
          ("    --size <SIZE>", "Payload size of each object in bytes [default: 64]"),
          ("    --rooted <ROOTED>", "How many of the objects stay rooted [default: 10]"),
          helpRow])]
  | schedule =>
    [("Arguments",
        [("[MS]...", "Delays in milliseconds, one task per delay [default: 30 10 20]")]),
      ("Options", [helpRow])]
  | help => [("Arguments", [("[COMMAND]...", "Print help for the subcommand(s)")])]
  | settings | version => [("Options", [helpRow])]

/-- A part of a page, after a blank line. -/
def printPart (part : String × List (String × String)) : String :=
  let width := (part.2.map (·.1.length)).foldl max 0
  let row := fun (entry : String × String) =>
    "  " ++ entry.1.pushn ' ' (width - entry.1.length) ++ "  " ++ entry.2 ++ "\n"
  "\n" ++ part.1 ++ ":\n" ++ String.join (part.2.map row)

/-- The help page. -/
def page (t : Topic) : String :=
  t.purpose ++ "\n\nUsage: " ++ programName ++ " " ++ t.call ++ "\n"
    ++ String.join (t.parts.map printPart)

end Topic

end ManagedHost
