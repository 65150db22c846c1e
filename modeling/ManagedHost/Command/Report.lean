/-!
# Reports

A report is a tree of named numbers.  It is printed as JSON, one entry on a line, with two spaces
for each level.
-/

namespace ManagedHost

/-- A report. -/
inductive Report where
  | count (n : Nat)
  /-- Nothing to tell. -/
  | nothing
  | record (fields : List (String × Report))

namespace Report

instance : Inhabited Report := ⟨.nothing⟩

/-- The spaces before an entry at the given level. -/
def indent (level : Nat) : String := String.ofList (List.replicate (2 * level) ' ')

mutual

/-- The text of a report whose entries stand at the given level. -/
def printAt (level : Nat) : Report → String
  | .count n => toString n
  | .nothing => "null"
  | .record [] => "\x7b\x7d"
  | .record fields => "\x7b\n" ++ printFields level fields ++ "\n" ++ indent (level - 1) ++ "\x7d"

/-- The lines of entries at the given level. -/
def printFields (level : Nat) : List (String × Report) → String
  | [] => ""
  | [(name, r)] => indent level ++ "\"" ++ name ++ "\": " ++ printAt (level + 1) r
  | (name, r) :: rest =>
    indent level ++ "\"" ++ name ++ "\": " ++ printAt (level + 1) r ++ ",\n"
      ++ printFields level rest

end

/-- The text of a report. -/
def print (r : Report) : String := printAt 1 r

end Report

end ManagedHost
