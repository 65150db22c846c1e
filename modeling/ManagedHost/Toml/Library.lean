import ManagedHost.Toml.Printer

/-!
# TOML libraries

Settings are read and printed by a library for TOML.  What is done with its tables does not depend
on which library it is, so it is a parameter.
-/

namespace ManagedHost

namespace Toml

/-- A library for TOML. -/
structure Library where
  /-- The table that a document describes. -/
  read : String → Option Table
  /-- The same for a document that is one layer of several. -/
  readLayer : String → Option Table
  /-- A document with the given sections, or why there is none. -/
  print : List (String × Table) → Except String String

/-- The library that works as described here. -/
def Library.standard : Library where
  read := readDocument
  readLayer text := (readDocument text).bind layeredEntries?
  print parts := .ok (printSections parts)

end Toml

end ManagedHost
