import ManagedHost.Number.Binary64
import ManagedHost.Toml.Entries
import ManagedHost.Toml.Moment

/-!
# TOML values
-/

namespace ManagedHost

namespace Toml

/-- A value of a TOML document. -/
inductive Value where
  | text (s : String)
  | integer (n : Int)
  | float (x : Binary64)
  | boolean (b : Bool)
  | moment (m : Moment)
  /-- A number out of the range of its kind, as it is written. -/
  | excess (written : String)
  | array (items : List Value)
  | table (entries : List (String × Value))

instance : Inhabited Value := ⟨.table []⟩

/-- The entries of a table. -/
abbrev Table := Entries Value

mutual

/-- A value laid over another: two tables are joined entry by entry, and else the upper value
stays. -/
def Value.over : Value → Option Value → Value
  | .table upper, some (.table lower) => .table (overlay upper lower)
  | upper, _ => upper

/-- Lay the entries of `upper` over a table, one after the other. -/
def overlay : List (String × Value) → Table → Table
  | [], lower => lower
  | (key, value) :: rest, lower =>
    overlay rest (Entries.put key (value.over (Entries.get? key lower)) lower)

end

mutual

/-- Whether every number in the value is in the range of its kind. -/
def Value.isBounded : Value → Bool
  | .excess _ => false
  | .array items => areBounded items
  | .table entries => areBoundedEntries entries
  | _ => true

/-- Whether every number in the values is in range. -/
def areBounded : List Value → Bool
  | [] => true
  | v :: rest => v.isBounded && areBounded rest

/-- Whether every number in the entries is in range. -/
def areBoundedEntries : List (String × Value) → Bool
  | [] => true
  | (_, v) :: rest => v.isBounded && areBoundedEntries rest

end

/-! ### Layers

Where a document is one layer of several, its values are held to stricter rules: integers have 64
bits with a sign, and a table may stand for a moment, if its first key in alphabetical order is
`momentKey`. -/

/-- The key of the text in a table that stands for a moment. -/
def momentKey : String := "$__toml_private_datetime"

/-- The value that tells the moment, if entries stand for one. -/
def momentEntry? (entries : Table) : Option Value :=
  if entries.all fun (key, _) => momentKey ≤ key then Entries.get? momentKey entries else none

/-- The moment that a text tells. -/
def momentOfText? : Value → Option Value
  | .text s => (Moment.ofChars? s.toList).map .moment
  | _ => none

mutual

/-- The value as it stands in a layer. -/
def Value.layered? : Value → Option Value
  | .integer n => if -Int.pow 2 63 ≤ n ∧ n < Int.pow 2 63 then some (.integer n) else none
  | .excess _ => none
  | .array items => (layeredItems? items).map .array
  | .table entries =>
    match momentEntry? entries with
    | some v => momentOfText? v
    | none => (layeredEntries? entries).map .table
  | v => some v

/-- The values as they stand in a layer. -/
def layeredItems? : List Value → Option (List Value)
  | [] => some []
  | v :: rest => v.layered?.bind fun v => (layeredItems? rest).map (v :: ·)

/-- The entries as they stand in a layer. -/
def layeredEntries? : List (String × Value) → Option (List (String × Value))
  | [] => some []
  | (key, v) :: rest => v.layered?.bind fun v => (layeredEntries? rest).map ((key, v) :: ·)

end

end Toml

end ManagedHost
