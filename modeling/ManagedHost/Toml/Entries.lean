/-!
# Entries by key

The entries of a table, in the order in which their keys came.  Every operation is described by what
`get?` gives afterwards.
-/

namespace ManagedHost

namespace Toml

/-- Values by key, each key at most once. -/
abbrev Entries (α : Type) := List (String × α)

namespace Entries

variable {α : Type}

/-- The value of a key. -/
def get? (key : String) : Entries α → Option α
  | [] => none
  | (k, v) :: rest => if k = key then some v else get? key rest

/-- Give a key a value, in its old place or as the last. -/
def put (key : String) (value : α) : Entries α → Entries α
  | [] => [(key, value)]
  | (k, v) :: rest => if k = key then (k, value) :: rest else (k, v) :: put key value rest

/-- A key has the value that it was given last, and no other key changes. -/
theorem get?_put (key other : String) (value : α) (entries : Entries α) :
    get? other (put key value entries)
      = if key = other then some value else get? other entries := by
  induction entries with
  | nil => simp [put, get?]
  | cons entry rest ih =>
    obtain ⟨k, v⟩ := entry
    simp only [put]
    split <;> simp_all [get?]
    grind

end Entries

end Toml

end ManagedHost
