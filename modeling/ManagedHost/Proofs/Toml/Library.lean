import ManagedHost.Proofs.Toml.Sections
import ManagedHost.Toml.Library

/-!
# What is asked of a TOML library

Two things are asked of a library, each by itself.  A table that it reads has each key once
(`Library.HasUniqueKeys`).  And a document of plain sections that it prints, it reads back
(`Library.IsFaithful`): the sections and their keys, in whatever order, and each kind of value.
Together these give back what was printed, key by key (`Library.IsFaithful.holds`).  The standard
library does both.
-/

namespace ManagedHost

namespace Toml

namespace Entries

variable {α : Type} {key : String} {value : α} {entries : Entries α}

/-- A key that is there once has the value that stands with it. -/
theorem get?_of_mem (nodup : entries.keys.Nodup) (h : (key, value) ∈ entries) :
    get? key entries = some value := by
  induction entries with
  | nil => cases h
  | cons entry rest ih =>
    obtain ⟨k, v⟩ := entry
    obtain ⟨hk, hrest⟩ := List.nodup_cons.mp nodup
    rw [get?]
    rcases List.mem_cons.mp h with heq | hmem
    · cases heq
      exact if_pos rfl
    · have hlater : key ∈ keys rest := List.mem_map_of_mem (f := Prod.fst) hmem
      rw [if_neg (ne_of_mem_of_not_mem hlater hk).symm]
      exact ih hrest hmem

/-- A key that is there has a value. -/
theorem exists_mem_of_mem_keys (h : key ∈ entries.keys) : ∃ value, (key, value) ∈ entries := by
  obtain ⟨⟨k, v⟩, hmem, rfl⟩ := List.mem_map.mp h
  exact ⟨v, hmem⟩

end Entries

/-- A document of sections with bare names, each there once, and plain tables. -/
structure IsDocument (parts : List (String × Table)) : Prop where
  nodup : (Entries.keys parts).Nodup
  bare : ∀ part ∈ parts, IsBare part.1
  plain : ∀ part ∈ parts, IsPlainTable part.2

/-- The table has the sections and nothing else, and finds under each key what they have there. -/
structure Holds (t : Table) (parts : List (String × Table)) : Prop where
  names : Entries.keys t ⊆ Entries.keys parts
  sections : ∀ part ∈ parts, ∃ entries, Entries.get? part.1 t = some (.table entries)
    ∧ Entries.keys entries ⊆ Entries.keys part.2
    ∧ ∀ key, Entries.get? key entries = Entries.get? key part.2

namespace Library

variable (lib : Library)

/-- No table in a layer that the library reads has a key twice. -/
def HasUniqueKeys : Prop :=
  ∀ text t, lib.readLayer text = some t → Entries.IsSound Value.IsTidy t

/-- The library prints the document, and from what it printed it reads the table. -/
structure Returns (parts : List (String × Table)) (t : Table) : Prop where
  document : IsDocument parts
  exists_text : ∃ text, lib.print parts = .ok text ∧ lib.read text = some t

/-- Wherever the value stands in a document, it stands in what is read back. -/
def Keeps (v : Value) : Prop :=
  ∀ parts t, lib.Returns parts t → ∀ part ∈ parts, ∀ key, (key, v) ∈ part.2 →
    ∀ entries, Entries.get? part.1 t = some (.table entries) → Entries.get? key entries = some v

/-- The library reads what it prints. -/
structure IsFaithful : Prop where
  /-- Every document can be printed. -/
  prints : ∀ parts, IsDocument parts → ∃ text, lib.print parts = .ok text
  /-- A printed document is TOML. -/
  reads : ∀ parts text, IsDocument parts → lib.print parts = .ok text →
    ∃ t, lib.read text = some t
  /-- The sections come back as tables of the same names, and each with the same keys. -/
  sections : ∀ parts t, lib.Returns parts t →
    (∀ name, name ∈ Entries.keys t ↔ name ∈ Entries.keys parts)
    ∧ ∀ part ∈ parts, ∃ entries, Entries.get? part.1 t = some (.table entries)
      ∧ ∀ key, key ∈ Entries.keys entries ↔ key ∈ Entries.keys part.2
  /-- Texts come back, whatever characters they have. -/
  texts : ∀ s, lib.Keeps (.text s)
  /-- Whole numbers in TOML's range come back. -/
  integers : ∀ n, 0 ≤ n → n < 2 ^ 63 → lib.Keeps (.integer n)
  /-- Finite floats come back, to the bit. -/
  floats : ∀ x, x.code < Binary64.infinityCode → lib.Keeps (.float x)
  booleans : ∀ b, lib.Keeps (.boolean b)

namespace IsFaithful

variable {lib} {parts : List (String × Table)} {t : Table}

/-- Every plain value comes back. -/
theorem keeps (h : lib.IsFaithful) {v : Value} (hv : v.IsPlain) : lib.Keeps v := by
  cases v with
  | text s => exact h.texts s
  | integer n => exact h.integers n hv.1 hv.2
  | float x => exact h.floats x hv
  | boolean b => exact h.booleans b
  | _ => exact hv.elim

/-- A document comes back. -/
theorem exists_returns (h : lib.IsFaithful) (hparts : IsDocument parts) :
    ∃ text t, lib.print parts = .ok text ∧ lib.read text = some t ∧ lib.Returns parts t := by
  obtain ⟨text, hprint⟩ := h.prints parts hparts
  obtain ⟨t, hread⟩ := h.reads parts text hparts hprint
  exact ⟨text, t, hprint, hread, hparts, text, hprint, hread⟩

/-- **What comes back** holds the sections: a key that they have has its value there, and a key that
they do not have is not there either. -/
theorem holds (h : lib.IsFaithful) (hreturns : lib.Returns parts t) : Holds t parts := by
  obtain ⟨hnames, hsections⟩ := h.sections parts t hreturns
  refine ⟨fun name => (hnames name).mp, fun part hpart => ?_⟩
  obtain ⟨entries, hentries, hkeys⟩ := hsections part hpart
  refine ⟨entries, hentries, fun key => (hkeys key).mp, fun key => ?_⟩
  have hplain := hreturns.document.plain part hpart
  by_cases hkey : key ∈ Entries.keys part.2
  · obtain ⟨v, hv⟩ := Entries.exists_mem_of_mem_keys hkey
    have hkeeps := h.keeps (hplain.plain _ hv)
    rw [Entries.get?_of_mem hplain.nodup hv]
    exact hkeeps parts t hreturns part hpart key hv entries hentries
  · rw [Entries.get?_eq_none.mpr hkey, Entries.get?_eq_none.mpr ((hkeys key).not.mpr hkey)]

end IsFaithful

/-! ### The standard library -/

theorem standard_hasUniqueKeys : standard.HasUniqueKeys := by
  intro text t h
  obtain ⟨document, hdocument, hlayered⟩ := Option.bind_eq_some_iff.mp h
  exact layeredEntries?_isSound (readDocument_isSound hdocument) hlayered

section Standard

variable {parts : List (String × Table)} {t : Table}

/-- A printed document is read back as its sections, in their order. -/
theorem read_standard (h : IsDocument parts) :
    standard.read (printSections parts) = some (parts.map fun part => (part.1, .table part.2)) :=
  readDocument_printSections h.nodup fun part hpart => ⟨h.bare part hpart, h.plain part hpart⟩

theorem Returns.eq_sections (h : standard.Returns parts t) :
    t = parts.map fun part => (part.1, .table part.2) := by
  obtain ⟨text, hprint, hread⟩ := h.exists_text
  cases hprint
  exact Option.some.inj (hread.symm.trans (read_standard h.document))

/-- A section that is read back is the section that was printed. -/
theorem Returns.get?_section (h : standard.Returns parts t) :
    ∀ part ∈ parts, Entries.get? part.1 t = some (.table part.2) := by
  obtain rfl := h.eq_sections
  have hkeys : Entries.keys (parts.map fun part => (part.1, Value.table part.2))
      = Entries.keys parts := List.map_map
  exact fun part hpart => Entries.get?_of_mem (hkeys ▸ h.document.nodup)
    (List.mem_map_of_mem (f := fun part : String × Table => (part.1, Value.table part.2)) hpart)

theorem standard_keeps (v : Value) : standard.Keeps v := by
  intro parts t h part hpart key hv entries hentries
  rw [h.get?_section part hpart] at hentries
  cases hentries
  exact Entries.get?_of_mem (h.document.plain part hpart).nodup hv

end Standard

theorem standard_isFaithful : standard.IsFaithful where
  prints parts _ := ⟨printSections parts, rfl⟩
  reads parts text hparts hprint := by
    cases hprint
    exact ⟨_, read_standard hparts⟩
  sections parts t h := by
    refine ⟨fun name => ?_, fun part hpart => ⟨part.2, h.get?_section part hpart, fun _ => Iff.rfl⟩⟩
    rw [h.eq_sections, Entries.keys, List.map_map]
    exact Iff.rfl
  texts s := standard_keeps (.text s)
  integers n _ _ := standard_keeps (.integer n)
  floats x _ := standard_keeps (.float x)
  booleans b := standard_keeps (.boolean b)

end Library

end Toml

end ManagedHost
