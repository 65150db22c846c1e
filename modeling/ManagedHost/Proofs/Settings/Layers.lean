import ManagedHost.Proofs.Toml.Library
import ManagedHost.Settings.Sources

/-!
# Laying files over each other

A field of a section is looked up twice, first the section, then the field, and so is it in tables
laid over each other: the upper table's value stays, and the lower table answers where the upper has
none (`defined?_overlay`).  Two tables in the same place are joined instead, but no setting is read
from a table, so for a reader that refuses tables the upper value counts there as well
(`decode_over`).  By induction over the files, what such a reader finds in the joined table is what
it finds in the last file that defines the field: `map_defined?_joinFiles`.  Of the library that
reads the files only one thing is used, that no table it reads has a key twice.
-/

namespace ManagedHost

open Toml (Value Table Entries overlay)

/-! ### One table over another -/

/-- Over nothing, a value stays. -/
@[simp]
theorem Toml.Value.over_none (v : Value) : v.over none = v := by
  unfold Value.over
  split
  · next h => cases h
  · rfl

/-- **A key in tables laid over each other.** -/
theorem Toml.get?_overlay {upper : Table} (nodup : (Entries.keys upper).Nodup) (key : String)
    (lower : Table) :
    Entries.get? key (overlay upper lower)
      = match Entries.get? key upper with
        | none => Entries.get? key lower
        | some v => some (v.over (Entries.get? key lower)) := by
  induction upper generalizing lower with
  | nil => rfl
  | cons entry rest ih =>
    obtain ⟨k, v⟩ := entry
    have hkeys : Entries.keys ((k, v) :: rest) = k :: Entries.keys rest := rfl
    rw [hkeys, List.nodup_cons] at nodup
    rw [overlay, ih nodup.2, Entries.get?_put, Entries.get?]
    by_cases hkey : k = key
    · subst hkey
      rw [if_pos rfl, if_pos rfl, Entries.get?_eq_none.mpr nodup.1]
    · rw [if_neg hkey, if_neg hkey]

/-- A reader that refuses tables reads the upper value. -/
theorem decode_over {α : Type} {decode : Value → Option α}
    (hdecode : ∀ entries, decode (.table entries) = none) (v : Value) (lower : Option Value) :
    decode (v.over lower) = decode v := by
  unfold Value.over
  split
  · rw [hdecode, hdecode]
  · rfl

/-- Whether the value is a table. -/
def Toml.Value.isTable : Value → Bool
  | .table _ => true
  | _ => false

theorem Toml.Value.exists_entries {v : Value} (h : v.isTable = true) :
    ∃ entries, v = .table entries := by
  cases v with
  | table entries => exact ⟨entries, rfl⟩
  | _ => cases h

/-! ### Sections -/

namespace Settings

/-- The entries of a section; none if the table has no such section. -/
def sectionOf (part : String) (t : Table) : Table :=
  match Entries.get? part t with
  | some (.table entries) => entries
  | _ => []

/-- The value that a table gives a field of a section. -/
def defined? (part name : String) (t : Table) : Option Value := Entries.get? name (sectionOf part t)

/-- The sections that the table has are tables themselves. -/
def HasTables (t : Table) : Prop := ∀ part ∈ parts, ∀ v ∈ Entries.get? part t, v.isTable = true

instance (t : Table) : Decidable (HasTables t) :=
  inferInstanceAs (Decidable (∀ part ∈ parts, ∀ v ∈ Entries.get? part t, v.isTable = true))

theorem hasTables_nil : HasTables [] := fun _ _ _ h => nomatch h

theorem HasTables.exists_entries {t : Table} {part : String} {v : Value} (h : HasTables t)
    (hpart : part ∈ parts) (hv : Entries.get? part t = some v) : ∃ entries, v = .table entries :=
  Toml.Value.exists_entries (h part hpart v hv)

section Overlay

variable {upper lower : Table} {part : String}

/-- Laid over each other, sections stay tables. -/
theorem HasTables.overlay (nodup : (Entries.keys upper).Nodup) (hupper : HasTables upper)
    (hlower : HasTables lower) : HasTables (overlay upper lower) := by
  intro part hpart v hv
  rw [Toml.get?_overlay nodup] at hv
  cases hkey : Entries.get? part upper with
  | none =>
    rw [hkey] at hv
    exact hlower part hpart v hv
  | some w =>
    rw [hkey] at hv
    obtain ⟨entries, rfl⟩ := hupper.exists_entries hpart hkey
    cases hbelow : Entries.get? part lower with
    | none =>
      rw [hbelow] at hv
      cases hv
      rw [Toml.Value.over_none]
      rfl
    | some u =>
      obtain ⟨below, rfl⟩ := hlower.exists_entries hpart hbelow
      rw [hbelow] at hv
      cases hv
      rfl

/-- **A field in tables laid over each other.** -/
theorem defined?_overlay (hupper : Entries.IsSound Value.IsTidy upper) (htables : HasTables upper)
    (hlower : HasTables lower) (hpart : part ∈ parts) (name : String) :
    defined? part name (overlay upper lower)
      = match defined? part name upper with
        | none => defined? part name lower
        | some v => some (v.over (defined? part name lower)) := by
  unfold defined? sectionOf
  rw [Toml.get?_overlay hupper.nodup]
  cases hkey : Entries.get? part upper with
  | none => rfl
  | some w =>
    obtain ⟨entries, rfl⟩ := htables.exists_entries hpart hkey
    have nodup : (Entries.keys entries).Nodup := (hupper.of_get? hkey).isSound.nodup
    cases hbelow : Entries.get? part lower with
    | none =>
      simp only [Value.over_none, Entries.get?]
      cases Entries.get? name entries <;> rfl
    | some u =>
      -- both have the section: it is joined, and the field is looked up in the joined section
      obtain ⟨below, rfl⟩ := hlower.exists_entries hpart hbelow
      exact Toml.get?_overlay nodup name below

/-- What a reader that refuses tables finds in tables laid over each other. -/
theorem map_defined?_overlay {α : Type} {decode : Value → Option α}
    (hdecode : ∀ entries, decode (.table entries) = none)
    (hupper : Entries.IsSound Value.IsTidy upper) (htables : HasTables upper)
    (hlower : HasTables lower) (hpart : part ∈ parts) (name : String) :
    (defined? part name (overlay upper lower)).map decode
      = ((defined? part name upper).or (defined? part name lower)).map decode := by
  rw [defined?_overlay hupper htables hlower hpart]
  cases defined? part name upper with
  | none => rfl
  | some v => exact congrArg some (decode_over hdecode v _)

end Overlay

end Settings

/-! ### Files -/

namespace SettingsFile

variable {lib : Toml.Library} {f : SettingsFile} {t : Table}

/-- The table in a file that is there and can be read. -/
def layer? (lib : Toml.Library) (f : SettingsFile) : Option Table := (f.table? lib).toOption.join

theorem layer?_of_table? {layer : Option Table} (h : f.table? lib = .ok layer) :
    f.layer? lib = layer := by
  rw [layer?, h]
  rfl

/-- The table in a file has each key once. -/
theorem isSound_of_table? (hlib : lib.HasUniqueKeys) (h : f.table? lib = .ok (some t)) :
    Entries.IsSound Value.IsTidy t := by
  unfold table? at h
  split at h
  · cases h
  · cases h
  · split at h
    · next hlayer =>
      cases h
      exact hlib _ _ hlayer
    · cases h

/-- The value that a file gives a field of a section. -/
def defined? (lib : Toml.Library) (part name : String) (f : SettingsFile) : Option Value :=
  (f.layer? lib).bind (Settings.defined? part name)

/-- The sections in the file are tables. -/
def HasTables (lib : Toml.Library) (f : SettingsFile) : Prop :=
  ∀ t ∈ f.layer? lib, Settings.HasTables t

instance (lib : Toml.Library) (f : SettingsFile) : Decidable (f.HasTables lib) :=
  inferInstanceAs (Decidable (∀ t ∈ f.layer? lib, Settings.HasTables t))

end SettingsFile

namespace Settings

/-- The value that the last of the files that define a field gives it. -/
def lastDefined? (lib : Toml.Library) (part name : String) (files : List SettingsFile) :
    Option Value :=
  files.reverse.findSome? (SettingsFile.defined? lib part name)

theorem lastDefined?_cons (lib : Toml.Library) (part name : String) (f : SettingsFile)
    (rest : List SettingsFile) :
    lastDefined? lib part name (f :: rest)
      = (lastDefined? lib part name rest).or (f.defined? lib part name) := by
  rw [lastDefined?, List.reverse_cons, List.findSome?_append, List.findSome?_singleton]
  rfl

section Files

variable {lib : Toml.Library} {files : List SettingsFile} {t t' : Table}

/-- Files whose sections are tables join to a table whose sections are tables. -/
theorem HasTables.joinFiles (hlib : lib.HasUniqueKeys) (hfiles : ∀ f ∈ files, f.HasTables lib)
    (ht : HasTables t) (hjoin : joinFiles lib files t = .ok t') : HasTables t' := by
  induction files generalizing t with
  | nil =>
    cases hjoin
    exact ht
  | cons f rest ih =>
    obtain ⟨hf, hrest⟩ := List.forall_mem_cons.mp hfiles
    unfold ManagedHost.joinFiles at hjoin
    split at hjoin
    · next upper hupper =>
      have hlayer : HasTables upper := hf upper (SettingsFile.layer?_of_table? hupper)
      exact ih hrest (hlayer.overlay (SettingsFile.isSound_of_table? hlib hupper).nodup ht) hjoin
    · exact ih hrest ht hjoin
    · cases hjoin

/-- **A field in joined files**, by induction over the files: a reader that refuses tables finds the
value in the last file that defines it, and else the value that was there before. -/
theorem map_defined?_joinFiles {α : Type} {decode : Value → Option α} {part : String}
    (hlib : lib.HasUniqueKeys) (hdecode : ∀ entries, decode (.table entries) = none)
    (hpart : part ∈ parts) (hfiles : ∀ f ∈ files, f.HasTables lib) (ht : HasTables t)
    (hjoin : joinFiles lib files t = .ok t') (name : String) :
    (defined? part name t').map decode
      = ((lastDefined? lib part name files).or (defined? part name t)).map decode := by
  induction files generalizing t with
  | nil =>
    cases hjoin
    rfl
  | cons f rest ih =>
    obtain ⟨hf, hrest⟩ := List.forall_mem_cons.mp hfiles
    rw [lastDefined?_cons, Option.or_assoc]
    unfold ManagedHost.joinFiles at hjoin
    split at hjoin
    · next upper hupper =>
      have hsound := SettingsFile.isSound_of_table? hlib hupper
      have hlayer : HasTables upper := hf upper (SettingsFile.layer?_of_table? hupper)
      have hdefined : f.defined? lib part name = defined? part name upper := by
        rw [SettingsFile.defined?, SettingsFile.layer?_of_table? hupper, Option.bind_some]
      have hover := map_defined?_overlay hdecode hsound hlayer ht hpart name
      rw [ih hrest (hlayer.overlay hsound.nodup ht) hjoin, hdefined]
      cases lastDefined? lib part name rest with
      | none => exact hover
      | some v => rfl
    · next hmissing =>
      have hdefined : f.defined? lib part name = none := by
        rw [SettingsFile.defined?, SettingsFile.layer?_of_table? hmissing, Option.bind_none]
      rw [ih hrest ht hjoin, hdefined, Option.none_or]
    · cases hjoin

end Files

end Settings

end ManagedHost
