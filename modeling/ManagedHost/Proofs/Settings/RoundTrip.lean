import ManagedHost.Proofs.Toml.Library
import ManagedHost.Settings.Document

/-!
# Printed settings are read back

Settings are printed as five sections whose keys are fields of theirs, in order and without the
numbers that are left out (`keys_entries`), so the keys are bare and none is there twice
(`Settings.isDocument_sections`).  A library that reads what it prints gives back a table that holds
these sections, perhaps in another order.  Decoding only looks fields up by their keys
(`ofEntries?_congr`), so each section decodes to the settings that it was printed from:
`Settings.readWith_printWith`.
-/

namespace ManagedHost

open Toml (Value Table Entries IsBare IsPlainTable IsDocument)
open Settings (word word?)

/-! ### Sections -/

/-- The entries that the heap's settings are printed as. -/
def HeapSettings.entries (s : HeapSettings) : Table :=
  [word "arena_size" s.arenaSize, word "initial_trigger" s.initialTrigger,
    ("growth_ratio", .float s.growthRatio), word "max_heap_size" s.maxHeapSize,
    word "max_pause_ms" s.maxPauseMs]
  ++ word? "mark_workers" s.markWorkers
  ++ [word "monitor_interval_ms" s.monitorIntervalMs, ("background", .boolean s.background)]

/-- The entries that the loop's settings are printed as. -/
def LoopSettings.entries (s : LoopSettings) : Table :=
  word? "workers" s.workers
  ++ [word "queue_capacity" s.queueCapacity, word "microtask_interval_ms" s.microtaskIntervalMs,
    word "timer_interval_ms" s.timerIntervalMs]

/-- Numbers in the range of TOML's integers. -/
abbrev AreInRange (numbers : List Nat) : Prop := ∀ n ∈ numbers, n < 2 ^ 63

/-- The numbers in the heap's settings. -/
def HeapSettings.numbers (s : HeapSettings) : List Nat :=
  [s.arenaSize, s.initialTrigger, s.maxHeapSize, s.maxPauseMs, s.monitorIntervalMs]
  ++ s.markWorkers.toList

/-- The numbers in the loop's settings. -/
def LoopSettings.numbers (s : LoopSettings) : List Nat :=
  [s.queueCapacity, s.microtaskIntervalMs, s.timerIntervalMs] ++ s.workers.toList

namespace Settings

/-- The numbers in the settings. -/
def numbers (s : Settings) : List Nat :=
  s.heap.numbers ++ s.loop.numbers ++ s.scheduler.workers.toList ++ [s.arena.blockSize]

theorem sections_eq (s : Settings) : s.sections
    = [("gc", s.heap.entries), ("event_loop", s.loop.entries),
      ("scheduler", word? "workers" s.scheduler.workers),
      ("arena", [word "block_size" s.arena.blockSize]), ("log", [("level", .text s.log.level)])] :=
  rfl

end Settings

/-! ### Keys and values -/

theorem Decoding.checked?_of_subset {names : List String} {t : Table} (h : Entries.keys t ⊆ names) :
    Decoding.checked? names t = some t := by
  refine if_pos (List.all_eq_true.mpr fun entry hentry => ?_)
  have hname : entry.1 ∈ names := h (List.mem_map_of_mem hentry)
  simp [hname]

/-- Names that can be keys without quotes, no two of them the same. -/
structure AreFields (names : List String) : Prop where
  nodup : names.Nodup
  bare : ∀ name ∈ names, IsBare name

theorem AreFields.of_decide {names : List String} (nodup : names.Nodup)
    (h : names.all (fun name => !name.toList.isEmpty && name.toList.all Toml.isKeyChar) = true) :
    AreFields names := by
  refine ⟨nodup, fun name hname => ?_⟩
  have hbare := List.all_eq_true.mp h name hname
  rw [Bool.and_eq_true, Bool.not_eq_true', List.isEmpty_eq_false_iff, List.all_eq_true] at hbare
  exact ⟨hbare.1, hbare.2⟩

/-- Some of the fields of a section with plain values. -/
theorem AreFields.isPlainTable {names : List String} {t : Table} (h : AreFields names)
    (hkeys : (Entries.keys t).Sublist names) (hplain : ∀ entry ∈ t, entry.2.IsPlain) :
    IsPlainTable t where
  nodup := hkeys.nodup h.nodup
  bare entry hentry := h.bare entry.1 (hkeys.subset (List.mem_map_of_mem hentry))
  plain := hplain

theorem areFields_parts : AreFields Settings.parts := .of_decide (by decide) (by decide)

theorem HeapSettings.areFields : AreFields fields := .of_decide (by decide) (by decide)

theorem LoopSettings.areFields : AreFields fields := .of_decide (by decide) (by decide)

theorem SchedulerSettings.areFields : AreFields fields := .of_decide (by decide) (by decide)

theorem ArenaSettings.areFields : AreFields fields := .of_decide (by decide) (by decide)

theorem LogSettings.areFields : AreFields fields := .of_decide (by decide) (by decide)

/-- A number that may be left out is one entry or none. -/
theorem Settings.keys_word? (name : String) (n : Option Nat) :
    (Entries.keys (word? name n)).Sublist [name] := by
  cases n with
  | none => exact List.nil_sublist _
  | some n => exact List.Sublist.refl _

theorem HeapSettings.keys_entries (s : HeapSettings) : (Entries.keys s.entries).Sublist fields := by
  rw [Entries.keys, entries, List.map_append, List.map_append]
  exact ((List.Sublist.refl _).append (Settings.keys_word? _ _)).append (List.Sublist.refl _)

theorem LoopSettings.keys_entries (s : LoopSettings) : (Entries.keys s.entries).Sublist fields := by
  rw [Entries.keys, entries, List.map_append]
  exact (Settings.keys_word? _ _).append (List.Sublist.refl _)

theorem Toml.Value.isPlain_word {n : Nat} (h : n < 2 ^ 63) : (Value.integer n).IsPlain :=
  ⟨Int.natCast_nonneg n, by omega⟩

theorem Settings.isPlain_word? {name : String} {n : Option Nat} (h : AreInRange n.toList) :
    ∀ entry ∈ word? name n, entry.2.IsPlain := by
  cases n with
  | none => exact fun entry hentry => absurd hentry List.not_mem_nil
  | some n => exact List.forall_mem_singleton.mpr (Value.isPlain_word (h n List.mem_cons_self))

theorem HeapSettings.isPlain_entries {s : HeapSettings} (h : AreInRange s.numbers)
    (hratio : s.growthRatio.code < Binary64.infinityCode) :
    ∀ entry ∈ s.entries, entry.2.IsPlain := by
  obtain ⟨hfixed, hmark⟩ := List.forall_mem_append.mp h
  simp only [List.forall_mem_cons] at hfixed
  obtain ⟨harena, htrigger, hmax, hpause, hmonitor, -⟩ := hfixed
  unfold entries
  simp only [List.forall_mem_append, List.forall_mem_cons]
  exact ⟨⟨⟨Value.isPlain_word harena, Value.isPlain_word htrigger, hratio, Value.isPlain_word hmax,
    Value.isPlain_word hpause, by simp⟩, Settings.isPlain_word? hmark⟩,
    Value.isPlain_word hmonitor, trivial, by simp⟩

theorem LoopSettings.isPlain_entries {s : LoopSettings} (h : AreInRange s.numbers) :
    ∀ entry ∈ s.entries, entry.2.IsPlain := by
  obtain ⟨hfixed, hworkers⟩ := List.forall_mem_append.mp h
  simp only [List.forall_mem_cons] at hfixed
  obtain ⟨hcapacity, hmicrotask, htimer, -⟩ := hfixed
  unfold entries
  simp only [List.forall_mem_append, List.forall_mem_cons]
  exact ⟨Settings.isPlain_word? hworkers, Value.isPlain_word hcapacity,
    Value.isPlain_word hmicrotask, Value.isPlain_word htimer, by simp⟩

/-- **The sections of settings** are a document. -/
theorem Settings.isDocument_sections {s : Settings} (h : AreInRange s.numbers)
    (hratio : s.heap.growthRatio.code < Binary64.infinityCode) : IsDocument s.sections := by
  obtain ⟨hwords, hblock⟩ := List.forall_mem_append.mp h
  obtain ⟨hwords, hworkers⟩ := List.forall_mem_append.mp hwords
  obtain ⟨hheap, hloop⟩ := List.forall_mem_append.mp hwords
  have hblock : s.arena.blockSize < 2 ^ 63 := hblock _ List.mem_cons_self
  have hbare : ∀ part ∈ s.sections, IsBare part.1 := fun part hpart =>
    areFields_parts.bare part.1 (List.mem_map_of_mem (f := Prod.fst) hpart)
  refine ⟨areFields_parts.nodup, hbare, fun part hpart => ?_⟩
  rw [sections_eq] at hpart
  simp only [List.mem_cons, List.not_mem_nil, or_false] at hpart
  rcases hpart with rfl | rfl | rfl | rfl | rfl
  · exact HeapSettings.areFields.isPlainTable s.heap.keys_entries
      (HeapSettings.isPlain_entries hheap hratio)
  · exact LoopSettings.areFields.isPlainTable s.loop.keys_entries
      (LoopSettings.isPlain_entries hloop)
  · exact SchedulerSettings.areFields.isPlainTable (keys_word? _ _) (isPlain_word? hworkers)
  · exact ArenaSettings.areFields.isPlainTable (List.Sublist.refl _)
      (List.forall_mem_singleton.mpr (Value.isPlain_word hblock))
  · exact LogSettings.areFields.isPlainTable (List.Sublist.refl _)
      (List.forall_mem_singleton.mpr trivial)

/-! ### Decoding -/

theorem Decoding.word?_natCast {n : Nat} (h : n < 2 ^ 64) :
    Decoding.word? (.integer n) = some n := by
  have hhigh : Int.pow 2 64 = (2 ^ 64 : Nat) := by decide
  have hrange : (0 : Int) ≤ n ∧ (n : Int) < Int.pow 2 64 :=
    ⟨Int.natCast_nonneg n, hhigh ▸ Int.ofNat_lt.mpr h⟩
  rw [Decoding.word?, if_pos hrange, Int.toNat_natCast]

theorem AreInRange.word?_eq {numbers : List Nat} (h : AreInRange numbers) :
    ∀ n ∈ numbers, Decoding.word? (.integer n) = some n :=
  fun n hn => Decoding.word?_natCast ((h n hn).trans (by decide))

theorem HeapSettings.ofEntries?_entries {s : HeapSettings} (h : AreInRange s.numbers) :
    ofEntries? s.entries = some s := by
  have hword := AreInRange.word?_eq h
  obtain ⟨arenaSize, initialTrigger, growthRatio, maxHeapSize, maxPauseMs, markWorkers,
    monitorIntervalMs, background⟩ := s
  simp only [numbers, List.forall_mem_append, List.forall_mem_cons] at hword
  obtain ⟨⟨harena, htrigger, hmax, hpause, hmonitor, -⟩, hmark⟩ := hword
  cases markWorkers with
  | none =>
    simp [ofEntries?, entries, word, word?, Decoding.field, Decoding.field?, Entries.get?, harena,
      htrigger, hmax, hpause, hmonitor, Decoding.number?, Decoding.truth?]
  | some n =>
    have hmark := hmark n List.mem_cons_self
    simp [ofEntries?, entries, word, word?, Decoding.field, Decoding.field?, Entries.get?, harena,
      htrigger, hmax, hpause, hmonitor, hmark, Decoding.number?, Decoding.truth?]

theorem LoopSettings.ofEntries?_entries {s : LoopSettings} (h : AreInRange s.numbers) :
    ofEntries? s.entries = some s := by
  have hword := AreInRange.word?_eq h
  obtain ⟨workers, queueCapacity, microtaskIntervalMs, timerIntervalMs⟩ := s
  simp only [numbers, List.forall_mem_append, List.forall_mem_cons] at hword
  obtain ⟨⟨hcapacity, hmicrotask, htimer, -⟩, hworkers⟩ := hword
  cases workers with
  | none =>
    simp [ofEntries?, entries, word, word?, Decoding.field, Decoding.field?, Entries.get?,
      hcapacity, hmicrotask, htimer]
  | some n =>
    have hworkers := hworkers n List.mem_cons_self
    simp [ofEntries?, entries, word, word?, Decoding.field, Decoding.field?, Entries.get?,
      hcapacity, hmicrotask, htimer, hworkers]

theorem SchedulerSettings.ofEntries?_entries {s : SchedulerSettings}
    (h : AreInRange s.workers.toList) :
    ofEntries? (word? "workers" s.workers) = some s := by
  obtain ⟨workers⟩ := s
  cases workers with
  | none => rfl
  | some n =>
    have hworkers := AreInRange.word?_eq h n List.mem_cons_self
    simp [ofEntries?, word, word?, Decoding.field, Decoding.field?, Entries.get?, hworkers]

theorem ArenaSettings.ofEntries?_entries {s : ArenaSettings} (h : AreInRange [s.blockSize]) :
    ofEntries? [word "block_size" s.blockSize] = some s := by
  have hblock := AreInRange.word?_eq h s.blockSize List.mem_cons_self
  simp [ofEntries?, word, Decoding.field, Entries.get?, hblock]

section Congr

variable {t t' : Table} (h : ∀ key, Entries.get? key t = Entries.get? key t')

include h

theorem HeapSettings.ofEntries?_congr : ofEntries? t = ofEntries? t' := by
  simp only [ofEntries?, Decoding.field?, Decoding.field, h]

theorem LoopSettings.ofEntries?_congr : ofEntries? t = ofEntries? t' := by
  simp only [ofEntries?, Decoding.field?, Decoding.field, h]

theorem SchedulerSettings.ofEntries?_congr : ofEntries? t = ofEntries? t' := by
  simp only [ofEntries?, Decoding.field?, Decoding.field, h]

theorem ArenaSettings.ofEntries?_congr : ofEntries? t = ofEntries? t' := by
  simp only [ofEntries?, Decoding.field, h]

theorem LogSettings.ofEntries?_congr (from_ : Decoding) :
    ofEntries? from_ t = ofEntries? from_ t' := by
  simp only [ofEntries?, Decoding.field, h]

end Congr

/-- A section that a table holds is decoded as the entries that it was printed from, if decoding
only looks its fields up. -/
theorem Decoding.part_of_holds {α : Type} {t entries : Table} {parts : List (String × Table)}
    {name : String} {fields : List String} {default : α} {decode : Table → Option α}
    (ht : Toml.Holds t parts) (hpart : (name, entries) ∈ parts)
    (hkeys : Entries.keys entries ⊆ fields)
    (hdecode : ∀ e e' : Table, (∀ key, Entries.get? key e = Entries.get? key e') →
      decode e = decode e') :
    Decoding.alone.part t name fields default decode = decode entries := by
  obtain ⟨found, hfound, hsubset, hget⟩ := ht.sections _ hpart
  rw [part, field, hfound, ← hdecode found entries hget]
  exact congrArg (Option.bind · decode) (checked?_of_subset fun key hkey => hkeys (hsubset hkey))

namespace Settings

/-- **A table that holds the sections of settings** is decoded to the settings. -/
theorem ofTable?_of_holds {s : Settings} {t : Table} (h : AreInRange s.numbers)
    (ht : Toml.Holds t s.sections) : ofTable? .alone t = some s := by
  obtain ⟨hwords, hblock⟩ := List.forall_mem_append.mp h
  obtain ⟨hwords, hworkers⟩ := List.forall_mem_append.mp hwords
  obtain ⟨hheap, hloop⟩ := List.forall_mem_append.mp hwords
  -- No section and no field has a key of its own, so nothing is passed over.
  have hkeys : Entries.keys t ⊆ parts := ht.names
  have hblockKeys : Entries.keys [word "block_size" s.arena.blockSize] ⊆ ArenaSettings.fields :=
    List.Subset.refl _
  have hlevelKeys : Entries.keys [("level", Value.text s.log.level)] ⊆ LogSettings.fields :=
    List.Subset.refl _
  rw [sections_eq] at ht
  have hgc : Decoding.alone.part t "gc" HeapSettings.fields {} HeapSettings.ofEntries?
      = some s.heap :=
    (Decoding.part_of_holds ht (by simp) s.heap.keys_entries.subset
      fun _ _ => HeapSettings.ofEntries?_congr).trans (HeapSettings.ofEntries?_entries hheap)
  have heventLoop : Decoding.alone.part t "event_loop" LoopSettings.fields {}
      LoopSettings.ofEntries? = some s.loop :=
    (Decoding.part_of_holds ht (by simp) s.loop.keys_entries.subset
      fun _ _ => LoopSettings.ofEntries?_congr).trans (LoopSettings.ofEntries?_entries hloop)
  have hscheduler : Decoding.alone.part t "scheduler" SchedulerSettings.fields {}
      SchedulerSettings.ofEntries? = some s.scheduler :=
    (Decoding.part_of_holds ht (by simp) (keys_word? _ _).subset
      fun _ _ => SchedulerSettings.ofEntries?_congr).trans
        (SchedulerSettings.ofEntries?_entries hworkers)
  have harena : Decoding.alone.part t "arena" ArenaSettings.fields {} ArenaSettings.ofEntries?
      = some s.arena :=
    (Decoding.part_of_holds ht (by simp) hblockKeys
      fun _ _ => ArenaSettings.ofEntries?_congr).trans (ArenaSettings.ofEntries?_entries hblock)
  have hlog : Decoding.alone.part t "log" LogSettings.fields {} (LogSettings.ofEntries? .alone)
      = some s.log :=
    (Decoding.part_of_holds ht (by simp) hlevelKeys
      fun _ _ h => LogSettings.ofEntries?_congr h .alone).trans rfl
  rw [ofTable?, Decoding.checked?_of_subset hkeys]
  simp only [Option.bind_eq_bind, Option.bind_some, hgc, heventLoop, hscheduler, harena, hlog]

/-- Settings without a defect have a positive ratio. -/
theorem isPositive_of_defect? {s : Settings} (h : s.defect? = none) :
    s.heap.growthRatio.isPositive = true := by
  by_contra hratio
  rw [defect?, if_pos (by simpa using hratio)] at h
  cases h

/-- **Printed settings are read back.**  A library that reads what it prints prints all settings
without a defect whose numbers are in TOML's range, and from the document it reads them as they
were: the numbers that were left out are left out again, and the text of the level is the same. -/
theorem readWith_printWith {lib : Toml.Library} {s : Settings} (hlib : lib.IsFaithful)
    (hvalid : s.defect? = none) (h : AreInRange s.numbers) :
    ∃ text, s.printWith lib = .ok text ∧ readWith lib text = .ok s := by
  have hratio : s.heap.growthRatio.code < Binary64.infinityCode := by
    have hpositive := isPositive_of_defect? hvalid
    simp only [Binary64.isPositive, Bool.and_eq_true] at hpositive
    simpa [Binary64.isFinite] using hpositive.1.1
  obtain ⟨text, t, hprint, hread, hreturns⟩ := hlib.exists_returns (isDocument_sections h hratio)
  refine ⟨text, ?_, ?_⟩
  · rw [printWith, hprint]
  · rw [readWith, hread, Option.bind_some, ofTable?_of_holds h (hlib.holds hreturns)]
    dsimp only
    rw [checked, hvalid]

/-- Settings with a ratio of one tenth, one number of workers left out and one given, the greatest
number, and blanks around the level. -/
def tenthSettings : Settings where
  heap :=
    { growthRatio := ⟨false, 0x3fb999999999999a⟩
      maxPauseMs := 2 ^ 63 - 1
      markWorkers := some 3 }
  log := { level := "\t Warn\n" }

theorem readWith_printWith_tenth :
    Toml.Library.standard.IsFaithful ∧ tenthSettings.defect? = none
    ∧ AreInRange tenthSettings.numbers ∧ ofDocument tenthSettings.print = .ok tenthSettings := by
  have hlib := Toml.Library.standard_isFaithful
  have hvalid : tenthSettings.defect? = none := by decide +kernel
  have hrange : AreInRange tenthSettings.numbers := by decide +kernel
  obtain ⟨text, hprint, hread⟩ := readWith_printWith hlib hvalid hrange
  obtain rfl := Except.ok.inj ((printWith_standard tenthSettings).symm.trans hprint)
  exact ⟨hlib, hvalid, hrange, hread⟩

end Settings

end ManagedHost
