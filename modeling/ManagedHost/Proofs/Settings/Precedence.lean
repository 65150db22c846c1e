import ManagedHost.Proofs.Settings.Layers

/-!
# Which source a setting comes from

A setting comes from its variable, else from the last file that defines it, else it is the default.
`Setting` describes one setting by the field that gives it and the variable that overrides it, and
`Setting.all` lists them.  Decoding the joined table gives each setting from its own field
(`Setting.inTable?_of_ofTable?`); each variable sets the one setting that it belongs to and keeps
the others (`Setting.suits`), so by induction over the variables so do all of them together.  With
what the joined files hold, `Settings.resolve_layered` puts these in order.
-/

namespace ManagedHost

open Toml (Value Table Entries)

/-! ### Settings one by one -/

/-- A setting: the field of a section that gives it, and the variable that overrides it. -/
structure Setting where
  Kind : Type
  part : String
  name : String
  /-- The setting that a value of the field gives. -/
  decode : Value → Option Kind
  get : Settings → Kind
  /-- The variable's name, and the setting that a text in the variable gives. -/
  override? : Option (String × (String → Option Kind)) := none

namespace Setting

/-- A whole number. -/
def word (part name : String) (get : Settings → Nat) (override? : Option String := none) :
    Setting where
  Kind := Nat
  part := part
  name := name
  decode := Decoding.word?
  get := get
  override? := override?.map (·, fun text => wordOfText? (Text.trim text))

/-- A whole number that may be left out. -/
def count (part name : String) (get : Settings → Option Nat) (override? : Option String := none) :
    Setting where
  Kind := Option Nat
  part := part
  name := name
  decode v := (Decoding.word? v).map some
  get := get
  override? := override?.map (·, fun text => (wordOfText? (Text.trim text)).map some)

/-- All settings. -/
def all : List Setting :=
  [word "gc" "arena_size" (·.heap.arenaSize) (some "SKYRT_GC_ARENA_SIZE"),
    word "gc" "initial_trigger" (·.heap.initialTrigger) (some "SKYRT_GC_INITIAL_TRIGGER"),
    { Kind := Binary64
      part := "gc"
      name := "growth_ratio"
      decode := Decoding.number?
      get := (·.heap.growthRatio)
      override? := some ("SKYRT_GC_GROWTH_RATIO", fun text => Binary64.ofText? (Text.trim text)) },
    word "gc" "max_heap_size" (·.heap.maxHeapSize) (some "SKYRT_GC_MAX_HEAP"),
    word "gc" "max_pause_ms" (·.heap.maxPauseMs) (some "SKYRT_GC_MAX_PAUSE_MS"),
    count "gc" "mark_workers" (·.heap.markWorkers),
    word "gc" "monitor_interval_ms" (·.heap.monitorIntervalMs),
    { Kind := Bool
      part := "gc"
      name := "background"
      decode := Decoding.truth?
      get := (·.heap.background) },
    count "event_loop" "workers" (·.loop.workers) (some "SKYRT_EVENT_LOOP_WORKERS"),
    word "event_loop" "queue_capacity" (·.loop.queueCapacity),
    word "event_loop" "microtask_interval_ms" (·.loop.microtaskIntervalMs),
    word "event_loop" "timer_interval_ms" (·.loop.timerIntervalMs),
    count "scheduler" "workers" (·.scheduler.workers) (some "SKYRT_SCHEDULER_WORKERS"),
    word "arena" "block_size" (·.arena.blockSize) (some "SKYRT_ARENA_BLOCK_SIZE"),
    { Kind := String
      part := "log"
      name := "level"
      decode := Decoding.text? .joined
      get := (·.log.level)
      override? := some ("SKYRT_LOG", fun text =>
        (LogLevel.ofText? (Text.trim text)).map LogLevel.name) }]

/-- Nothing else is set: settings that agree one by one are the same. -/
theorem eq_of_forall_get {s s' : Settings} (h : ∀ σ ∈ all, σ.get s = σ.get s') : s = s' := by
  simp only [all, List.forall_mem_cons, word, count] at h
  obtain ⟨⟨_, _, _, _, _, _, _, _⟩, ⟨_, _, _, _⟩, ⟨_⟩, ⟨_⟩, ⟨_⟩⟩ := s
  obtain ⟨⟨_, _, _, _, _, _, _, _⟩, ⟨_, _, _, _⟩, ⟨_⟩, ⟨_⟩, ⟨_⟩⟩ := s'
  simp_all

/-- The setting is in a section. -/
theorem part_mem : ∀ σ ∈ all, σ.part ∈ Settings.parts := by
  simp [all, word, count, Settings.parts]

/-- No setting is read from a table. -/
theorem decode_table : ∀ σ ∈ all, ∀ entries, σ.decode (.table entries) = none := by
  simp [all, word, count, Decoding.word?, Decoding.number?, Decoding.truth?, Decoding.text?]

/-! ### Decoding -/

/-- What a table gives the setting, or what it is by default. -/
def inTable? (σ : Setting) (t : Table) : Option σ.Kind :=
  ((Settings.defined? σ.part σ.name t).map σ.decode).getD (some (σ.get {}))

end Setting

/-- A field of a section is what the table gives it, or its default. -/
theorem Decoding.field_eq {α : Type} (entries : Table) (name : String) (default : α)
    (decode : Value → Option α) :
    field entries name default decode
      = ((Entries.get? name entries).map decode).getD (some default) := by
  unfold field
  cases Entries.get? name entries <;> rfl

/-- Entries that can be decoded are decoded as they are. -/
theorem Decoding.eq_of_checked? {names : List String} {t checked : Table}
    (h : checked? names t = some checked) : checked = t := by
  simp only [checked?, Option.ite_none_right_eq_some, Option.some.injEq] at h
  exact h.2.symm

/-- A section that is a table, or is left out, is decoded from its entries. -/
theorem Decoding.decode_of_part {α : Type} {t : Table} {name : String} {fields : List String}
    {default x : α} {decode : Table → Option α} (hdefault : decode [] = some default)
    (ht : Settings.HasTables t) (hname : name ∈ Settings.parts)
    (h : Decoding.joined.part t name fields default decode = some x) :
    decode (Settings.sectionOf name t) = some x := by
  unfold part field at h
  unfold Settings.sectionOf
  cases hsection : Entries.get? name t with
  | none =>
    rw [hsection] at h
    exact hdefault.trans h
  | some v =>
    obtain ⟨entries, rfl⟩ := ht.exists_entries hname hsection
    rw [hsection] at h
    obtain ⟨checked, hchecked, hdecode⟩ := Option.bind_eq_some_iff.mp h
    obtain rfl := eq_of_checked? hchecked
    exact hdecode

/-- **Settings are decoded one by one.** -/
theorem Setting.inTable?_of_ofTable? {t : Table} {s : Settings}
    (h : Settings.ofTable? .joined t = some s) (ht : Settings.HasTables t) :
    ∀ σ ∈ all, σ.inTable? t = some (σ.get s) := by
  simp only [Settings.ofTable?, Option.bind_eq_bind, Option.bind_eq_some_iff] at h
  obtain ⟨u, hu, heap, hheap, loop, hloop, scheduler, hscheduler, arena, harena, log, hlog, hs⟩ := h
  obtain rfl := Decoding.eq_of_checked? hu
  cases hs
  have hheap : HeapSettings.ofEntries? (Settings.sectionOf "gc" u) = some heap :=
    Decoding.decode_of_part rfl ht (by simp [Settings.parts]) hheap
  have hloop : LoopSettings.ofEntries? (Settings.sectionOf "event_loop" u) = some loop :=
    Decoding.decode_of_part rfl ht (by simp [Settings.parts]) hloop
  have hscheduler :
      SchedulerSettings.ofEntries? (Settings.sectionOf "scheduler" u) = some scheduler :=
    Decoding.decode_of_part rfl ht (by simp [Settings.parts]) hscheduler
  have harena : ArenaSettings.ofEntries? (Settings.sectionOf "arena" u) = some arena :=
    Decoding.decode_of_part rfl ht (by simp [Settings.parts]) harena
  have hlog : LogSettings.ofEntries? .joined (Settings.sectionOf "log" u) = some log :=
    Decoding.decode_of_part rfl ht (by simp [Settings.parts]) hlog
  simp only [HeapSettings.ofEntries?, LoopSettings.ofEntries?, SchedulerSettings.ofEntries?,
    ArenaSettings.ofEntries?, LogSettings.ofEntries?, Decoding.field?, Option.bind_eq_bind,
    Option.bind_eq_some_iff, Decoding.field_eq] at hheap hloop hscheduler harena hlog
  obtain ⟨_, harenaSize, _, htrigger, _, hratio, _, hmax, _, hpause, _, hmark, _, hmonitor, _,
    hbackground, hheap⟩ := hheap
  obtain ⟨_, hworkers, _, hcapacity, _, hmicrotask, _, htimer, hloop⟩ := hloop
  obtain ⟨_, hcount, hscheduler⟩ := hscheduler
  obtain ⟨_, hblock, harena⟩ := harena
  obtain ⟨_, hlevel, hlog⟩ := hlog
  cases hheap
  cases hloop
  cases hscheduler
  cases harena
  cases hlog
  simp only [all, List.forall_mem_cons]
  exact ⟨harenaSize, htrigger, hratio, hmax, hpause, hmark, hmonitor, hbackground, hworkers,
    hcapacity, hmicrotask, htimer, hcount, hblock, hlevel, by simp⟩

/-! ### Overriding -/

/-- What the setting's variable gives, if it is set. -/
def Setting.overridden? (σ : Setting) (env : Environment) : Option (Option σ.Kind) :=
  σ.override?.bind fun (name, parse) => (env name).map parse

/-- The variable sets the setting if it is the setting's own, and keeps it as it is otherwise. -/
structure Setting.Suits (σ : Setting) (v : Variable) : Prop where
  own : ∀ text s s', v.set? text s = some s' → ∀ parse, σ.override? = some (v.name, parse) →
    parse text = some (σ.get s')
  other : ∀ text s s', v.set? text s = some s' → σ.override?.map Prod.fst ≠ some v.name →
    σ.get s' = σ.get s

/-- Each variable suits each setting. -/
theorem Setting.suits : ∀ v ∈ Variable.all, ∀ σ ∈ all, σ.Suits v := by
  suffices h : ∀ v ∈ Variable.all, ∀ text s s', v.set? text s = some s' →
      (∀ σ ∈ all, ∀ parse, σ.override? = some (v.name, parse) → parse text = some (σ.get s'))
      ∧ ∀ σ ∈ all, σ.override?.map Prod.fst ≠ some v.name → σ.get s' = σ.get s from
    fun v hv σ hσ => ⟨fun text s s' hset => (h v hv text s s' hset).1 σ hσ,
      fun text s s' hset => (h v hv text s s' hset).2 σ hσ⟩
  intro v hv
  simp only [Variable.all, List.mem_cons, List.not_mem_nil, or_false] at hv
  rcases hv with rfl | rfl | rfl | rfl | rfl | rfl | rfl | rfl | rfl
  all_goals
    intro text s s' hset
    simp only [Variable.word, Option.map_eq_some_iff] at hset
    obtain ⟨x, hx, rfl⟩ := hset
    constructor
    · simp only [all, Variable.word, word, count, List.forall_mem_cons, Option.map_some,
        Option.map_none, Option.some.injEq, Prod.mk.injEq, String.reduceEq, false_and,
        false_imp_iff, implies_true, and_true, true_and, List.not_mem_nil, reduceCtorEq]
      rintro _ rfl
      simp only [hx, Option.map_some]
    · simp only [all, Variable.word, word, count, List.forall_mem_cons, Option.map_some,
        Option.map_none, ne_eq, Option.some.injEq, String.reduceEq, not_true_eq_false,
        not_false_eq_true, false_imp_iff, implies_true, and_true, List.not_mem_nil, reduceCtorEq]

namespace Setting

variable {σ : Setting} {env : Environment} {vars : List Variable} {s s' : Settings}

/-- **A setting whose variable is not set** stays as it is, by induction over the variables. -/
theorem get_overrideBy_of_unset (hsuits : ∀ v ∈ vars, σ.Suits v) (hunset : σ.overridden? env = none)
    (h : Settings.overrideBy env vars s = (s', none)) : σ.get s' = σ.get s := by
  induction vars generalizing s with
  | nil =>
    cases h
    rfl
  | cons v rest ih =>
    obtain ⟨hv, hrest⟩ := List.forall_mem_cons.mp hsuits
    rw [Settings.overrideBy] at h
    split at h
    · exact ih hrest h
    · next text htext =>
      have hother : σ.override?.map Prod.fst ≠ some v.name := by
        rintro hname
        obtain ⟨⟨name, parse⟩, hoverride, rfl⟩ := Option.map_eq_some_iff.mp hname
        simp [overridden?, hoverride, htext] at hunset
      split at h
      · next next hnext => exact (ih hrest h).trans (hv.other text s next hnext hother)
      · cases h

/-- **A setting whose variable is set** is what the variable gives.  By induction over the
variables: until its own variable has come it is still ahead, and then the others leave the setting
as it is. -/
theorem get_overrideBy_of_set {name text : String} {parse : String → Option σ.Kind}
    (hsuits : ∀ v ∈ vars, σ.Suits v) (hown : σ.override? = some (name, parse))
    (htext : env name = some text) (h : Settings.overrideBy env vars s = (s', none))
    (hstart : parse text = some (σ.get s) ∨ ∃ v ∈ vars, v.name = name) :
    parse text = some (σ.get s') := by
  induction vars generalizing s with
  | nil =>
    cases h
    exact hstart.resolve_right (by simp)
  | cons v rest ih =>
    obtain ⟨hv, hrest⟩ := List.forall_mem_cons.mp hsuits
    rw [Settings.overrideBy] at h
    split at h
    · next hunset =>
      refine ih hrest h (hstart.imp_right ?_)
      rintro ⟨w, hw, rfl⟩
      rcases List.mem_cons.mp hw with rfl | hw
      · rw [htext] at hunset
        cases hunset
      · exact ⟨w, hw, rfl⟩
    · next written hwritten =>
      split at h
      · next next hnext =>
        refine ih hrest h ?_
        -- The setting's own variable makes it so, and any other keeps it.
        by_cases hname : v.name = name
        · subst hname
          rw [htext] at hwritten
          cases hwritten
          exact .inl (hv.own text s next hnext parse hown)
        · refine hstart.imp (fun hset => ?_) ?_
          · have hother : σ.override?.map Prod.fst ≠ some v.name := by
              rw [hown]
              exact fun heq => hname (Option.some.inj heq).symm
            rw [hv.other written s next hnext hother, hset]
          · rintro ⟨w, hw, rfl⟩
            exact ⟨w, (List.mem_cons.mp hw).resolve_left fun heq => hname (heq ▸ rfl), rfl⟩
      · cases h

/-- The variable of each setting is looked at. -/
theorem exists_variable : ∀ σ ∈ all, ∀ name parse, σ.override? = some (name, parse) →
    ∃ v ∈ Variable.all, v.name = name := by
  simp only [all, word, count, List.forall_mem_cons, Option.map_some, Option.map_none,
    Option.some.injEq, Prod.mk.injEq, reduceCtorEq, List.not_mem_nil]
  simp [Variable.all, Variable.word]

/-! ### Precedence -/

/-- The value of the setting by the order of the sources: what its variable gives, if that is set;
else what the last file that defines its field gives; else the default. -/
def layered? (lib : Toml.Library) (σ : Setting) (files : List SettingsFile) (env : Environment) :
    Option σ.Kind :=
  match σ.overridden? env with
  | some given => given
  | none =>
    match Settings.lastDefined? lib σ.part σ.name files with
    | some v => σ.decode v
    | none => some (σ.get {})

end Setting

namespace Settings

variable {lib : Toml.Library} {files : List SettingsFile} {env : Environment} {s : Settings}

/-- Settings come from joining the files, decoding the joined table and overriding what it gives,
and have no defect then. -/
theorem ok_of_resolveWith (h : resolveWith lib files env = .ok s) :
    ∃ t read, joinFiles lib files [] = .ok t ∧ ofTable? .joined t = some read
      ∧ overrideBy env Variable.all read = (s, none) ∧ s.defect? = none := by
  unfold resolveWith at h
  split at h
  · cases h
  next t hjoin =>
  split at h
  · cases h
  next read hread =>
  split at h
  · cases h
  next written hoverride =>
  unfold checked at h
  split at h
  · cases h
  next hnone =>
  cases h
  exact ⟨t, read, hjoin, hread, hoverride, hnone⟩

/-- **The order of the sources.**  If files, read by any library that gives each key once, and
variables give settings, and the sections in the files are tables, then each setting is what its
variable gives, else what the last file that defines it gives, else the default; no other settings
are so, and they have no defect. -/
theorem resolve_layered (hlib : lib.HasUniqueKeys) (hfiles : ∀ f ∈ files, f.HasTables lib)
    (h : resolveWith lib files env = .ok s) :
    (∀ σ ∈ Setting.all, σ.layered? lib files env = some (σ.get s))
    ∧ (∀ other, (∀ σ ∈ Setting.all, σ.layered? lib files env = some (σ.get other)) → other = s)
    ∧ s.defect? = none := by
  obtain ⟨t, read, hjoin, hread, hoverride, hdefect⟩ := ok_of_resolveWith h
  have hlayered : ∀ σ ∈ Setting.all, σ.layered? lib files env = some (σ.get s) := by
    intro σ hσ
    have hsuits : ∀ v ∈ Variable.all, σ.Suits v := fun v hv => Setting.suits v hv σ hσ
    unfold Setting.layered?
    -- A variable has the last word; without one the setting is what was decoded.
    cases hgiven : σ.overridden? env with
    | some given =>
      obtain ⟨⟨name, parse⟩, hown, hparse⟩ := Option.bind_eq_some_iff.mp hgiven
      obtain ⟨text, htext, rfl⟩ := Option.map_eq_some_iff.mp hparse
      exact Setting.get_overrideBy_of_set hsuits hown htext hoverride
        (.inr (Setting.exists_variable σ hσ name parse hown))
    | none =>
      have htables := hasTables_nil.joinFiles hlib hfiles hjoin
      have hdecoded := Setting.inTable?_of_ofTable? hread htables σ hσ
      have hjoined := map_defined?_joinFiles hlib (Setting.decode_table σ hσ)
        (Setting.part_mem σ hσ) hfiles hasTables_nil hjoin σ.name
      have hempty : defined? σ.part σ.name [] = none := rfl
      rw [Setting.inTable?, hjoined, hempty, Option.or_none] at hdecoded
      rw [Setting.get_overrideBy_of_unset hsuits hgiven hoverride, ← hdecoded]
      cases lastDefined? lib σ.part σ.name files <;> rfl
  refine ⟨hlayered, fun other hother => ?_, hdefect⟩
  exact Setting.eq_of_forall_get fun σ hσ =>
    Option.some.inj ((hother σ hσ).symm.trans (hlayered σ hσ))

/-- Files of a user and of a project with a missing one between them.  Both set the pause, and both
have keys that name nothing. -/
def sampleFiles : List SettingsFile :=
  [⟨"user.toml", .text
      ("[gc]\narena_size = 1024\nmax_pause_ms = 5\nspare = [1, 2]\n"
        ++ "[log]\nlevel = 'debug'\n")⟩,
    ⟨"absent.toml", .missing⟩,
    ⟨"project.toml", .text
      "[gc]\nmax_pause_ms = 7\n[scheduler]\nworkers = 3\n[other]\nkey = 1\n"⟩]

/-- Variables for the workers of the scheduler and for the log. -/
def sampleEnvironment : Environment
  | "SKYRT_SCHEDULER_WORKERS" => some " 5 "
  | "SKYRT_LOG" => some "WARNING"
  | _ => none

/-- The settings that they give. -/
def sampleSettings : Settings where
  heap := { arenaSize := 1024, maxPauseMs := 7 }
  scheduler := { workers := some 5 }
  log := { level := "warn" }

/-- The samples are such files, and the project, the variables and the user's file each have their
say. -/
theorem resolve_layered_sample :
    Toml.Library.standard.HasUniqueKeys ∧ (∀ f ∈ sampleFiles, f.HasTables .standard)
    ∧ resolveWith .standard sampleFiles sampleEnvironment = .ok sampleSettings
    ∧ (∀ σ ∈ Setting.all,
      σ.layered? .standard sampleFiles sampleEnvironment = some (σ.get sampleSettings))
    ∧ sampleSettings.defect? = none := by
  have hlib := Toml.Library.standard_hasUniqueKeys
  have hfiles : ∀ f ∈ sampleFiles, f.HasTables .standard := by decide +kernel
  have hresolve : resolveWith .standard sampleFiles sampleEnvironment = .ok sampleSettings := by
    decide +kernel
  obtain ⟨hlayered, -, hdefect⟩ := resolve_layered hlib hfiles hresolve
  exact ⟨hlib, hfiles, hresolve, hlayered, hdefect⟩

end Settings

end ManagedHost
