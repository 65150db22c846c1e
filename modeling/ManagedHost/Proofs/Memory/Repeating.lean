import ManagedHost.Proofs.Memory.Rewinding

/-!
# The same requests after a reset

A pool that is rewound and asked for the same pieces again hands out the same addresses and
reserves nothing.  The second run starts with all the blocks that the first one added, so the two
never are in the same state: `Pool.stocked` is the state of the second run, with the blocks that
the first run is yet to add already there, behind the others.

The step is `Pool.alloc_repeats`.  Where the first run finds room, the blocks behind are not looked
at, and where it adds a block, the search of the second run comes to that very block, since they
stand in the order in which they were added.  The main result is `Pool.reset_repeats`.
-/

namespace ManagedHost

namespace Arena

theorem rewound_of_bump {a a' : Arena} {size align addr : Nat}
    (h : a.bump size align = some (addr, a')) : a'.rewound = a.rewound := by
  obtain ⟨stop, rfl⟩ := bump_moves_cursor h
  rfl

theorem rewound_of_cursor {a : Arena} (h : a.cursor = 0) : a.rewound = a := by
  rw [rewound, ← h]

variable {eligible : Arena → Bool} {size align addr skipped : Nat} {arenas arenas' : List Arena}

/-- Arenas behind the one that serves the request are not looked at. -/
theorem bumpFirst_append_of_some
    (h : bumpFirst eligible size align arenas = some (addr, skipped, arenas'))
    (more : List Arena) :
    bumpFirst eligible size align (arenas ++ more) = some (addr, skipped, arenas' ++ more) := by
  induction arenas generalizing skipped arenas' with
  | nil => cases h
  | cons a rest ih =>
    rw [List.cons_append, bumpFirst]
    rw [bumpFirst] at h
    split at h
    · next addr' a' hbump =>
      obtain ⟨rfl, rfl, rfl⟩ :=
        (by simpa using h : addr' = addr ∧ 0 = skipped ∧ a' :: rest = arenas')
      rfl
    · obtain ⟨⟨addr', skipped', rest'⟩, hrest, hpair⟩ := Option.map_eq_some_iff.mp h
      obtain ⟨rfl, rfl, rfl⟩ :=
        (by simpa using hpair : addr' = addr ∧ skipped' + 1 = skipped ∧ a :: rest' = arenas')
      rw [ih hrest]
      rfl

/-- Where no arena serves the request, the next one behind may. -/
theorem bumpFirst_append_of_none (h : bumpFirst eligible size align arenas = none) {a a' : Arena}
    (helig : eligible a = true) (hbump : a.bump size align = some (addr, a'))
    (more : List Arena) :
    bumpFirst eligible size align (arenas ++ a :: more) =
      some (addr, arenas.length, arenas ++ a' :: more) := by
  induction arenas with
  | nil =>
    rw [List.nil_append, bumpFirst, if_pos helig, hbump]
    rfl
  | cons b rest ih =>
    rw [List.cons_append, bumpFirst]
    rw [bumpFirst] at h
    split at h
    · cases h
    · rw [ih (Option.map_eq_none_iff.mp h)]
      rfl

/-- A search that succeeds ends within the list, and moves nothing but a cursor. -/
theorem map_rewound_of_bumpFirst
    (h : bumpFirst eligible size align arenas = some (addr, skipped, arenas')) :
    arenas'.map rewound = arenas.map rewound ∧ skipped < arenas.length := by
  induction arenas generalizing skipped arenas' with
  | nil => cases h
  | cons a rest ih =>
    rw [bumpFirst] at h
    split at h
    · next addr' a' hbump =>
      obtain ⟨-, rfl, rfl⟩ :=
        (by simpa using h : addr' = addr ∧ 0 = skipped ∧ a' :: rest = arenas')
      split_ifs at hbump
      rw [List.map_cons, List.map_cons, rewound_of_bump hbump]
      exact ⟨rfl, Nat.zero_lt_succ _⟩
    · obtain ⟨⟨addr', skipped', rest'⟩, hrest, hpair⟩ := Option.map_eq_some_iff.mp h
      obtain ⟨rfl, rfl, rfl⟩ :=
        (by simpa using hpair : addr' = addr ∧ skipped' + 1 = skipped ∧ a :: rest' = arenas')
      obtain ⟨hmap, hlt⟩ := ih hrest
      rw [List.map_cons, List.map_cons, hmap]
      exact ⟨rfl, Nat.succ_lt_succ hlt⟩

end Arena

namespace Pool

/-- The answers to the requests, each a size and an alignment, and the pool afterwards. -/
def allocAll (sys : System) : Pool → List (Nat × Nat) → List (Except AllocError Nat) × Pool
  | p, [] => ([], p)
  | p, (size, align) :: rest =>
    let (answer, p₁) := p.alloc sys size align
    let (answers, p₂) := allocAll sys p₁ rest
    (answer :: answers, p₂)

/-- **The pool of the second run** where that of the first is `p`: `blocks` and `oversized` are the
blocks that the first run is yet to add. -/
def stocked (p : Pool) (blocks oversized : List Arena) (bytes : Store) : Pool :=
  { p with blocks := p.blocks ++ blocks, oversized := p.oversized ++ oversized, bytes }

/-- **What requests add to a pool**: blocks at the end of its lists. -/
structure Adds (p p' : Pool) (blocks oversized : List Arena) : Prop where
  blocks : p'.blocks.map Arena.rewound = p.blocks.map Arena.rewound ++ blocks
  oversized : p'.oversized.map Arena.rewound = p.oversized.map Arena.rewound ++ oversized
  blockSize : p'.blockSize = p.blockSize
  current : p'.current ≤ p'.blocks.length

theorem Adds.trans {p p₁ p₂ : Pool} {blocks₁ blocks₂ oversized₁ oversized₂ : List Arena}
    (h₁ : p.Adds p₁ blocks₁ oversized₁) (h₂ : p₁.Adds p₂ blocks₂ oversized₂) :
    p.Adds p₂ (blocks₁ ++ blocks₂) (oversized₁ ++ oversized₂) where
  blocks := by rw [h₂.blocks, h₁.blocks, List.append_assoc]
  oversized := by rw [h₂.oversized, h₁.oversized, List.append_assoc]
  blockSize := h₂.blockSize.trans h₁.blockSize
  current := h₂.current

variable {sys : System} {p p' : Pool} {size align addr : Nat}

/-- A block that was opened is one that was empty, with one piece cut from it. -/
theorem openBlock_eq_ok {capacity : Nat} {a : Arena} {bytes : Store}
    (h : openBlock sys p capacity size align = .ok (addr, a, bytes)) :
    a.rewound.bump size align = some (addr, a) := by
  unfold openBlock at h
  cases hreserve : Arena.reserve sys p.held capacity with
  | error e =>
    rw [hreserve] at h
    cases h
  | ok fresh =>
    have hcursor : fresh.cursor = 0 := by rw [(Arena.reserve_eq_ok hreserve).1]
    simp only [hreserve, bind, Except.bind] at h
    split at h
    · next addr' a' hbump =>
      obtain ⟨rfl, rfl, -⟩ := (by simpa using h : addr' = addr ∧ a' = a ∧ _ = bytes)
      rwa [Arena.rewound_of_bump hbump, Arena.rewound_of_cursor hcursor]
    · cases h

/-- **What it means that a request repeats**: it makes `p'` of `p`, and a pool that has in stock
what `p'` adds to `p`, and maybe more, gives the same answer and uses it up. -/
def Repeats {α : Type} (request : System → Pool → α × Pool) (answer : α) (p p' : Pool) : Prop :=
  ∃ blocks oversized, p.Adds p' blocks oversized ∧
    ∀ sys blocks' oversized' bytes, ∃ bytes',
      request sys (p.stocked (blocks ++ blocks') (oversized ++ oversized') bytes) =
        (answer, p'.stocked blocks' oversized' bytes')

/-- Requests that come to the same repeat the same. -/
theorem Repeats.congr {α : Type} {request request' : System → Pool → α × Pool} {answer : α}
    (h : Repeats request answer p p')
    (hsame : ∀ sys blocks oversized bytes,
      request' sys (p.stocked blocks oversized bytes) =
        request sys (p.stocked blocks oversized bytes)) :
    Repeats request' answer p p' := by
  obtain ⟨blocks, oversized, hadds, hrepeats⟩ := h
  refine ⟨blocks, oversized, hadds, fun sys blocks' oversized' bytes => ?_⟩
  rw [hsame]
  exact hrepeats sys blocks' oversized' bytes

theorem allocOversized_repeats {padded : Nat} (hcurrent : p.current ≤ p.blocks.length)
    (h : allocOversized sys p padded size align = (.ok addr, p')) :
    Repeats (fun sys q => allocOversized sys q padded size align) (.ok addr) p p' := by
  unfold allocOversized at h
  split at h
  · next addr' _ oversized hfirst =>
    obtain ⟨rfl, rfl⟩ := (by simpa using h : addr' = addr ∧ { p with oversized } = p')
    refine ⟨[], [], ⟨(List.append_nil _).symm, ?_, rfl, hcurrent⟩, ?_⟩
    · rw [List.append_nil]
      exact (Arena.map_rewound_of_bumpFirst hfirst).1
    · intro sys' blocks' oversized' bytes
      refine ⟨bytes, ?_⟩
      have hfound := Arena.bumpFirst_append_of_some hfirst oversized'
      simp only [allocOversized, stocked, List.nil_append, hfound]
  · next hfull =>
    split at h
    · next addr' a bytes₁ hopen =>
      obtain ⟨rfl, rfl⟩ := (by simpa using h :
        addr' = addr ∧ { p with oversized := p.oversized ++ [a], bytes := bytes₁ } = p')
      refine ⟨[], [a.rewound], ⟨(List.append_nil _).symm, ?_, rfl, hcurrent⟩, ?_⟩
      · rw [List.map_append, List.map_singleton]
      · intro sys' blocks' oversized' bytes
        refine ⟨bytes, ?_⟩
        -- the search comes to the block that the first run has added
        have hfound := Arena.bumpFirst_append_of_none hfull rfl (openBlock_eq_ok hopen) oversized'
        simp only [allocOversized, stocked, List.nil_append, List.singleton_append, hfound,
          List.append_assoc]
    · cases h

theorem allocInBlocks_repeats (hcurrent : p.current ≤ p.blocks.length)
    (h : allocInBlocks sys p size align = (.ok addr, p')) :
    Repeats (fun sys q => allocInBlocks sys q size align) (.ok addr) p p' := by
  unfold allocInBlocks at h
  split at h
  · next addr' skipped rest hfirst =>
    obtain ⟨rfl, rfl⟩ := (by simpa using h : addr' = addr ∧
      { p with blocks := p.blocks.take p.current ++ rest, current := p.current + skipped } = p')
    obtain ⟨hmap, hlt⟩ := Arena.map_rewound_of_bumpFirst hfirst
    refine ⟨[], [], ⟨?_, (List.append_nil _).symm, rfl, ?_⟩, ?_⟩
    · rw [List.append_nil, List.map_append, hmap, ← List.map_append, List.take_append_drop]
    · have hrest : rest.length = (p.blocks.drop p.current).length := by
        simpa using congrArg List.length hmap
      show p.current + skipped ≤ (p.blocks.take p.current ++ rest).length
      rw [List.length_append, hrest, ← List.length_append, List.take_append_drop]
      rw [List.length_drop] at hlt
      omega
    · intro sys' blocks' oversized' bytes
      refine ⟨bytes, ?_⟩
      have hfound := Arena.bumpFirst_append_of_some hfirst blocks'
      simp only [allocInBlocks, stocked, List.nil_append, List.drop_append_of_le_length hcurrent,
        List.take_append_of_le_length hcurrent, hfound, List.append_assoc]
  · next hfull =>
    split at h
    · next addr' a bytes₁ hopen =>
      obtain ⟨rfl, rfl⟩ := (by simpa using h : addr' = addr ∧
        { p with blocks := p.blocks ++ [a], current := p.blocks.length, bytes := bytes₁ } = p')
      refine ⟨[a.rewound], [], ⟨?_, (List.append_nil _).symm, rfl, ?_⟩, ?_⟩
      · rw [List.map_append, List.map_singleton]
      · exact (Nat.le_add_right _ _).trans_eq (List.length_append).symm
      · intro sys' blocks' oversized' bytes
        refine ⟨bytes, ?_⟩
        have hfound := Arena.bumpFirst_append_of_none hfull rfl (openBlock_eq_ok hopen) blocks'
        have hlength : p.current + (p.blocks.drop p.current).length = p.blocks.length := by
          rw [List.length_drop, Nat.add_sub_cancel' hcurrent]
        simp only [allocInBlocks, stocked, List.nil_append, List.singleton_append,
          List.drop_append_of_le_length hcurrent, List.take_append_of_le_length hcurrent, hfound,
          hlength, ← List.append_assoc, List.take_append_drop]
        rw [List.append_assoc, List.singleton_append]
    · cases h

/-- **One request repeats.** -/
theorem alloc_repeats (hcurrent : p.current ≤ p.blocks.length)
    (h : p.alloc sys size align = (.ok addr, p')) :
    Repeats (fun sys q => q.alloc sys size align) (.ok addr) p p' := by
  unfold Pool.alloc at h
  split_ifs at h with hbad
  · cases h
  · split at h
    · cases h
    · next padded hpadded =>
      split_ifs at h with hlarge
      · refine (allocOversized_repeats hcurrent h).congr fun _ _ _ _ => ?_
        rw [Pool.alloc, if_neg hbad]
        simp only [hpadded, stocked]
        exact if_pos hlarge
      · refine (allocInBlocks_repeats hcurrent h).congr fun _ _ _ _ => ?_
        rw [Pool.alloc, if_neg hbad]
        simp only [hpadded, stocked]
        exact if_neg hlarge

/-- **A run of requests that are all served repeats.** -/
theorem allocAll_repeats {requests : List (Nat × Nat)} {addrs : List Nat}
    (hcurrent : p.current ≤ p.blocks.length)
    (h : p.allocAll sys requests = (addrs.map .ok, p')) :
    Repeats (fun sys q => q.allocAll sys requests) (addrs.map .ok) p p' := by
  induction requests generalizing p addrs with
  | nil =>
    obtain ⟨haddrs, rfl⟩ := Prod.mk.inj h
    refine ⟨[], [], ⟨(List.append_nil _).symm, (List.append_nil _).symm, rfl, hcurrent⟩, ?_⟩
    intro sys blocks' oversized' bytes
    exact ⟨bytes, by rw [← haddrs]; rfl⟩
  | cons request rest ih =>
    obtain ⟨size, align⟩ := request
    rw [allocAll] at h
    rcases hfirst : p.alloc sys size align with ⟨answer, p₁⟩
    rcases hrest : p₁.allocAll sys rest with ⟨answers, p₂⟩
    rw [hfirst] at h
    dsimp only at h
    rw [hrest] at h
    obtain ⟨haddrs, rfl⟩ := Prod.mk.inj h
    obtain ⟨addr, addrs', rfl, rfl, rfl⟩ := List.map_eq_cons_iff.mp haddrs.symm
    obtain ⟨blocks₁, oversized₁, hadds₁, hrepeats₁⟩ := alloc_repeats hcurrent hfirst
    obtain ⟨blocks₂, oversized₂, hadds₂, hrepeats₂⟩ := ih hadds₁.current hrest
    refine ⟨_, _, hadds₁.trans hadds₂, fun sys' blocks' oversized' bytes => ?_⟩
    obtain ⟨bytes₁, hstep⟩ :=
      hrepeats₁ sys' (blocks₂ ++ blocks') (oversized₂ ++ oversized') bytes
    obtain ⟨bytes₂, hrun⟩ := hrepeats₂ sys' blocks' oversized' bytes₁
    refine ⟨bytes₂, ?_⟩
    dsimp only at hstep hrun ⊢
    rw [List.append_assoc, List.append_assoc, allocAll, hstep]
    dsimp only
    rw [hrun]
    rfl

/-- A pool that has just been created, freed or rewound. -/
inductive Idle : Pool → Prop
  | created (blockSize : Nat) : Idle (ofBlockSize blockSize)
  | freed (p : Pool) : Idle p.free
  | rewound (p : Pool) : Idle p.reset

theorem Idle.eq_rewound (h : p.Idle) :
    p.current = 0 ∧ p.blocks.map Arena.rewound = p.blocks ∧
      p.oversized.map Arena.rewound = p.oversized := by
  cases h with
  | created blockSize => exact ⟨rfl, rfl, rfl⟩
  | freed p => exact ⟨rfl, rfl, rfl⟩
  | rewound p =>
    obtain ⟨bytes, hreset, -⟩ := p.reset_eq
    have htwice : Arena.rewound ∘ Arena.rewound = Arena.rewound := funext Arena.rewound_rewound
    rw [hreset]
    simp only [List.map_map, htwice, and_self]

/-- **The same requests after a reset.**  Where a pool that was just created, freed or rewound
serves all of a list of requests, then once rewound it serves them again, at the same addresses.  It
reserves nothing for it, from whatever system, and ends with as much handed out as the first
time. -/
theorem reset_repeats {requests : List (Nat × Nat)} {addrs : List Nat} (hidle : p.Idle)
    (h : p.allocAll sys requests = (addrs.map .ok, p')) (sys' : System) :
    ∃ p'', p'.reset.allocAll sys' requests = (addrs.map .ok, p'') ∧
      p''.held = p'.held ∧ p''.size = p'.size ∧ p''.blockCount = p'.blockCount ∧
      p''.used = p'.used := by
  obtain ⟨hcurrent, hblocks, hoversized⟩ := hidle.eq_rewound
  obtain ⟨blocks, oversized, hadds, hrepeats⟩ :=
    allocAll_repeats (hcurrent.le.trans (Nat.zero_le _)) h
  obtain ⟨bytes, hreset, -⟩ := p'.reset_eq
  -- the pool rewound is the pool of the start with all that was added in stock
  have hstart : p'.reset = p.stocked (blocks ++ []) (oversized ++ []) bytes := by
    rw [hreset, hadds.blocks, hadds.oversized, hadds.blockSize, hblocks, hoversized,
      List.append_nil, List.append_nil, stocked, hcurrent]
  obtain ⟨bytes', hrun⟩ := hrepeats sys' [] [] bytes
  dsimp only at hrun
  rw [← hstart] at hrun
  refine ⟨_, hrun, ?_⟩
  simp only [held, size, blockCount, used, stocked, List.append_nil, and_self]

/-- Blocks and dedicated blocks are used again, although the system would grant no more. -/
theorem reset_repeats_mixed :
    let requests := [(24, 32), (200, 16), (60, 8), (1, 128)]
    let addrs := [65536, 131072, 196608, 262144]
    let p' := ((ofBlockSize 64).allocAll (System.sequential 4096) requests).2
    (ofBlockSize 64).allocAll (System.sequential 4096) requests = (addrs.map .ok, p') ∧
      ∃ p'', p'.reset.allocAll (System.sequential 0) requests = (addrs.map .ok, p'') ∧
        p''.held = p'.held ∧ p''.size = p'.size ∧ p''.blockCount = p'.blockCount ∧
        p''.used = p'.used := by
  intro requests addrs p'
  have hfirst : (ofBlockSize 64).allocAll (System.sequential 4096) requests =
      (addrs.map .ok, p') := by decide +kernel
  exact ⟨hfirst, reset_repeats (.created 64) hfirst (System.sequential 0)⟩

end Pool

end ManagedHost
