import ManagedHost.Proofs.Heap.Limit

/-!
# What becomes of a request for memory

A heap looks for room in four places, one after the other: on the free list, in its arenas, within
its limit for a new arena, and at the system that provides one.  `Decides` says which place serves a
request, and which failure it comes to otherwise, by conditions on the heap as it is before.

* `Arena.bump_eq`: in an arena whose cursor is aligned, a piece fits exactly if it is no larger than
  what remains.  That takes the arena to lie in the address space, as `System.Addressable` says.
* `Decides.alloc_eq`: each of the conditions makes `alloc` do what `Decides` says.
* `exists_decides`: one of the conditions holds.

Together these determine `alloc`: `Decides.iff_alloc_eq`.
-/

namespace ManagedHost

namespace Size

/-- The least multiple of `arenaAlign` that is at least `n`, however large. -/
def roundUp (n : Nat) : Nat := arenaAlign * ((n + (arenaAlign - 1)) / arenaAlign)

/-- Rounding up to `arenaAlign` fails exactly if the result leaves the range: the range ends at a
multiple of `arenaAlign`. -/
theorem alignUp_eq_roundUp (n : Nat) :
    alignUp n arenaAlign = if roundUp n < limit then some (roundUp n) else none := by
  have h16 : arenaAlign = 2 ^ 4 := rfl
  have hlimit : limit = 16 * 1152921504606846976 := rfl
  have hiff : n + (2 ^ 4 - 1) < limit ↔ 2 ^ 4 * ((n + (2 ^ 4 - 1)) / 2 ^ 4) < limit := by omega
  unfold roundUp
  rw [h16, alignUp_two_pow]
  simp only [hiff]

theorem roundUp_of_dvd {n : Nat} (hn : arenaAlign ∣ n) : roundUp n = n := by
  unfold roundUp
  unfold arenaAlign at hn ⊢
  omega

theorem add?_eq_none {a b : Nat} : add? a b = none ↔ limit ≤ a + b := by
  unfold add?
  split_ifs with h
  · simpa using h
  · simpa using h

theorem add?_of_lt {a b : Nat} (h : a + b < limit) : add? a b = some (a + b) := if_pos h

end Size

/-- **The address space suffices**: no region that is held ends beyond it, and neither would the
next one that the system does not refuse. -/
structure System.Addressable (sys : System) (held : List Region) : Prop where
  present : ∀ r ∈ held, r.stop < Size.limit
  next : ∀ size ≤ sys.limit, sys.place held size + size < Size.limit

namespace Arena

/-- **Cutting a piece where the cursor stands at an aligned address** succeeds exactly if the piece
fits in what remains. -/
theorem bump_eq {a : Arena} (haligned : arenaAlign ∣ a.base + a.cursor)
    (hroom : a.cursor ≤ a.capacity) (hstop : a.region.stop < Size.limit) (size : Nat) :
    a.bump size arenaAlign = if size ≤ a.remaining then
      some (a.base + a.cursor, { a with cursor := a.cursor + size }) else none := by
  have hstop' : a.base + a.capacity < Size.limit := hstop
  have htop : a.base + a.cursor < Size.limit := by omega
  have hstart : Size.alignUp (a.base + a.cursor) arenaAlign = some (a.base + a.cursor) := by
    rw [Size.alignUp_eq_roundUp, Size.roundUp_of_dvd haligned, if_pos htop]
  unfold bump remaining
  rw [Size.add?_of_lt htop]
  simp only [Option.bind_eq_bind, Option.bind_some, hstart, Nat.add_sub_cancel_left]
  by_cases hsum : a.cursor + size < Size.limit
  · rw [Size.add?_of_lt hsum, Option.bind_some]
    split_ifs <;> first | rfl | omega
  · rw [Size.add?_eq_none.mpr (Nat.le_of_not_lt hsum), Option.bind_none, if_neg (by omega)]

/-- The first arena that can hand out the piece does so. -/
theorem bumpFirst_append {before after : List Arena} {a a' : Arena} {size align start : Nat}
    (hbefore : ∀ c ∈ before, c.bump size align = none)
    (hbump : a.bump size align = some (start, a')) :
    bumpFirst (fun _ => true) size align (before ++ a :: after) =
      some (start, before.length, before ++ a' :: after) := by
  induction before with
  | nil => simp [bumpFirst, hbump]
  | cons c rest ih =>
    have hc : c.bump size align = none := hbefore c List.mem_cons_self
    have hrest := ih fun d hd => hbefore d (List.mem_cons_of_mem _ hd)
    simp [bumpFirst, hc, hrest]

theorem bumpFirst_eq_none {arenas : List Arena} {size align : Nat}
    (hnone : ∀ c ∈ arenas, c.bump size align = none) :
    bumpFirst (fun _ => true) size align arenas = none := by
  induction arenas with
  | nil => rfl
  | cons c rest ih =>
    have hc : c.bump size align = none := hnone c List.mem_cons_self
    have hrest := ih fun d hd => hnone d (List.mem_cons_of_mem _ hd)
    simp [bumpFirst, hc, hrest]

/-- A reservation is refused for want of memory only. -/
theorem reserve_eq_error {sys : System} {held : List Region} {capacity : Nat} {e : AllocError}
    (h : reserve sys held capacity = .error e) : ∃ n, e = .outOfMemory n := by
  unfold reserve at h
  split at h
  · exact ⟨_, (Except.error.inj h).symm⟩
  · split_ifs at h
    · exact ⟨_, (Except.error.inj h).symm⟩
    · exact ⟨_, (Except.error.inj h).symm⟩

theorem reserve_le_limit {sys : System} {held : List Region} {capacity : Nat} {a : Arena}
    (h : reserve sys held capacity = .ok a) : a.capacity ≤ sys.limit := by
  unfold reserve at h
  split at h
  · cases h
  · split_ifs at h with hlarge hlimit
    obtain rfl := Except.ok.inj h
    exact Nat.le_of_not_gt hlimit

theorem reserve_stop_lt {sys : System} {held : List Region} (room : sys.Addressable held)
    {capacity : Nat} {a : Arena} (h : reserve sys held capacity = .ok a) :
    a.region.stop < Size.limit := by
  obtain ⟨ha, -⟩ := reserve_eq_ok h
  have hbase : a.base = sys.place held a.capacity := by rw [ha]
  have hnext := room.next a.capacity (reserve_le_limit h)
  rwa [← hbase] at hnext

/-- **A new arena** holds any piece up to the capacity asked for. -/
theorem reserve_bump {sys : System} (sound : sys.Sound) {held : List Region}
    (room : sys.Addressable held) {capacity size : Nat} {a : Arena}
    (h : reserve sys held capacity = .ok a) (hsize : size ≤ capacity) :
    a.bump size arenaAlign = some (a.base, { a with cursor := size }) := by
  obtain ⟨ha, -, hcapacity, -⟩ := reserve_eq_ok h
  have hcursor : a.cursor = 0 := by rw [ha]
  have haligned : arenaAlign ∣ a.base + a.cursor := by
    rw [ha]
    exact sound.aligned _ _
  rw [bump_eq haligned (hcursor ▸ Nat.zero_le _) (reserve_stop_lt room h), if_pos, hcursor]
  · simp
  · unfold remaining
    omega

end Arena

namespace Heap

/-! ### Sizes -/

/-- Bytes of payload for a request: at least one, rounded up. -/
def payloadSize (size : Nat) : Nat := Size.roundUp (max size 1)

/-- Bytes that a block for the request takes in an arena, its header included. -/
def blockSize (size : Nat) : Nat := payloadSize size + headerSize

/-- Bytes that the heap asks the system for when it has to grow for the request. -/
def growth (h : Heap) (size : Nat) : Nat := max h.config.arenaSize (blockSize size)

/-! ### The decision -/

/-- Nothing that the heap has can hold the request. -/
structure Exhausted (h : Heap) (size : Nat) : Prop where
  inRange : blockSize size < Size.limit
  free : ∀ c ∈ h.free, c.capacity < payloadSize size
  arenas : ∀ a ∈ h.arenas, a.remaining < blockSize size

/-- **What a request comes to.** -/
inductive Decides (sys : System) (h : Heap) (size : Nat) (type : ObjectType) (rooted : Bool) :
    Except AllocError (Nat × Heap) → Prop where
  /-- The size of the payload, or of the block, is out of range. -/
  | tooLarge (hlarge : Size.limit ≤ payloadSize size ∨ Size.limit ≤ payloadSize size + headerSize) :
      Decides sys h size type rooted (.error (.outOfMemory size))
  /-- The first free block that is large enough, wiped; the others keep their order. -/
  | reused {b : FreeBlock} {before after : List FreeBlock} (hsize : blockSize size < Size.limit)
      (hfree : h.free = before ++ b :: after) (hfirst : ∀ c ∈ before, c.capacity < payloadSize size)
      (hfit : payloadSize size ≤ b.capacity) :
      Decides sys h size type rooted (.ok (b.addr, occupy { h with
        free := before ++ after
        freeBlocks := h.freeBlocks - 1
        words := h.words.clear b.addr (b.addr + b.capacity) } b type rooted))
  /-- The first arena in which enough remains: the block starts at its cursor. -/
  | cut {a : Arena} {before after : List Arena} (hsize : blockSize size < Size.limit)
      (hfree : ∀ c ∈ h.free, c.capacity < payloadSize size)
      (harenas : h.arenas = before ++ a :: after)
      (hfirst : ∀ c ∈ before, c.remaining < blockSize size)
      (hroom : blockSize size ≤ a.remaining) :
      Decides sys h size type rooted (.ok (a.base + a.cursor + headerSize, occupy { h with
        arenas := before ++ { a with cursor := a.cursor + blockSize size } :: after }
          ⟨a.base + a.cursor + headerSize, payloadSize size⟩ type rooted))
  /-- The heap would exceed its limit. -/
  | overLimit (exhausted : h.Exhausted size)
      (hlimit : Size.limit ≤ h.size + h.growth size ∨
        h.config.maxHeapSize < h.size + h.growth size) :
      Decides sys h size type rooted (.error (.heapLimit (blockSize size) h.config.maxHeapSize))
  /-- The system refuses to provide a new arena. -/
  | refused {n : Nat} (exhausted : h.Exhausted size) (hrange : h.size + h.growth size < Size.limit)
      (hwithin : h.size + h.growth size ≤ h.config.maxHeapSize)
      (hreserve : Arena.reserve sys h.held (h.growth size) = .error (.outOfMemory n)) :
      Decides sys h size type rooted (.error (.outOfMemory n))
  /-- A new arena, zeroed: the block starts at its base. -/
  | grown {a : Arena} (exhausted : h.Exhausted size)
      (hrange : h.size + h.growth size < Size.limit)
      (hwithin : h.size + h.growth size ≤ h.config.maxHeapSize)
      (hreserve : Arena.reserve sys h.held (h.growth size) = .ok a) :
      Decides sys h size type rooted (.ok (a.base + headerSize, occupy { h with
        arenas := h.arenas ++ [{ a with cursor := blockSize size }]
        size := h.size + a.capacity
        words := h.words.clear a.base (a.base + a.capacity) }
          ⟨a.base + headerSize, payloadSize size⟩ type rooted))

/-! ### The free list -/

theorem takeFirstFit_append {before after : List FreeBlock} {b : FreeBlock} {size : Nat}
    (hbefore : ∀ c ∈ before, c.capacity < size) (hfit : size ≤ b.capacity) :
    takeFirstFit size (before ++ b :: after) = some (b, before ++ after) := by
  induction before with
  | nil => simp [takeFirstFit, hfit]
  | cons c rest ih =>
    have hc : ¬ c.capacity ≥ size := Nat.not_le_of_lt (hbefore c List.mem_cons_self)
    have hrest := ih fun d hd => hbefore d (List.mem_cons_of_mem _ hd)
    simp [takeFirstFit, hc, hrest]

theorem takeFirstFit_eq_none {free : List FreeBlock} {size : Nat}
    (hsmall : ∀ c ∈ free, c.capacity < size) : takeFirstFit size free = none := by
  induction free with
  | nil => rfl
  | cons c rest ih =>
    have hc : ¬ c.capacity ≥ size := Nat.not_le_of_lt (hsmall c List.mem_cons_self)
    have hrest := ih fun d hd => hsmall d (List.mem_cons_of_mem _ hd)
    simp [takeFirstFit, hc, hrest]

/-! ### How the decision is carried out -/

section Carried

variable {sys : System} {h : Heap} {size : Nat} {type : ObjectType} {rooted : Bool}

/-- Where the size is in range, an allocation takes a block and puts an object into it. -/
theorem alloc_of_lt (hsize : blockSize size < Size.limit) :
    h.alloc sys size type rooted = (h.takeBlock sys (payloadSize size) (blockSize size)).map
      fun (b, h₁) => (b.addr, h₁.occupy b type rooted) := by
  have hpayload : payloadSize size < Size.limit := Nat.lt_of_add_right_lt hsize
  have hround : Size.alignUp (max size 1) arenaAlign = some (payloadSize size) := by
    rw [Size.alignUp_eq_roundUp]
    exact if_pos hpayload
  unfold alloc
  rw [hround]
  dsimp only
  rw [Size.add?_of_lt hsize]
  show _ = (h.takeBlock sys (payloadSize size) (payloadSize size + headerSize)).map _
  dsimp only
  cases h.takeBlock sys (payloadSize size) (payloadSize size + headerSize) with
  | error e => rfl
  | ok made => rfl

theorem alloc_of_limit_le (hlarge : Size.limit ≤ payloadSize size ∨
    Size.limit ≤ payloadSize size + headerSize) :
    h.alloc sys size type rooted = .error (.outOfMemory size) := by
  have hround := Size.alignUp_eq_roundUp (max size 1)
  unfold alloc
  by_cases hpayload : payloadSize size < Size.limit
  · have hsum : Size.limit ≤ payloadSize size + headerSize :=
      hlarge.resolve_left (Nat.not_le_of_lt hpayload)
    rw [hround]
    unfold payloadSize at hpayload hsum
    rw [if_pos hpayload]
    dsimp only
    rw [Size.add?_eq_none.mpr hsum]
  · rw [hround]
    unfold payloadSize at hpayload
    rw [if_neg hpayload]

theorem takeBlock_of_small {total : Nat} (hfree : ∀ c ∈ h.free, c.capacity < size) :
    h.takeBlock sys size total = (h.carve sys total).map
      fun (start, h₁) => (⟨start + headerSize, size⟩, h₁) := by
  unfold takeBlock
  rw [takeFirstFit_eq_none hfree]
  dsimp only
  cases h.carve sys total with
  | error e => rfl
  | ok made => rfl

/-- In a heap whose blocks tile its arenas, an arena can hand out what remains of it. -/
theorem bump_eq_of_tiled {blocks : List FreeBlock} (t : Tiled h.arenas blocks)
    (room : sys.Addressable h.held) {a : Arena} (ha : a ∈ h.arenas) (total : Nat) :
    a.bump total arenaAlign = if total ≤ a.remaining then
      some (a.base + a.cursor, { a with cursor := a.cursor + total }) else none :=
  Arena.bump_eq (Nat.dvd_add (t.base a ha) (t.cursor a ha)) (t.room a ha)
    (room.present _ (List.mem_map_of_mem ha)) total

theorem bumpFirst_of_exhausted {blocks : List FreeBlock} (t : Tiled h.arenas blocks)
    (room : sys.Addressable h.held) (exhausted : h.Exhausted size) :
    Arena.bumpFirst (fun _ => true) (blockSize size) arenaAlign h.arenas = none :=
  Arena.bumpFirst_eq_none fun a ha => by
    rw [bump_eq_of_tiled t room ha]
    exact if_neg (Nat.not_le_of_lt (exhausted.arenas a ha))

/-- **Growing**: within the limit, the outcome is that of the reservation.  A block always fits in
the new arena. -/
theorem carve_of_exhausted {blocks : List FreeBlock} (sound : sys.Sound)
    (t : Tiled h.arenas blocks) (room : sys.Addressable h.held) (exhausted : h.Exhausted size) :
    h.carve sys (blockSize size) =
      if h.size + h.growth size < Size.limit ∧ h.size + h.growth size ≤ h.config.maxHeapSize then
        (Arena.reserve sys h.held (h.growth size)).map fun a =>
          (a.base, { h with
            arenas := h.arenas ++ [{ a with cursor := blockSize size }]
            size := h.size + a.capacity
            words := h.words.clear a.base (a.base + a.capacity) })
      else .error (.heapLimit (blockSize size) h.config.maxHeapSize) := by
  have hgrowth : max h.config.arenaSize (blockSize size) = h.growth size := rfl
  unfold carve
  rw [bumpFirst_of_exhausted t room exhausted]
  dsimp only
  rw [hgrowth]
  by_cases hrange : h.size + h.growth size < Size.limit
  · rw [Size.add?_of_lt hrange]
    dsimp only
    by_cases hwithin : h.size + h.growth size ≤ h.config.maxHeapSize
    · rw [if_neg (Nat.not_lt_of_le hwithin), if_pos ⟨hrange, hwithin⟩]
      show Arena.reserve sys h.held (h.growth size) >>= _ = _
      cases hreserve : Arena.reserve sys h.held (h.growth size) with
      | error e => rfl
      | ok a =>
        have hbump := Arena.reserve_bump sound room hreserve (Nat.le_max_right _ _)
        simp only [bind, Except.bind, Except.map, hbump]
    · rw [if_pos (Nat.lt_of_not_le hwithin), if_neg fun hboth => hwithin hboth.2]
  · rw [Size.add?_eq_none.mpr (Nat.le_of_not_lt hrange), if_neg fun hboth => hrange hboth.1]

/-- **Each condition makes `alloc` do what is decided.** -/
theorem Decides.alloc_eq {blocks : List FreeBlock} (sound : sys.Sound)
    (t : Tiled h.arenas blocks) (room : sys.Addressable h.held)
    {result : Except AllocError (Nat × Heap)} (decides : Decides sys h size type rooted result) :
    h.alloc sys size type rooted = result := by
  cases decides with
  | tooLarge hlarge => exact alloc_of_limit_le hlarge
  | reused hsize hfree hfirst hfit =>
    rw [alloc_of_lt hsize]
    unfold takeBlock
    rw [hfree, takeFirstFit_append hfirst hfit]
    rfl
  | @cut a before after hsize hfree harenas hfirst hroom =>
    have hmem : ∀ c ∈ before ++ [a], c ∈ h.arenas := by
      intro c hc
      rw [harenas]
      rcases List.mem_append.mp hc with hc | hc
      · exact List.mem_append_left _ hc
      · rw [List.mem_singleton.mp hc]
        exact List.mem_append_right _ List.mem_cons_self
    have hbefore : ∀ c ∈ before, c.bump (blockSize size) arenaAlign = none := by
      intro c hc
      rw [bump_eq_of_tiled t room (hmem c (List.mem_append_left _ hc))]
      exact if_neg (Nat.not_le_of_lt (hfirst c hc))
    have hbump : a.bump (blockSize size) arenaAlign =
        some (a.base + a.cursor, { a with cursor := a.cursor + blockSize size }) := by
      rw [bump_eq_of_tiled t room (hmem a (List.mem_append_right _ List.mem_cons_self))]
      exact if_pos hroom
    have hcarve : h.carve sys (blockSize size) = .ok (a.base + a.cursor, { h with
        arenas := before ++ { a with cursor := a.cursor + blockSize size } :: after }) := by
      unfold carve
      rw [harenas, Arena.bumpFirst_append hbefore hbump]
    rw [alloc_of_lt hsize, takeBlock_of_small hfree, hcarve]
    rfl
  | overLimit exhausted hlimit =>
    have hover : ¬ (h.size + h.growth size < Size.limit ∧
        h.size + h.growth size ≤ h.config.maxHeapSize) := by omega
    rw [alloc_of_lt exhausted.inRange, takeBlock_of_small exhausted.free,
      carve_of_exhausted sound t room exhausted, if_neg hover]
    rfl
  | refused exhausted hrange hwithin hreserve =>
    rw [alloc_of_lt exhausted.inRange, takeBlock_of_small exhausted.free,
      carve_of_exhausted sound t room exhausted, if_pos ⟨hrange, hwithin⟩, hreserve]
    rfl
  | grown exhausted hrange hwithin hreserve =>
    rw [alloc_of_lt exhausted.inRange, takeBlock_of_small exhausted.free,
      carve_of_exhausted sound t room exhausted, if_pos ⟨hrange, hwithin⟩, hreserve]
    rfl

/-- **One of the conditions holds**, in the order in which the heap tries them. -/
theorem exists_decides (sys : System) (h : Heap) (size : Nat) (type : ObjectType)
    (rooted : Bool) : ∃ result, Decides sys h size type rooted result := by
  by_cases hsize : blockSize size < Size.limit
  case neg => exact ⟨_, .tooLarge (Or.inr (Nat.le_of_not_lt hsize))⟩
  cases hfind : h.free.find? fun b => payloadSize size ≤ b.capacity with
  | some b =>
    obtain ⟨hfit, before, after, hfree, hfirst⟩ := List.find?_eq_some_iff_append.mp hfind
    refine ⟨_, .reused hsize hfree (fun c hc => ?_) (by simpa using hfit)⟩
    simpa using hfirst c hc
  | none =>
    have hfree : ∀ c ∈ h.free, c.capacity < payloadSize size := by
      simpa using List.find?_eq_none.mp hfind
    cases hroomy : h.arenas.find? fun a => blockSize size ≤ a.remaining with
    | some a =>
      obtain ⟨hroom, before, after, harenas, hfirst⟩ := List.find?_eq_some_iff_append.mp hroomy
      refine ⟨_, .cut hsize hfree harenas (fun c hc => ?_) (by simpa using hroom)⟩
      simpa using hfirst c hc
    | none =>
      have exhausted : h.Exhausted size :=
        ⟨hsize, hfree, by simpa using List.find?_eq_none.mp hroomy⟩
      by_cases hlimit : Size.limit ≤ h.size + h.growth size ∨
          h.config.maxHeapSize < h.size + h.growth size
      case pos => exact ⟨_, .overLimit exhausted hlimit⟩
      obtain ⟨hrange, hwithin⟩ := not_or.mp hlimit
      cases hreserve : Arena.reserve sys h.held (h.growth size) with
      | error e =>
        obtain ⟨n, rfl⟩ := Arena.reserve_eq_error hreserve
        exact ⟨_, .refused exhausted (Nat.lt_of_not_le hrange) (Nat.le_of_not_lt hwithin) hreserve⟩
      | ok a =>
        exact ⟨_, .grown exhausted (Nat.lt_of_not_le hrange) (Nat.le_of_not_lt hwithin) hreserve⟩

/-- **The decision is what `alloc` does**: it comes to the result of the one condition that
holds. -/
theorem Decides.iff_alloc_eq {blocks : List FreeBlock} (sound : sys.Sound)
    (t : Tiled h.arenas blocks) (room : sys.Addressable h.held)
    {result : Except AllocError (Nat × Heap)} :
    Decides sys h size type rooted result ↔ h.alloc sys size type rooted = result := by
  refine ⟨fun decides => decides.alloc_eq sound t room, ?_⟩
  rintro rfl
  obtain ⟨result, decides⟩ := exists_decides sys h size type rooted
  rwa [decides.alloc_eq sound t room]

end Carried

end Heap

end ManagedHost
