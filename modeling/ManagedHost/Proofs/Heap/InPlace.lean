import ManagedHost.Proofs.Heap.Decision

/-!
# Allocation in place

An allocation can be refused at several points, and what it has changed by then is not undone.  To
say that a refused one has changed nothing, it is taken apart here into the steps in which it works
on the heap: programs that update a heap and may stop, by a refusal or by a fault, with all their
updates so far in place.  Sums and differences that are not checked fault where they leave the
range, and counters wrap around.

* `InPlace.alloc_on`: on a heap with counters in range, the steps come to what `alloc` says, and if
  they are refused the heap is the one that they started from.  They never fault.
* `Region.sum_capacity_le`: regions that are apart are together no larger than the address space.
  So the counters of a heap in it are in range (`Arises.in_range`).

The main result is `Arises.alloc_decides`.
-/

namespace ManagedHost

namespace Region

/-- The addresses of the region. -/
def cells (r : Region) : List Nat := List.range' r.base r.capacity

theorem mem_cells {r : Region} {x : Nat} : x ∈ r.cells ↔ r.Holds x := by
  unfold cells Holds stop
  rw [List.mem_range'_1]

/-- **Regions that are apart** are together no larger than the space in which they lie. -/
theorem sum_capacity_le {regions : List Region} {n : Nat} (hapart : regions.Pairwise Apart)
    (hstop : ∀ r ∈ regions, r.stop ≤ n) : (regions.map Region.capacity).sum ≤ n := by
  have hnodup : (regions.flatMap cells).Nodup := by
    refine List.nodup_flatMap.mpr ⟨fun r _ => List.nodup_range', hapart.imp ?_⟩
    intro r s hrs x hr hs
    exact hrs.not_holds (mem_cells.mp hr) (mem_cells.mp hs)
  have hsub : regions.flatMap cells ⊆ List.range n := by
    intro x hx
    obtain ⟨r, hr, hxr⟩ := List.mem_flatMap.mp hx
    exact List.mem_range.mpr ((mem_cells.mp hxr).2.trans_le (hstop r hr))
  calc (regions.map Region.capacity).sum
      = (regions.flatMap cells).length := by
        rw [List.length_flatMap]
        unfold cells
        simp
    _ ≤ (List.range n).length := (List.subperm_of_subset hnodup hsub).length_le
    _ = n := List.length_range

end Region

namespace Heap

/-- Why a program stops without a result. -/
inductive Halt where
  | refused (e : AllocError)
  | fault (f : Fault)
deriving DecidableEq

/-- Programs that work on a heap in place.  What a program has changed before it stops stays
changed. -/
abbrev InPlace : Type → Type := ExceptT Halt (StateM Heap)

namespace InPlace

variable {α β : Type}

/-- What the program comes to on a heap, and the heap that it leaves behind. -/
def on (p : InPlace α) (h : Heap) : Except Halt α × Heap := p.run.run h

/-- Stop with a refusal. -/
def refuse (e : AllocError) : InPlace α := throw (.refused e)

/-- A sum that the program does not check. -/
def add (a b : Nat) : InPlace Nat :=
  match Size.add? a b with
  | some c => pure c
  | none => throw (.fault .addOverflow)

/-- A difference that the program does not check. -/
def sub (a b : Nat) : InPlace Nat :=
  if b ≤ a then pure (a - b) else throw (.fault .subtractOverflow)

/-- Add to a counter, which wraps around. -/
def wrappingAdd (a b : Nat) : Nat := (a + b) % Size.limit

/-- Subtract from a counter, which wraps around. -/
def wrappingSub (a b : Nat) : Nat := (a + (Size.limit - b)) % Size.limit

/-! ### The steps of an allocation -/

/-- Cut a piece from an arena. -/
def cut (a : Arena) (size : Nat) : InPlace (Option (Nat × Arena)) :=
  match Size.add? a.base a.cursor with
  | none => pure none
  | some top =>
    match Size.alignUp top arenaAlign with
    | none => pure none
    | some start => do
      let offset ← sub start a.base
      match Size.add? offset size with
      | none => pure none
      | some stop =>
        if stop > a.capacity then pure none else pure (some (start, { a with cursor := stop }))

/-- Walk the free list and take the first block that is large enough out of it, when the blocks
`passed` are behind. -/
def takeFree (size : Nat) (passed : List FreeBlock) : List FreeBlock → InPlace (Option FreeBlock)
  | [] => pure none
  | b :: rest =>
    if b.capacity ≥ size then do
      modify fun h => { h with free := passed ++ rest }
      modify fun h => { h with freeBlocks := wrappingSub h.freeBlocks 1 }
      pure (some b)
    else takeFree size (passed ++ [b]) rest

/-- Cut a block from the first arena with room, when the arenas `passed` are behind. -/
def cutFirst (total : Nat) (passed : List Arena) : List Arena → InPlace (Option Nat)
  | [] => pure none
  | a :: rest => do
    match ← cut a total with
    | some (start, a') =>
      modify fun h => { h with arenas := passed ++ a' :: rest }
      pure (some start)
    | none => cutFirst total (passed ++ [a]) rest

/-- Add an arena to the heap, if its limit and the system allow it, and cut a block from it. -/
def grow (sys : System) (total : Nat) : InPlace Nat := do
  let h ← get
  let capacity := max h.config.arenaSize total
  let limit := h.config.maxHeapSize
  match Size.add? h.size capacity with
  | none => refuse (.heapLimit total limit)
  | some grown =>
    if grown > limit then refuse (.heapLimit total limit)
    else
      match Arena.reserve sys h.held capacity with
      | .error e => refuse e
      | .ok fresh =>
        match ← cut fresh total with
        | none => refuse (.outOfMemory total)
        | some (start, a) =>
          modify fun h => { h with size := wrappingAdd h.size a.capacity }
          modify fun h => { h with
            arenas := h.arenas ++ [a]
            words := h.words.clear a.base (a.base + a.capacity) }
          pure start

/-- Cut a block from an arena of the heap, or else from a new one. -/
def carve (sys : System) (total : Nat) : InPlace Nat := do
  match ← cutFirst total [] (← get).arenas with
  | some start => pure start
  | none => grow sys total

/-- A block for a payload of `size` bytes. -/
def takeBlock (sys : System) (size total : Nat) : InPlace FreeBlock := do
  match ← takeFree size [] (← get).free with
  | some b =>
    modify fun h => { h with words := h.words.clear b.addr (b.addr + b.capacity) }
    pure b
  | none =>
    let start ← carve sys total
    pure ⟨start + headerSize, size⟩

/-- Put a new object into the block. -/
def register (b : FreeBlock) (type : ObjectType) (rooted : Bool) : InPlace PUnit := do
  let color := if (← get).phase = .marking then .black else .white
  modify fun h => { h with objects := ⟨b.addr, b.capacity, type, color⟩ :: h.objects }
  if rooted then modify fun h => { h with roots := h.roots.insert b.addr }

/-- Count the bytes of the block.  The usage is computed once more from the count before. -/
def count (b : FreeBlock) : InPlace Nat := do
  let footprint ← add headerSize b.capacity
  modify fun h => { h with totalAllocated := h.totalAllocated + footprint }
  let before := (← get).used
  modify fun h => { h with used := wrappingAdd h.used footprint }
  add before footprint

/-- Make a new object, step by step. -/
def alloc (sys : System) (size : Nat) (type : ObjectType) (rooted : Bool) : InPlace Nat :=
  match Size.alignUp (max size 1) arenaAlign with
  | none => refuse (.outOfMemory size)
  | some rounded =>
    match Size.add? rounded headerSize with
    | none => refuse (.outOfMemory size)
    | some total => do
      let b ← takeBlock sys rounded total
      register b type rooted
      let _ ← count b
      pure b.addr

/-! ### What the steps come to -/

section Runs

variable (h : Heap)

theorem get_on : (get : InPlace Heap).on h = (.ok h, h) := rfl

theorem modify_on (f : Heap → Heap) :
    (modify f : InPlace PUnit).on h = (.ok ⟨⟩, f h) := rfl

theorem bind_on (p : InPlace α) (k : α → InPlace β) :
    (p >>= k).on h =
      match p.on h with
      | (.ok a, h') => (k a).on h'
      | (.error e, h') => (.error e, h') := by
  unfold on
  rw [ExceptT.run_bind, StateT.run_bind]
  obtain ⟨outcome, h'⟩ := p.run.run h
  cases outcome with
  | ok a => rfl
  | error e => rfl

theorem bind_on_ok {p : InPlace α} {k : α → InPlace β} {h h' : Heap} {a : α}
    (hp : p.on h = (.ok a, h')) : (p >>= k).on h = (k a).on h' := by
  rw [bind_on, hp]

theorem bind_on_error {p : InPlace α} {k : α → InPlace β} {h h' : Heap} {e : Halt}
    (hp : p.on h = (.error e, h')) : (p >>= k).on h = (.error e, h') := by
  rw [bind_on, hp]

theorem add_on {a b : Nat} (hsum : a + b < Size.limit) : (add a b).on h = (.ok (a + b), h) := by
  unfold add
  rw [Size.add?_of_lt hsum]
  rfl

theorem sub_on {a b : Nat} (hle : b ≤ a) : (sub a b).on h = (.ok (a - b), h) := by
  unfold sub
  rw [if_pos hle]
  rfl

theorem cut_on (a : Arena) (size : Nat) :
    (cut a size).on h = (.ok (a.bump size arenaAlign), h) := by
  unfold cut Arena.bump
  cases htop : Size.add? a.base a.cursor with
  | none => rfl
  | some top =>
    dsimp only
    obtain rfl := Size.add?_eq_some htop
    rw [Option.bind_eq_bind, Option.bind_some]
    cases hstart : Size.alignUp (a.base + a.cursor) arenaAlign with
    | none => rfl
    | some start =>
      -- the piece starts at or after the cursor, so its offset is no difference below zero
      have hle : a.base ≤ start :=
        (Nat.le_add_right _ _).trans (Size.alignUp_arenaAlign hstart).2.1
      rw [bind_on_ok (sub_on h hle), Option.bind_some]
      cases Size.add? (start - a.base) size with
      | none => rfl
      | some stop =>
        rw [Option.bind_some]
        dsimp only
        split_ifs <;> rfl

theorem takeFree_on (size : Nat) (passed free : List FreeBlock) :
    (takeFree size passed free).on h =
      match takeFirstFit size free with
      | some (b, rest) => (.ok (some b), { h with
          free := passed ++ rest, freeBlocks := wrappingSub h.freeBlocks 1 })
      | none => (.ok none, h) := by
  induction free generalizing passed with
  | nil => rfl
  | cons b rest ih =>
    rw [takeFree, takeFirstFit]
    split_ifs with hfit
    · rfl
    · rw [ih]
      cases takeFirstFit size rest with
      | none => rfl
      | some found =>
        obtain ⟨b', rest'⟩ := found
        simp

theorem cutFirst_on (total : Nat) (passed arenas : List Arena) :
    (cutFirst total passed arenas).on h =
      match Arena.bumpFirst (fun _ => true) total arenaAlign arenas with
      | some (start, _, rest) => (.ok (some start), { h with arenas := passed ++ rest })
      | none => (.ok none, h) := by
  induction arenas generalizing passed with
  | nil => rfl
  | cons a rest ih =>
    rw [cutFirst, Arena.bumpFirst, bind_on_ok (cut_on h a total), if_pos rfl]
    cases a.bump total arenaAlign with
    | some made => rfl
    | none =>
      dsimp only
      rw [ih]
      cases Arena.bumpFirst (fun _ => true) total arenaAlign rest with
      | none => rfl
      | some found =>
        obtain ⟨start, skipped, rest'⟩ := found
        simp

end Runs

/-- What a program leaves behind that comes to the given outcome: the new heap, or the old one if it
is refused. -/
def settle (h : Heap) : Except AllocError (α × Heap) → Except Halt α × Heap
  | .ok (a, h') => (.ok a, h')
  | .error e => (.error (.refused e), h)

/-- **Cutting a block in place.**  The count of the bytes reserved does not wrap around if it is in
range afterwards. -/
theorem carve_on {sys : System} {h : Heap} {total : Nat}
    (hsize : ∀ start h', h.carve sys total = .ok (start, h') → h'.size < Size.limit) :
    (carve sys total).on h = settle h (h.carve sys total) := by
  unfold Heap.carve at hsize ⊢
  show (cutFirst total [] h.arenas >>= _).on h = _
  rw [bind_on, cutFirst_on]
  cases hfirst : Arena.bumpFirst (fun _ => true) total arenaAlign h.arenas with
  | some found => rfl
  | none =>
    rw [hfirst] at hsize
    dsimp only at hsize ⊢
    unfold grow
    rw [bind_on_ok (get_on h)]
    dsimp only
    cases hgrown : Size.add? h.size (max h.config.arenaSize total) with
    | none => rfl
    | some grown =>
      rw [hgrown] at hsize
      dsimp only at hsize ⊢
      split_ifs at hsize ⊢ with hlimit
      · rfl
      · cases hreserve : Arena.reserve sys h.held (max h.config.arenaSize total) with
        | error e => rfl
        | ok fresh =>
          rw [hreserve] at hsize
          dsimp only
          rw [bind_on_ok (cut_on h fresh total)]
          simp only [bind, Except.bind] at hsize ⊢
          cases hbump : fresh.bump total arenaAlign with
          | none => rfl
          | some made =>
            obtain ⟨start, a⟩ := made
            rw [hbump] at hsize
            have hlt : h.size + a.capacity < Size.limit := hsize _ _ rfl
            have hcount : wrappingAdd h.size a.capacity = h.size + a.capacity :=
              Nat.mod_eq_of_lt hlt
            show (Except.ok start, { h with
              arenas := h.arenas ++ [a]
              size := wrappingAdd h.size a.capacity
              words := h.words.clear a.base (a.base + a.capacity) }) = _
            rw [hcount]
            rfl

theorem takeBlock_on {sys : System} {h : Heap} {size total : Nat}
    (hfree : ∀ found, takeFirstFit size h.free = some found →
      wrappingSub h.freeBlocks 1 = h.freeBlocks - 1)
    (hsize : ∀ b h', h.takeBlock sys size total = .ok (b, h') → h'.size < Size.limit) :
    (takeBlock sys size total).on h = settle h (h.takeBlock sys size total) := by
  unfold Heap.takeBlock at hsize ⊢
  show (takeFree size [] h.free >>= _).on h = _
  rw [bind_on, takeFree_on]
  cases hfit : takeFirstFit size h.free with
  | some found =>
    obtain ⟨b, rest⟩ := found
    dsimp only
    rw [hfree _ hfit]
    rfl
  | none =>
    rw [hfit] at hsize
    dsimp only at hsize ⊢
    have hcarve : (carve sys total).on h = settle h (h.carve sys total) := by
      refine carve_on fun start h' hok => hsize ⟨start + headerSize, size⟩ h' ?_
      rw [hok]
      rfl
    rw [bind_on, hcarve]
    cases h.carve sys total with
    | ok made => rfl
    | error e => rfl

theorem register_on (h : Heap) (b : FreeBlock) (type : ObjectType) (rooted : Bool) :
    (register b type rooted).on h = (.ok ⟨⟩, { h with
      objects :=
        ⟨b.addr, b.capacity, type, if h.phase = .marking then .black else .white⟩ :: h.objects
      roots := if rooted then h.roots.insert b.addr else h.roots }) := by
  cases rooted <;> rfl

theorem count_on {h : Heap} {b : FreeBlock} (hused : h.used + b.footprint < Size.limit) :
    (count b).on h = (.ok (h.used + b.footprint), { h with
      used := h.used + b.footprint
      totalAllocated := h.totalAllocated + b.footprint }) := by
  have hfootprint : headerSize + b.capacity < Size.limit :=
    Nat.lt_of_le_of_lt (Nat.le_add_left _ _) hused
  have hcount : (h.used + b.footprint) % Size.limit = h.used + b.footprint := Nat.mod_eq_of_lt hused
  unfold count wrappingAdd
  rw [bind_on_ok (add_on h hfootprint), bind_on_ok (modify_on _ _), bind_on_ok (get_on _),
    bind_on_ok (modify_on _ _)]
  refine (add_on _ hused).trans ?_
  rw [← hcount]
  rfl

/-- The counters of the heap are in range. -/
structure InRange (h : Heap) : Prop where
  size : h.size < Size.limit
  used : h.used < Size.limit
  freeBlocks : h.freeBlocks < Size.limit

theorem wrappingSub_one {a : Nat} (hpos : 1 ≤ a) (hlt : a < Size.limit) :
    wrappingSub a 1 = a - 1 := by
  have hturn : a + (Size.limit - 1) = (a - 1) + Size.limit := by omega
  unfold wrappingSub
  rw [hturn, Nat.add_mod_right, Nat.mod_eq_of_lt (by omega)]

/-- **Allocation in place** comes to what `alloc` says.  It does not fault, and one that is refused
leaves the heap as it was. -/
theorem alloc_on {sys : System} {h : Heap} {size : Nat} {type : ObjectType} {rooted : Bool}
    (before : InRange h)
    (hfree : ∀ size found, takeFirstFit size h.free = some found → 1 ≤ h.freeBlocks)
    (after : ∀ addr h', h.alloc sys size type rooted = .ok (addr, h') → InRange h') :
    (alloc sys size type rooted).on h = settle h (h.alloc sys size type rooted) := by
  unfold alloc
  unfold Heap.alloc at after ⊢
  cases hrounded : Size.alignUp (max size 1) arenaAlign with
  | none => rfl
  | some rounded =>
    rw [hrounded] at after
    dsimp only at after ⊢
    cases htotal : Size.add? rounded headerSize with
    | none => rfl
    | some total =>
      rw [htotal] at after
      dsimp only at after ⊢
      have htake : (takeBlock sys rounded total).on h =
          settle h (h.takeBlock sys rounded total) := by
        refine takeBlock_on (fun found hfound => ?_) fun b h₁ hok => ?_
        · exact wrappingSub_one (hfree _ found hfound) before.freeBlocks
        · rw [hok] at after
          exact (after _ _ rfl).size
      cases hok : h.takeBlock sys rounded total with
      | error e =>
        rw [hok] at htake
        rw [bind_on_error htake]
        rfl
      | ok made =>
        obtain ⟨b, h₁⟩ := made
        rw [hok] at htake after
        have hused : h₁.used + b.footprint < Size.limit := (after _ _ rfl).used
        rw [bind_on_ok htake, bind_on_ok (register_on h₁ b type rooted)]
        refine (bind_on_ok (count_on ?_)).trans ?_
        · exact hused
        · rfl

end InPlace

/-! ### The counters are in range -/

theorem Obtains.held_lt {sys : System} {h h' : Heap} {size : Nat} {b : FreeBlock}
    (hb : Obtains sys h size b h') (room : sys.Addressable h.held) :
    ∀ r ∈ h'.held, r.stop < Size.limit := by
  cases hb with
  | reused => exact room.present
  | @carved start a a' before after harenas hbump =>
    -- the arena that was cut still covers the same region
    have hregion : a'.region = a.region := Arena.bump_region hbump
    have hheld : List.map Arena.region (before ++ a' :: after) = h.held := by
      unfold held
      rw [harenas, List.map_append, List.map_append, List.map_cons, List.map_cons, hregion]
    show ∀ r ∈ List.map Arena.region (before ++ a' :: after), r.stop < Size.limit
    rw [hheld]
    exact room.present
  | @grown start a a' hreserve hbump =>
    intro r hr
    have hheld : r ∈ List.map Arena.region (h.arenas ++ [a']) := hr
    rw [List.map_append, List.map_singleton, Arena.bump_region hbump] at hheld
    rcases List.mem_append.mp hheld with hr | hr
    · exact room.present r hr
    · rw [List.mem_singleton.mp hr]
      exact Arena.reserve_stop_lt room hreserve

theorem sum_cursor_le {arenas : List Arena} (hroom : ∀ a ∈ arenas, a.cursor ≤ a.capacity) :
    (arenas.map Arena.cursor).sum ≤ (arenas.map Arena.capacity).sum :=
  List.sum_le_sum hroom

/-- **The counters of a heap in the address space are in range**: what they count are bytes of its
arenas, or blocks there. -/
theorem Arises.in_range {sys : System} (sound : sys.Sound) {h : Heap} (arises : Arises sys h)
    (hheld : ∀ r ∈ h.held, r.stop < Size.limit) : InPlace.InRange h := by
  have bal := arises.balanced sound
  have hcapacity : (h.arenas.map Arena.capacity).sum ≤ Size.limit - 1 := by
    have hsum := Region.sum_capacity_le bal.tiled.arenasApart fun r hr =>
      Nat.le_sub_one_of_lt (hheld r hr)
    rwa [List.map_map] at hsum
  have hcursors : (h.arenas.map Arena.cursor).sum ≤ (h.arenas.map Arena.capacity).sum :=
    sum_cursor_le bal.tiled.room
  have hblocks : (h.arenas.map Arena.cursor).sum =
      0 + (h.used + (h.free.map FreeBlock.footprint).sum) := by
    rw [show h.used = _ from bal.used]
    exact bal.cursors
  have hfree : h.freeBlocks ≤ (h.free.map FreeBlock.footprint).sum := by
    rw [show h.freeBlocks = h.free.length from bal.freeBlocks]
    have hpos : ∀ n ∈ h.free.map FreeBlock.footprint, 1 ≤ n := by
      intro n hn
      obtain ⟨b, -, rfl⟩ := List.mem_map.mp hn
      exact Nat.le_add_right_of_le (by decide)
    simpa using List.length_le_sum_of_one_le _ hpos
  have hlimit : 0 < Size.limit := by decide
  have hsize : h.size = (h.arenas.map Arena.capacity).sum := bal.size
  exact ⟨by omega, by omega, by omega⟩

/-! ### Every heap -/

/-- **What becomes of a request, in every heap that arises**, in the middle of a cycle too, and for
every size: `Decides` says which of the places serves it or which failure it comes to, and nothing
else can happen.  Carried out in place, it does not fault, and where it is refused it leaves the
objects, roots, free blocks, arenas and counters as they were. -/
theorem Arises.alloc_decides {sys : System} (sound : sys.Sound) {h : Heap}
    (arises : Arises sys h) (room : sys.Addressable h.held) (size : Nat) (type : ObjectType)
    (rooted : Bool) :
    (∀ result, h.alloc sys size type rooted = result ↔ Decides sys h size type rooted result) ∧
      ((∃ addr h', h.alloc sys size type rooted = .ok (addr, h') ∧
          (InPlace.alloc sys size type rooted).on h = (.ok addr, h')) ∨
        ∃ e, h.alloc sys size type rooted = .error e ∧
          (InPlace.alloc sys size type rooted).on h = (.error (.refused e), h)) := by
  have bal := arises.balanced sound
  refine ⟨fun result => (Decides.iff_alloc_eq sound bal.tiled room).symm, ?_⟩
  have hinPlace : (InPlace.alloc sys size type rooted).on h =
      InPlace.settle h (h.alloc sys size type rooted) := by
    refine InPlace.alloc_on (arises.in_range sound room.present)
      (fun size found hfit => bal.freeBlocks_pos hfit) fun addr h' hok => ?_
    have harises : Arises sys h' := by
      have hcall := arises.call (.alloc size type rooted)
      simp only [perform, hok] at hcall
      exact hcall
    obtain ⟨rounded, b, h₁, -, hblock, -, rfl⟩ := alloc_eq_ok hok
    exact harises.in_range sound (hblock.held_lt room)
  cases hok : h.alloc sys size type rooted with
  | ok made =>
    obtain ⟨addr, h'⟩ := made
    rw [hok] at hinPlace
    exact Or.inl ⟨addr, h', rfl, hinPlace⟩
  | error e =>
    rw [hok] at hinPlace
    exact Or.inr ⟨e, rfl, hinPlace⟩

/-- In `recycled`, a small request gets the free block, and one for all addresses is refused. -/
theorem recycled_alloc_decides :
    let plain := ObjectType.plain "plain" 0
    (∃ h', recycled.alloc .sequential 9 plain true = .ok (65792, h') ∧
        (InPlace.alloc .sequential 9 plain true).on recycled = (.ok 65792, h')) ∧
      (InPlace.alloc .sequential (2 ^ 64 - 1) plain true).on recycled =
        (.error (.refused (.outOfMemory (2 ^ 64 - 1))), recycled) := by
  intro plain
  have sound : System.sequential.Sound := System.sequential_sound _ _
  obtain ⟨log, hist⟩ : ∃ log, History .sequential log recycled := (History.start {} .listed).run _
  have room : System.sequential.Addressable recycled.held := by
    have hheld : recycled.held = [⟨65536, 65536⟩] := by decide
    rw [hheld]
    refine ⟨by decide, fun size hsize => ?_⟩
    have hplace : System.sequential.place [⟨65536, 65536⟩] size = 196608 := rfl
    have hle : size ≤ 2 ^ 30 := hsize
    rw [hplace]
    exact Nat.lt_of_le_of_lt (Nat.add_le_add_left hle _) (by decide)
  constructor
  · obtain ⟨hiff, hrun⟩ := hist.arises.alloc_decides sound room 9 plain true
    have hfree : recycled.free = [] ++ ⟨65792, 16⟩ :: [] := by decide
    have hok := (hiff _).mpr (.reused (by decide) hfree (by simp) (by decide))
    rcases hrun with ⟨addr, h', hok', hon⟩ | ⟨e, herror, -⟩
    · obtain ⟨rfl, rfl⟩ := Prod.mk.inj (Except.ok.inj (hok.symm.trans hok'))
      exact ⟨_, hok', hon⟩
    · rw [hok] at herror
      cases herror
  · obtain ⟨hiff, hrun⟩ := hist.arises.alloc_decides sound room (2 ^ 64 - 1) plain true
    have herror := (hiff _).mpr (.tooLarge (Or.inl (by decide)))
    rcases hrun with ⟨addr, h', hok, -⟩ | ⟨e, herror', hon⟩
    · rw [herror] at hok
      cases hok
    · obtain rfl := Except.error.inj (herror.symm.trans herror')
      exact hon

end Heap

end ManagedHost
