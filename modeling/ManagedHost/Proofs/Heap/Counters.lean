import ManagedHost.Proofs.Heap.Interleaving
import Mathlib.Algebra.BigOperators.Group.List.Basic
import Mathlib.Algebra.Order.BigOperators.Group.List

/-!
# The counters of a heap

A heap keeps counters of what it holds, and each is updated where the thing that it counts changes.
`Books.Balanced` says what they have to do with the blocks and the arenas:

* `used` is the footprint of the live objects, and what was allocated less what was freed;
* `freeBlocks` is the length of the free list, and `size` the capacity of all arenas;
* the cursors of the arenas add up to the footprint of all blocks, live and free;
* the pauses remembered are the last `pauseHistoryLength` ones.

Marking changes colors and the gray queue, and stores change words: none of this is in the `books`
of a heap (`books_drain`, `books_writeWord`).  What is left are two steps, an object that is made
(`Obtains.balanced`, `Books.Balanced.occupy`) and a sweep (`Books.Balanced.sweep`).

`Arises` has the heaps in the middle of a cycle among the others, and `Arises.counters_agree` is
the main result.  That no subtraction of the program goes below zero is a part of it.
-/

namespace ManagedHost

namespace Heap

/-! ### The books -/

/-- The part of a heap that its counters speak of. -/
structure Books where
  arenas : List Arena
  /-- The blocks of the live objects. -/
  live : List FreeBlock
  free : List FreeBlock
  size : Nat
  used : Nat
  freeBlocks : Nat
  totalAllocated : Nat
  totalFreed : Nat
  collections : Nat
  pauses : List Duration

/-- The books of a heap. -/
def books (h : Heap) : Books where
  arenas := h.arenas
  live := h.objects.map Object.toFree
  free := h.free
  size := h.size
  used := h.used
  freeBlocks := h.freeBlocks
  totalAllocated := h.totalAllocated
  totalFreed := h.totalFreed
  collections := h.collections
  pauses := h.pauses.history

/-- **The counters agree with what they count**, but for the blocks that were taken and belong to no
object yet.  The blocks tile the arenas, so that the cursors have nothing to count but blocks. -/
structure Books.Balanced (k : Books) (taken : List FreeBlock) : Prop where
  tiled : Tiled k.arenas (taken ++ (k.live ++ k.free))
  used : k.used = (k.live.map FreeBlock.footprint).sum
  allocated : k.totalAllocated = k.used + k.totalFreed
  freeBlocks : k.freeBlocks = k.free.length
  size : k.size = (k.arenas.map Arena.capacity).sum
  cursors : (k.arenas.map Arena.cursor).sum = (taken.map FreeBlock.footprint).sum +
    ((k.live.map FreeBlock.footprint).sum + (k.free.map FreeBlock.footprint).sum)
  pauses : k.pauses.length = min k.collections pauseHistoryLength

theorem balanced_ofConfig (config : HeapConfig) (order : SweepOrder) :
    (ofConfig config order).books.Balanced [] := by
  constructor
  case tiled => constructor <;> simp [books, ofConfig]
  all_goals simp [books, ofConfig]

/-! ### What is not in the books -/

section Unrecorded

variable (h : Heap) (a : Nat)

theorem books_paint (color : Color) : (h.paint a color).books = h.books := by
  have hlive : (h.paint a color).objects.map Object.toFree = h.objects.map Object.toFree := by
    unfold paint
    rw [List.map_map]
    refine List.map_congr_left fun o _ => ?_
    simp only [Function.comp]
    split_ifs <;> rfl
  unfold books
  rw [hlive]
  rfl

theorem books_shade : (h.shade a).books = h.books := by
  unfold shade
  split
  · split_ifs
    · exact h.books_paint a .gray
    · rfl
  · rfl

theorem books_foldl_shade (addrs : List Nat) : (addrs.foldl shade h).books = h.books := by
  induction addrs generalizing h with
  | nil => rfl
  | cons a rest ih => exact (ih (h.shade a)).trans (h.books_shade a)

theorem books_beginMarking : h.beginMarking.books = h.books :=
  books_foldl_shade { h with phase := .marking } h.roots

theorem books_scan : (h.scan a).books = h.books := by
  unfold scan
  split
  · split_ifs
    · exact (books_foldl_shade _ _).trans (h.books_paint a .black)
    · rfl
  · rfl

theorem books_scanEntry : (h.scanEntry a).books = h.books :=
  books_scan { h with gray := h.gray.erase a } a

theorem books_scanNext : h.scanNext.books = h.books := by
  unfold scanNext
  split
  · rfl
  · next a rest _ => exact books_scan { h with gray := rest } a

theorem books_scanUpTo (fuel : Nat) : (scanUpTo fuel h).books = h.books := by
  induction fuel generalizing h with
  | zero => rfl
  | succ fuel ih =>
    rw [scanUpTo]
    split_ifs
    · rfl
    · exact (ih h.scanNext).trans h.books_scanNext

theorem books_drain : h.drain.books = h.books := h.books_scanUpTo _

theorem books_addRoot : (h.addRoot a).books = h.books := by
  unfold addRoot
  dsimp only
  split_ifs
  · exact books_shade { h with roots := h.roots.insert a } a
  · rfl

theorem books_setPercent (percent : Nat) : (h.setPercent percent).books = h.books := by
  unfold setPercent
  split_ifs <;> rfl

end Unrecorded

/-- A store that succeeds leaves the books as they are. -/
theorem books_writeWord {h h' : Heap} {addr index value : Nat}
    (hok : h.writeWord addr index value = .ok h') : h'.books = h.books := by
  obtain ⟨o, -, -, rfl⟩ := writeWord_eq_ok hok
  rfl

theorem books_writePointer {h h' : Heap} {addr field : Nat} {target : Option Nat}
    (hok : h.writePointer addr field target = .ok h') : h'.books = h.books := by
  obtain ⟨o, -, -, rfl⟩ := writePointer_eq_ok hok
  rfl

/-! ### A new object -/

/-- **The block for a new object** leaves the free list, or the cursor of an arena moves behind
it. -/
theorem Obtains.balanced {sys : System} (sound : sys.Sound) {h h' : Heap} {size : Nat}
    {b : FreeBlock} (hb : Obtains sys h size b h') (hsize : arenaAlign ∣ size)
    (bal : h.books.Balanced []) : h'.books.Balanced [b] := by
  have htiled : Tiled h'.arenas (b :: h'.blocks) := hb.tiled sound hsize bal.tiled
  have hfreeBlocks : h.freeBlocks = h.free.length := bal.freeBlocks
  have hcapacity : h.size = (h.arenas.map Arena.capacity).sum := bal.size
  have hcursors : (h.arenas.map Arena.cursor).sum = 0 +
    ((h.books.live.map FreeBlock.footprint).sum + (h.free.map FreeBlock.footprint).sum) :=
      bal.cursors
  cases hb with
  | @reused _ before after hfree hfit =>
    rw [hfree, List.length_append, List.length_cons] at hfreeBlocks
    rw [hfree, List.map_append, List.map_cons, List.sum_append, List.sum_cons] at hcursors
    refine ⟨htiled, bal.used, bal.allocated, ?_, hcapacity, ?_, bal.pauses⟩
    · show h.freeBlocks - 1 = (before ++ after).length
      rw [List.length_append, hfreeBlocks]
      omega
    · show (h.arenas.map Arena.cursor).sum = b.footprint +
        ((h.books.live.map FreeBlock.footprint).sum +
          ((before ++ after).map FreeBlock.footprint).sum)
      rw [hcursors, List.map_append, List.sum_append]
      omega
  | @carved start a a' before after harenas hbump =>
    have hmem : a ∈ h.arenas := by
      rw [harenas]
      exact List.mem_append_right _ List.mem_cons_self
    obtain ⟨rfl, rfl, -⟩ := Arena.bump_of_aligned
      (Nat.dvd_add (bal.tiled.base a hmem) (bal.tiled.cursor a hmem)) hbump
    rw [harenas, List.map_append, List.map_cons, List.sum_append, List.sum_cons]
      at hcapacity hcursors
    refine ⟨htiled, bal.used, bal.allocated, hfreeBlocks, ?_, ?_, bal.pauses⟩
    · simpa [books] using hcapacity
    · simp only [books, List.map_append, List.map_cons, List.map_nil, List.sum_append,
        List.sum_cons, List.sum_nil, FreeBlock.footprint] at hcursors ⊢
      omega
  | @grown start a a' hreserve hbump =>
    obtain ⟨ha, -⟩ := Arena.reserve_eq_ok hreserve
    -- a new arena is empty, so the block starts at its base
    have hcursor : a.cursor = 0 := by rw [ha]
    have hbase : arenaAlign ∣ a.base + a.cursor := by
      rw [ha]
      exact sound.aligned _ _
    obtain ⟨rfl, rfl, -⟩ := Arena.bump_of_aligned hbase hbump
    refine ⟨htiled, bal.used, bal.allocated, hfreeBlocks, ?_, ?_, bal.pauses⟩
    · simp [books, hcapacity]
    · simp only [books, List.map_append, List.map_cons, List.map_nil, List.sum_append,
        List.sum_cons, List.sum_nil, FreeBlock.footprint] at hcursors ⊢
      omega

/-- **A new object is entered at the full capacity of its block.** -/
theorem Books.Balanced.occupy {h : Heap} {b : FreeBlock} (bal : h.books.Balanced [b])
    (type : ObjectType) (rooted : Bool) : (h.occupy b type rooted).books.Balanced [] := by
  have hused : h.used = (h.books.live.map FreeBlock.footprint).sum := bal.used
  have hallocated : h.totalAllocated = h.used + h.totalFreed := bal.allocated
  have hcursors := bal.cursors
  have hlive : (h.occupy b type rooted).books.live = b :: h.books.live := rfl
  refine
    { tiled := bal.tiled, used := ?used, allocated := ?allocated, freeBlocks := bal.freeBlocks,
      size := bal.size, cursors := ?cursors, pauses := bal.pauses }
  case used =>
    rw [hlive, List.map_cons, List.sum_cons, ← hused]
    exact Nat.add_comm _ _
  case allocated =>
    show h.totalAllocated + b.footprint = h.used + b.footprint + h.totalFreed
    omega
  case cursors =>
    rw [hlive, List.map_cons, List.sum_cons]
    rw [List.map_singleton, List.sum_singleton] at hcursors
    show (h.arenas.map Arena.cursor).sum = _
    refine hcursors.trans ?_
    simp only [List.map_nil, List.sum_nil, Nat.zero_add, Nat.add_assoc]
    rfl

/-! ### A sweep -/

/-- What a sweep frees of the objects was in use. -/
theorem sum_white_le (objects : List Object) :
    ((objects.filter (·.color = .white)).map Object.footprint).sum ≤
      (objects.map Object.footprint).sum :=
  (List.Sublist.map _ List.filter_sublist).sum_le_sum fun _ _ => Nat.zero_le _

theorem footprint_live (h : Heap) :
    (h.books.live.map FreeBlock.footprint).sum = (h.objects.map Object.footprint).sum := by
  unfold books
  rw [List.map_map]
  rfl

/-- **A sweep moves blocks to the free list**, and what it takes from `used` is what it adds to the
bytes freed. -/
theorem Books.Balanced.sweep {h : Heap} (bal : h.books.Balanced []) :
    h.sweep.books.Balanced [] := by
  -- the objects fall into the white ones, which are freed, and the survivors
  have hsplit : (h.objects.filter (·.color = .white) ++
      h.objects.filter (fun o => !decide (o.color = .white))).Perm h.objects :=
    List.filter_append_perm _ _
  have hlive : h.sweep.books.live =
      (h.objects.filter (fun o => !decide (o.color = .white))).map Object.toFree := by
    unfold books Heap.sweep
    simp only [List.map_map, ne_eq, decide_not]
    rfl
  have hfree : h.sweep.books.free.Perm
      ((h.objects.filter (·.color = .white)).map Object.toFree ++ h.free) :=
    List.Perm.append_right _ ((List.reverse_perm _).trans (h.order.perm _ _))
  have hblocks : (h.books.live ++ h.books.free).Perm
      (h.sweep.books.live ++ h.sweep.books.free) := by
    rw [hlive]
    refine List.Perm.trans ?_ (hfree.symm.append_left _)
    rw [← List.append_assoc]
    refine List.Perm.append_right _ ((hsplit.symm.map Object.toFree).trans ?_)
    rw [List.map_append]
    exact List.perm_append_comm
  set freed := ((h.objects.filter (·.color = .white)).map Object.footprint).sum with hfreed
  have hle : freed ≤ (h.objects.map Object.footprint).sum := sum_white_le h.objects
  have hsum := (hsplit.map Object.footprint).sum_eq
  rw [List.map_append, List.sum_append, ← hfreed] at hsum
  have hused : h.used = (h.objects.map Object.footprint).sum := bal.used.trans h.footprint_live
  have hallocated : h.totalAllocated = h.used + h.totalFreed := bal.allocated
  have hfreeBlocks : h.freeBlocks = h.free.length := bal.freeBlocks
  refine
    { tiled := bal.tiled.perm hblocks, used := ?used, allocated := ?allocated,
      freeBlocks := ?freeBlocks, size := bal.size, cursors := ?cursors, pauses := bal.pauses }
  case used =>
    rw [hlive, List.map_map]
    show h.used - freed =
      ((h.objects.filter (fun o => !decide (o.color = .white))).map Object.footprint).sum
    omega
  case allocated =>
    show h.totalAllocated = h.used - freed + (h.totalFreed + freed)
    omega
  case freeBlocks =>
    show h.freeBlocks + (h.objects.filter (·.color = .white)).length = h.sweep.books.free.length
    rw [hfree.length_eq, List.length_append, List.length_map, hfreeBlocks, Nat.add_comm]
  case cursors =>
    have hfootprints := (hblocks.map FreeBlock.footprint).sum_eq
    rw [List.map_append, List.sum_append, List.map_append, List.sum_append] at hfootprints
    refine bal.cursors.trans ?_
    rw [hfootprints]

/-- A pause that is entered in the log pushes out the oldest one when the log is full. -/
theorem record_history_length (log : PauseLog) (maxPause root final : Duration) {n : Nat}
    (hlog : log.history.length = min n pauseHistoryLength) :
    (PauseLog.record log maxPause root final).history.length = min (n + 1) pauseHistoryLength := by
  unfold PauseLog.record
  dsimp only
  rw [List.length_append, List.length_singleton]
  split_ifs with hfull
  · rw [List.length_tail]
    unfold pauseHistoryLength at *
    omega
  · unfold pauseHistoryLength at *
    omega

theorem Books.Balanced.finishCycle {h : Heap} (bal : h.books.Balanced []) (root final : Duration) :
    (h.finishCycle root final).books.Balanced [] := by
  have hdrain : h.drain.books.Balanced [] := by rwa [books_drain]
  have hsweep := hdrain.sweep
  exact ⟨hsweep.tiled, hsweep.used, hsweep.allocated, hsweep.freeBlocks, hsweep.size,
    hsweep.cursors, record_history_length _ h.drain.sweep.config.maxPause root final hsweep.pauses⟩

theorem Books.Balanced.collect {h : Heap} (bal : h.books.Balanced []) (root final : Duration) :
    (h.collect root final).2.books.Balanced [] := by
  unfold Heap.collect
  split_ifs
  · refine Books.Balanced.finishCycle ?_ root final
    rwa [books_drain, books_beginMarking]
  · exact bal

/-- **Every call keeps the books balanced**, one that fails and one in the middle of a cycle
included. -/
theorem Books.Balanced.perform {sys : System} (sound : sys.Sound) {h : Heap}
    (bal : h.books.Balanced []) (op : Op) : (h.perform sys op).2.books.Balanced [] := by
  cases op with
  | alloc size type rooted =>
    cases hok : h.alloc sys size type rooted with
    | error e =>
      simp only [Heap.perform, hok]
      exact bal
    | ok made =>
      obtain ⟨addr, h'⟩ := made
      obtain ⟨rounded, b, h₁, hrounded, hblock, rfl, rfl⟩ := alloc_eq_ok hok
      simp only [Heap.perform, hok]
      have hdvd := (Size.alignUp_arenaAlign hrounded).1
      exact (hblock.balanced sound hdvd bal).occupy type rooted
  | writeWord addr index value =>
    cases hok : h.writeWord addr index value with
    | error e =>
      simp only [Heap.perform, hok]
      exact bal
    | ok h' =>
      simp only [Heap.perform, hok]
      rwa [books_writeWord hok]
  | writePointer addr field target =>
    cases hok : h.writePointer addr field target with
    | error e =>
      simp only [Heap.perform, hok]
      exact bal
    | ok h' =>
      simp only [Heap.perform, hok]
      rwa [books_writePointer hok]
  | addRoot addr =>
    show (h.addRoot addr).books.Balanced []
    rwa [books_addRoot]
  | removeRoot addr => exact bal
  | collect root final => exact bal.collect root final
  | monitor root final =>
    show (h.monitor root final).books.Balanced []
    unfold monitor
    split_ifs
    · exact bal.collect root final
    · exact bal
  | setEnabled enabled => exact bal
  | setTrigger bytes => exact bal
  | setPercent percent =>
    show (h.setPercent percent).books.Balanced []
    rwa [books_setPercent]

/-! ### All heaps -/

/-- **The heaps that can arise, in the middle of cycles too.**  A cycle may run in one call, or its
marking may be taken apart into single scans, of any entry of the gray queue, with calls in
between. -/
inductive Arises (sys : System) : Heap → Prop where
  | start (config : HeapConfig) (order : SweepOrder) : Arises sys (ofConfig config order)
  | call {h : Heap} (past : Arises sys h) (op : Op) : Arises sys (h.perform sys op).2
  | begin {h : Heap} (past : Arises sys h) (hphase : h.phase = .idle) : Arises sys h.beginMarking
  | scan {h : Heap} {a : Nat} (past : Arises sys h) (hqueue : a ∈ h.gray) :
      Arises sys (h.scanEntry a)
  | finish {h : Heap} (past : Arises sys h) (hphase : h.phase = .marking) (root final : Duration) :
      Arises sys (h.finishCycle root final)

theorem History.arises {sys : System} {log : List Event} {h : Heap} (hist : History sys log h) :
    Arises sys h := by
  induction hist with
  | start config order => exact .start config order
  | step past op arises => exact arises.call op

theorem Arises.balanced {sys : System} (sound : sys.Sound) {h : Heap} (arises : Arises sys h) :
    h.books.Balanced [] := by
  induction arises with
  | start config order => exact balanced_ofConfig config order
  | call past op bal => exact bal.perform sound op
  | begin past hphase bal => rwa [books_beginMarking]
  | scan past hqueue bal => rwa [books_scanEntry]
  | finish past hphase root final bal => exact bal.finishCycle root final

/-- The first free block that fits is counted among the free blocks. -/
theorem Books.Balanced.freeBlocks_pos {h : Heap} (bal : h.books.Balanced []) {size : Nat}
    {found : FreeBlock × List FreeBlock} (hfit : takeFirstFit size h.free = some found) :
    1 ≤ h.freeBlocks := by
  obtain ⟨before, after, hfree, -, -, -⟩ := takeFirstFit_eq_some hfit
  have hcount : h.freeBlocks = h.free.length := bal.freeBlocks
  rw [hcount, hfree, List.length_append, List.length_cons]
  omega

/-- What a sweep frees was in use. -/
theorem Books.Balanced.freed_le {h : Heap} (bal : h.books.Balanced []) :
    ((h.objects.filter (·.color = .white)).map Object.footprint).sum ≤ h.used := by
  have hused : h.used = (h.objects.map Object.footprint).sum := bal.used.trans h.footprint_live
  rw [hused]
  exact sum_white_le _

/-- **The counters of a heap agree with what they count**, whatever was done to the heap: the bytes
in use are the footprint of the live objects and the bytes allocated less those freed, the free
blocks and the arenas are counted as they are, the cursors stand behind the live and the free
blocks and nothing else, and the pauses remembered are the last 256.  So no counter goes below zero,
neither when an allocation takes a block off the free list nor when a cycle sweeps, be it the end
of one that is under way or a whole one. -/
theorem Arises.counters_agree {sys : System} (sound : sys.Sound) {h : Heap}
    (arises : Arises sys h) :
    h.used = (h.objects.map Object.footprint).sum ∧
      h.totalFreed ≤ h.totalAllocated ∧ h.used = h.totalAllocated - h.totalFreed ∧
      (h.objects.map Object.addr).Nodup ∧ h.freeBlocks = h.free.length ∧
      h.size = (h.arenas.map Arena.capacity).sum ∧
      (h.arenas.map Arena.cursor).sum = h.used + (h.free.map FreeBlock.footprint).sum ∧
      h.pauses.history.length = min h.collections 256 ∧
      (∀ size found, takeFirstFit size h.free = some found → 1 ≤ h.freeBlocks) ∧
      ∀ marked ∈ [h.drain, h.beginMarking.drain.drain],
        ((marked.objects.filter (·.color = .white)).map Object.footprint).sum ≤ marked.used := by
  have bal := arises.balanced sound
  have hused : h.used = (h.objects.map Object.footprint).sum := bal.used.trans h.footprint_live
  have hallocated : h.totalAllocated = h.used + h.totalFreed := bal.allocated
  have haddrs : (h.objects.map Object.addr).Nodup := by
    have hall : ((h.books.live ++ h.books.free).map FreeBlock.addr).Nodup := bal.tiled.addr_nodup
    rw [List.map_append] at hall
    have hlive := List.Nodup.of_append_left hall
    unfold books at hlive
    rwa [List.map_map] at hlive
  have hcursors : (h.arenas.map Arena.cursor).sum =
      h.used + (h.free.map FreeBlock.footprint).sum := by
    have hsum := bal.cursors
    rw [List.map_nil, List.sum_nil, Nat.zero_add, footprint_live, ← hused] at hsum
    exact hsum
  have hmarked : ∀ marked ∈ [h.drain, h.beginMarking.drain.drain], marked.books = h.books := by
    simp [books_drain, books_beginMarking]
  refine ⟨hused, by omega, by omega, haddrs, bal.freeBlocks, bal.size, hcursors, bal.pauses,
    fun size found hfit => bal.freeBlocks_pos hfit, fun marked hmem => ?_⟩
  exact Books.Balanced.freed_le (by rwa [hmarked marked hmem])

theorem recycled_counters_agree :
    recycled.used = 48 + 32 + (112 + 32) ∧ recycled.freeBlocks = 1 ∧ recycled.collections = 1 ∧
      recycled.totalFreed ≤ recycled.totalAllocated ∧
      (recycled.arenas.map Arena.cursor).sum =
        recycled.used + (recycled.free.map FreeBlock.footprint).sum := by
  have sound : System.sequential.Sound := System.sequential_sound _ _
  obtain ⟨log, hist⟩ : ∃ log, History .sequential log recycled := (History.start {} .listed).run _
  obtain ⟨-, hfreed, -, -, -, -, hcursors, -, -, -⟩ := Arises.counters_agree sound hist.arises
  exact ⟨by decide, by decide, by decide, hfreed, hcursors⟩

end Heap

end ManagedHost
