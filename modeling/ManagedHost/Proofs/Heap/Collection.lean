import ManagedHost.Proofs.Heap.History

/-!
# What a cycle collects

`History.collect_exact`: whatever was done to a heap before, one cycle keeps exactly the objects
that can be reached from the live roots and returns the blocks of all others to the free list.
`Collected` lists what that means for each part of the heap.
-/

namespace ManagedHost

namespace Heap

open Classical in
/-- What one cycle makes of the heap `h`. -/
structure Collected (h h' : Heap) : Prop where
  /-- The reachable objects stay, each with its address, type and capacity. -/
  kept : h'.objects = h.objects.filter fun o => h.ReachedFrom h.LiveRoot o.addr
  /-- The blocks of all others are put in front of the free list. -/
  freed : ∃ blocks, h'.free = blocks ++ h.free ∧
    blocks.Perm ((h.objects.filter fun o => ¬ h.ReachedFrom h.LiveRoot o.addr).map Object.toFree)
  white : ∀ o ∈ h'.objects, o.color = .white
  words : h'.words = h.words
  roots : h'.roots = h.roots
  arenas : h'.arenas = h.arenas
  gray : h'.gray = []
  phase : h'.phase = .idle
  collections : h'.collections = h.collections + 1

open Classical in
theorem AtRest.collected {h : Heap} (r : h.AtRest) {keep : Nat → Bool}
    (hkeep : ∀ a, keep a = true ↔ h.ReachedFrom h.LiveRoot a) (root final : Duration) :
    h.Collected ((h.reclaim keep).closeCycle root final) where
  kept := by
    apply List.filter_congr
    intro o _
    rw [Bool.eq_iff_iff, hkeep, decide_eq_true_iff]
  freed := by
    refine ⟨_, rfl, (List.reverse_perm _).trans ((h.order.perm _ _).trans ?_)⟩
    apply List.Perm.of_eq
    congr 1
    apply List.filter_congr
    intro o _
    rw [Bool.eq_iff_iff, Bool.not_eq_true', ← Bool.not_eq_true, hkeep, decide_eq_true_iff]
  white := (r.reclaim keep).white
  words := rfl
  roots := rfl
  arenas := rfl
  gray := r.gray
  phase := r.phase
  collections := rfl

/-- **A cycle is exact.**  On an enabled heap, whatever its history, a cycle runs.  Its marking loop
ends after at most one scan for each object, and then exactly the reachable objects are kept. -/
theorem History.collect_exact {sys : System} {log : List Event} {h : Heap}
    (hist : History sys log h) (henabled : h.enabled = true) (root final : Duration) :
    ∃ h', h.collect root final = (true, h') ∧ h.Collected h' ∧
      ∃ n ≤ h.objects.length, (scanNext^[n] h.beginMarking).gray = [] ∧
        h' = (scanNext^[n] h.beginMarking).finishCycle root final := by
  have r := hist.atRest
  obtain ⟨keep, hkeep, hcycle⟩ := r.cycle_eq root final
  obtain ⟨n, hn, hdrain, hgray⟩ := r.drain_beginMarking
  refine ⟨h.beginMarking.drain.finishCycle root final, ?_, ?_, n, hn, ?_, ?_⟩
  · rw [collect, if_pos ⟨henabled, r.phase⟩]
  · rw [hcycle]
    exact r.collected hkeep root final
  · rw [← hdrain]
    exact hgray
  · rw [← hdrain]

/-- A heap of four objects: a root and what it points to, and two that point at each other.  The
type is wider than the blocks, and one root is stale. -/
def fourObjects : Heap :=
  let node := ObjectType.ofPointers "node" 32 [0, 3]
  (ofConfig {}).run .sequential
    [.alloc 16 node true, .alloc 16 node false, .alloc 16 node false, .alloc 16 node false,
      .writePointer 65568 0 (some 65616), .writePointer 65664 0 (some 65712),
      .writePointer 65712 0 (some 65664), .addRoot 64]

theorem collect_fourObjects :
    fourObjects.objects.map Object.addr = [65712, 65664, 65616, 65568] ∧
      ∃ h', fourObjects.collect .zero .zero = (true, h') ∧ fourObjects.Collected h' ∧
        h'.objects.map Object.addr = [65616, 65568] := by
  obtain ⟨log, hist⟩ : ∃ log, History .sequential log fourObjects :=
    (History.start {} .listed).run _
  obtain ⟨h', hrun, hcollected, -⟩ := hist.collect_exact (by decide) .zero .zero
  have heq : h' = (fourObjects.collect .zero .zero).2 := by rw [hrun]
  refine ⟨by decide, h', hrun, hcollected, ?_⟩
  rw [heq]
  decide

end Heap

end ManagedHost
