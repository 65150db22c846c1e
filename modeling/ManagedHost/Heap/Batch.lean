import ManagedHost.Heap.Collect

/-!
# Many operations on a heap
-/

namespace ManagedHost

namespace Heap

/-- Make up to `n` objects, one after the other.  Each is handed to `next` together with the one
before it.  The first failure ends the work; the objects made before it stay.  `made` holds the
addresses of the objects so far, newest first. -/
def makeMore {ε : Type} (make : Heap → Except ε (Nat × Heap))
    (next : Option Nat → Nat → Heap → Except ε Heap) :
    Nat → List Nat → Heap → List Nat × Option ε × Heap
  | 0, made, h => (made, none, h)
  | n + 1, made, h =>
    match make h with
    | .error e => (made, some e, h)
    | .ok (addr, h) =>
      match next made.head? addr h with
      | .error e => (addr :: made, some e, h)
      | .ok h => makeMore make next n (addr :: made) h

/-- Make up to `n` objects as `makeMore` does: the addresses of the objects in order, the failure,
and the heap then. -/
def makeMany {ε : Type} (make : Heap → Except ε (Nat × Heap))
    (next : Option Nat → Nat → Heap → Except ε Heap) (n : Nat) (h : Heap) :
    List Nat × Option ε × Heap :=
  let (made, failure, h) := makeMore make next n [] h
  (made.reverse, failure, h)

/-- Ask for `n` cycles with pauses of the given length: how many ran, and the heap then. -/
def collectTimes (pause : Duration) : Nat → Heap → Nat × Heap
  | 0, h => (0, h)
  | n + 1, h =>
    let (ran, h) := h.collect pause pause
    let (count, h) := collectTimes pause n h
    (count + ran.toNat, h)

end Heap

end ManagedHost
