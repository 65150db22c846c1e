/-!
# Addressable stores

A `Store` gives every address a number, and all but finitely many fills have left it at zero.  It
is kept as the list of fills, the newest first, so that filling a range costs the same whatever
its length.  The view of a store is `get`, and `get_fill` says all there is to know about a fill.
-/

namespace ManagedHost

/-- One write of `value` to every address in `[lo, hi)`. -/
structure Store.Fill where
  lo : Nat
  hi : Nat
  value : Nat
deriving DecidableEq, Inhabited

/-- A memory whose addresses hold zero until they are written. -/
structure Store where
  fills : List Store.Fill := []
deriving DecidableEq, Inhabited

namespace Store

/-- Whether the fill wrote to `addr`. -/
def Fill.covers (f : Fill) (addr : Nat) : Bool := f.lo ≤ addr && addr < f.hi

/-- The number at `addr`. -/
def get (m : Store) (addr : Nat) : Nat :=
  match m.fills.find? (·.covers addr) with
  | some f => f.value
  | none => 0

/-- Write `value` to every address in `[lo, hi)`. -/
def fill (m : Store) (lo hi value : Nat) : Store :=
  if lo < hi then { m with fills := ⟨lo, hi, value⟩ :: m.fills } else m

/-- Write `value` to one address. -/
def set (m : Store) (addr value : Nat) : Store := m.fill addr (addr + 1) value

/-- Write zero to every address in `[lo, hi)`. -/
def clear (m : Store) (lo hi : Nat) : Store := m.fill lo hi 0

/-- The sum of the numbers that the fills leave in `[lo, hi)`: the newest fill settles the addresses
that it covers, and the others the addresses before and after these. -/
def sumOf : List Fill → Nat → Nat → Nat
  | [], _, _ => 0
  | f :: rest, lo, hi =>
    if hi ≤ lo then 0
    else if hi ≤ f.lo ∨ f.hi ≤ lo then sumOf rest lo hi
    else
      let first := max lo f.lo
      let stop := min hi f.hi
      sumOf rest lo first + f.value * (stop - first) + sumOf rest stop hi

/-- The sum of the numbers at the addresses `[lo, hi)`. -/
def sum (m : Store) (lo hi : Nat) : Nat := sumOf m.fills lo hi

theorem get_fill (m : Store) (lo hi value addr : Nat) :
    (m.fill lo hi value).get addr = if lo ≤ addr ∧ addr < hi then value else m.get addr := by
  unfold fill
  split
  next _ => by_cases h : lo ≤ addr ∧ addr < hi <;> simp [get, Fill.covers, h]
  next hlt =>
    have : ¬(lo ≤ addr ∧ addr < hi) := by omega
    simp [this]

theorem get_set (m : Store) (addr value a : Nat) :
    (m.set addr value).get a = if a = addr then value else m.get a := by
  rw [set, get_fill]
  have : (addr ≤ a ∧ a < addr + 1) ↔ a = addr := by omega
  simp only [this]

theorem get_clear (m : Store) (lo hi addr : Nat) :
    (m.clear lo hi).get addr = if lo ≤ addr ∧ addr < hi then 0 else m.get addr :=
  get_fill m lo hi 0 addr

end Store

end ManagedHost
