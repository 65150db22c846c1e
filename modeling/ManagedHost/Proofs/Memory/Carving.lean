import ManagedHost.Memory.Arena
import Mathlib.Algebra.Order.Ring.Nat
import Mathlib.Tactic.SplitIfs

/-!
# Carving pieces from arenas

* `Size.alignUp_two_pow`: rounding up to a power of two is division and multiplication, wherever
  the padded size is in range.
* `Arena.bump_of_aligned`: where the cursor of an arena stands at an aligned address, a piece
  starts exactly there, so no byte between two pieces is lost.
* `Arena.bumpFirst_eq_some`: a piece cut from a list of arenas is cut from one of them, and the
  others stay as they are.
* `Arena.reserve_eq_ok`: a new arena is empty, a multiple of `arenaAlign` long, and as large as it
  was asked to be.

`System.Sound` is what a heap relies on when it reserves memory: a new region is aligned and
overlaps none that is still held.
-/

namespace ManagedHost

/-! ### Rounding up -/

namespace Size

/-- **Rounding up to a power of two**, in closed form. -/
theorem alignUp_two_pow (n k : Nat) :
    alignUp n (2 ^ k) =
      if n + (2 ^ k - 1) < limit then some (2 ^ k * ((n + (2 ^ k - 1)) / 2 ^ k)) else none := by
  unfold alignUp add?
  split_ifs
  · rw [Option.map_some, Nat.and_two_pow_sub_one_eq_mod]
    have hsplit := Nat.div_add_mod (n + (2 ^ k - 1)) (2 ^ k)
    congr 1
    omega
  · rfl

/-- A size rounded up to a power of two is a multiple of it, and less than one unit above the
size. -/
theorem alignUp_eq_some {n m align : Nat} (halign : align.isPowerOfTwo)
    (h : alignUp n align = some m) : align ∣ m ∧ n ≤ m ∧ m < n + align := by
  obtain ⟨k, rfl⟩ := halign
  rw [alignUp_two_pow] at h
  split_ifs at h
  obtain rfl := Option.some.inj h
  have hpos : 0 < 2 ^ k := Nat.two_pow_pos k
  have hsplit := Nat.div_add_mod (n + (2 ^ k - 1)) (2 ^ k)
  have hrest := Nat.mod_lt (n + (2 ^ k - 1)) hpos
  exact ⟨Dvd.intro _ rfl, by omega, by omega⟩

theorem isPowerOfTwo_arenaAlign : arenaAlign.isPowerOfTwo := ⟨4, rfl⟩

theorem alignUp_arenaAlign {n m : Nat} (h : alignUp n arenaAlign = some m) :
    arenaAlign ∣ m ∧ n ≤ m ∧ m < n + arenaAlign :=
  alignUp_eq_some isPowerOfTwo_arenaAlign h

/-- Rounding up leaves a multiple of `arenaAlign` alone. -/
theorem alignUp_of_dvd {n m : Nat} (hn : arenaAlign ∣ n) (h : alignUp n arenaAlign = some m) :
    m = n := by
  obtain ⟨hm, hle, hlt⟩ := alignUp_arenaAlign h
  unfold arenaAlign at hn hm hlt
  omega

theorem add?_eq_some {a b c : Nat} (h : add? a b = some c) : c = a + b := by
  unfold add? at h
  split_ifs at h
  exact (Option.some.inj h).symm

end Size

/-! ### Regions -/

namespace Region

/-- Two regions without a common address. -/
def Apart (r s : Region) : Prop := r.stop ≤ s.base ∨ s.stop ≤ r.base

/-- The address lies in the region. -/
def Holds (r : Region) (addr : Nat) : Prop := r.base ≤ addr ∧ addr < r.stop

/-- Every address of `r` is one of `s`. -/
def Within (r s : Region) : Prop := s.base ≤ r.base ∧ r.stop ≤ s.stop

theorem Apart.symm {r s : Region} (h : r.Apart s) : s.Apart r := Or.symm h

theorem Apart.not_holds {r s : Region} (h : r.Apart s) {addr : Nat} (hr : r.Holds addr) :
    ¬ s.Holds addr := by
  rintro ⟨hlo, hhi⟩
  obtain ⟨hlo', hhi'⟩ := hr
  rcases h with h | h <;> omega

/-- A region that is not empty lies in only one of two that are apart. -/
theorem Apart.not_within {r s t : Region} (h : r.Apart s) (hpos : 0 < t.capacity)
    (hr : t.Within r) : ¬ t.Within s := by
  rintro ⟨hlo, hhi⟩
  obtain ⟨hlo', hhi'⟩ := hr
  unfold stop at hhi hhi'
  rcases h with h | h <;> unfold stop at h <;> omega

theorem Within.holds {r s : Region} (h : r.Within s) {addr : Nat} (hr : r.Holds addr) :
    s.Holds addr :=
  ⟨h.1.trans hr.1, hr.2.trans_le h.2⟩

theorem Within.trans {r s t : Region} (hrs : r.Within s) (hst : s.Within t) : r.Within t :=
  ⟨hst.1.trans hrs.1, hrs.2.trans hst.2⟩

/-- Parts of two regions that are apart are apart. -/
theorem Apart.mono {r r' s s' : Region} (h : r.Apart s) (hr : r'.Within r) (hs : s'.Within s) :
    r'.Apart s' := by
  obtain ⟨hr1, hr2⟩ := hr
  obtain ⟨hs1, hs2⟩ := hs
  rcases h with h | h
  · exact Or.inl (by omega)
  · exact Or.inr (by omega)

end Region

/-- **What is promised of the provider of memory**: a new region starts at a multiple of
`arenaAlign` and has no address in common with a region still held. -/
structure System.Sound (sys : System) : Prop where
  aligned : ∀ held size, arenaAlign ∣ sys.place held size
  fresh : ∀ held size, ∀ r ∈ held, Region.Apart r ⟨sys.place held size, size⟩

namespace System

theorem foldl_max_stop (held : List Region) (start : Nat) :
    start ≤ held.foldl (fun top r => max top r.stop) start ∧
      ∀ r ∈ held, r.stop ≤ held.foldl (fun top r => max top r.stop) start := by
  induction held generalizing start with
  | nil => exact ⟨le_rfl, fun r hr => absurd hr List.not_mem_nil⟩
  | cons s rest ih =>
    obtain ⟨hstart, hrest⟩ := ih (max start s.stop)
    rw [List.foldl_cons]
    refine ⟨(Nat.le_max_left _ _).trans hstart, ?_⟩
    intro r hr
    rcases List.mem_cons.mp hr with rfl | hr
    · exact (Nat.le_max_right _ _).trans hstart
    · exact hrest r hr

/-- Placing every region behind all others is sound. -/
theorem sequential_sound (limit start : Nat) : (sequential limit start).Sound where
  aligned held size := by
    show arenaAlign ∣ firstFree start held
    exact Dvd.dvd.mul_left (by decide) _
  fresh held size r hr := by
    -- the first free page starts behind the top of all regions
    have htop := (foldl_max_stop held start).2 r hr
    refine Or.inl (htop.trans ?_)
    show _ ≤ firstFree start held
    unfold firstFree pageSize
    omega

end System

/-! ### Arenas -/

theorem mem_replaced {α : Type} {before after : List α} {a a' x : α}
    (hx : x ∈ before ++ a' :: after) : x = a' ∨ x ∈ before ++ a :: after := by
  rcases List.mem_append.mp hx with h | h
  · exact Or.inr (List.mem_append_left _ h)
  · rcases List.mem_cons.mp h with h | h
    · exact Or.inl h
    · exact Or.inr (List.mem_append_right _ (List.mem_cons_of_mem _ h))

namespace Arena

/-- The part of the arena that has been handed out. -/
def filled (a : Arena) : Region := ⟨a.base, a.cursor⟩

theorem filled_within {a : Arena} (h : a.cursor ≤ a.capacity) : a.filled.Within a.region :=
  ⟨le_rfl, Nat.add_le_add_left h _⟩

/-- Two arenas of a list whose regions are apart are apart, or they are the same. -/
theorem eq_or_apart {before after : List Arena} {a b : Arena}
    (h : ((before ++ a :: after).map region).Pairwise Region.Apart)
    (hb : b ∈ before ++ a :: after) :
    b = a ∨ (b.region.Apart a.region ∧ b ∈ before ++ after) := by
  rw [List.map_append, List.map_cons, List.pairwise_append, List.pairwise_cons] at h
  obtain ⟨-, ⟨hafter, -⟩, hbefore⟩ := h
  rcases List.mem_append.mp hb with hmem | hmem
  · refine Or.inr ⟨?_, List.mem_append_left _ hmem⟩
    exact hbefore _ (List.mem_map_of_mem hmem) _ List.mem_cons_self
  · rcases List.mem_cons.mp hmem with rfl | hmem
    · exact Or.inl rfl
    · exact Or.inr ⟨(hafter _ (List.mem_map_of_mem hmem)).symm, List.mem_append_right _ hmem⟩

/-- Cutting a piece moves nothing but the cursor. -/
theorem bump_moves_cursor {a a' : Arena} {size align start : Nat}
    (h : a.bump size align = some (start, a')) : ∃ stop, a' = { a with cursor := stop } := by
  unfold bump at h
  obtain ⟨top, -, h⟩ := Option.bind_eq_some_iff.mp h
  obtain ⟨first, -, h⟩ := Option.bind_eq_some_iff.mp h
  obtain ⟨stop, -, h⟩ := Option.bind_eq_some_iff.mp h
  split_ifs at h
  obtain ⟨-, rfl⟩ := Prod.mk.inj (Option.some.inj h)
  exact ⟨stop, rfl⟩

/-- A piece cut where the cursor stands at an aligned address starts at the cursor. -/
theorem bump_of_aligned {a a' : Arena} {size start : Nat}
    (haligned : arenaAlign ∣ a.base + a.cursor)
    (h : a.bump size arenaAlign = some (start, a')) :
    start = a.base + a.cursor ∧ a' = { a with cursor := a.cursor + size } ∧
      a.cursor + size ≤ a.capacity := by
  unfold bump at h
  obtain ⟨top, htop, h⟩ := Option.bind_eq_some_iff.mp h
  obtain ⟨first, hfirst, h⟩ := Option.bind_eq_some_iff.mp h
  obtain ⟨stop, hstop, h⟩ := Option.bind_eq_some_iff.mp h
  obtain rfl := Size.add?_eq_some htop
  -- nothing is lost to padding, as the cursor is aligned already
  obtain rfl := Size.alignUp_of_dvd haligned hfirst
  obtain rfl := Size.add?_eq_some hstop
  split_ifs at h with hroom
  obtain ⟨rfl, rfl⟩ := Prod.mk.inj (Option.some.inj h)
  have hoffset : a.base + a.cursor - a.base = a.cursor := Nat.add_sub_cancel_left ..
  rw [hoffset] at hroom ⊢
  exact ⟨rfl, rfl, Nat.le_of_not_gt hroom⟩

/-- **A piece comes from one arena of the list**, the first with room, and the others stay. -/
theorem bumpFirst_eq_some {eligible : Arena → Bool} {size align addr skipped : Nat}
    {arenas arenas' : List Arena}
    (h : bumpFirst eligible size align arenas = some (addr, skipped, arenas')) :
    ∃ before a a' after, arenas = before ++ a :: after ∧ arenas' = before ++ a' :: after ∧
      a.bump size align = some (addr, a') ∧ eligible a = true := by
  induction arenas generalizing skipped arenas' with
  | nil => exact absurd h (by simp [bumpFirst])
  | cons a rest ih =>
    rw [bumpFirst] at h
    split at h
    · next addr' a' hbump =>
      obtain ⟨rfl, -, rfl⟩ := (by simpa using h : addr' = addr ∧ 0 = skipped ∧ a' :: rest = arenas')
      refine ⟨[], a, a', rest, rfl, rfl, ?_⟩
      split_ifs at hbump with helig
      exact ⟨hbump, helig⟩
    · obtain ⟨⟨addr', skipped', rest'⟩, hrest, hpair⟩ := Option.map_eq_some_iff.mp h
      obtain ⟨rfl, -, rfl⟩ :=
        (by simpa using hpair : addr' = addr ∧ skipped' + 1 = skipped ∧ a :: rest' = arenas')
      obtain ⟨before, b, b', after, rfl, rfl, hb⟩ := ih hrest
      exact ⟨a :: before, b, b', after, rfl, rfl, hb⟩

/-- **A new arena** is empty, lies where the system has placed it, and is the size asked for
rounded up. -/
theorem reserve_eq_ok {sys : System} {held : List Region} {capacity : Nat} {a : Arena}
    (h : reserve sys held capacity = .ok a) :
    a = { base := sys.place held a.capacity, capacity := a.capacity } ∧
      arenaAlign ∣ a.capacity ∧ capacity ≤ a.capacity ∧ 0 < a.capacity := by
  unfold reserve at h
  split at h
  · cases h
  · next rounded hrounded =>
    obtain ⟨hdvd, hle, -⟩ := Size.alignUp_arenaAlign hrounded
    split_ifs at h
    obtain rfl := Except.ok.inj h
    refine ⟨rfl, hdvd, (Nat.le_max_left _ _).trans hle, ?_⟩
    exact Nat.lt_of_lt_of_le Nat.zero_lt_one ((Nat.le_max_right _ _).trans hle)

end Arena

end ManagedHost
