import ManagedHost.Proofs.Memory.Alignment
import ManagedHost.Proofs.Memory.Rewinding

/-!
# Pieces of arenas

`Carved` is the invariant of a list of arenas and the pieces cut from them since they were last
rewound: the arenas are apart, every piece lies below the cursor of one of them, and the bytes
behind the cursors are zero.  It is kept by cutting a piece (`Carved.cut`), by a new arena
(`Carved.grow`), by writing into a piece (`Carved.write`) and by rewinding (`Carved.rewind`).

`System.Serves` is what is relied on when memory is reserved, and `Arena.bump_of_reserve` says that
a block serves the request that it was reserved for.
-/

namespace ManagedHost

/-- **What is promised of a reservation** that is granted: the region starts at a multiple of
`arenaAlign`, overlaps none that is still held, and ends within the range of addresses. -/
def System.Serves (sys : System) (held : List Region) (capacity : Nat) : Prop :=
  ∀ a, Arena.reserve sys held capacity = .ok a →
    arenaAlign ∣ a.base ∧ (∀ r ∈ held, r.Apart a.region) ∧ a.region.stop ≤ Size.limit

/-! ### Reservations -/

namespace Arena

/-- A reservation covers neither half of the addresses nor more than the system allows. -/
theorem reserve_bounds {sys : System} {held : List Region} {capacity : Nat} {a : Arena}
    (h : reserve sys held capacity = .ok a) : a.capacity < Size.limit ∧ a.capacity ≤ sys.limit := by
  unfold reserve at h
  split at h
  · cases h
  · next rounded _ =>
    split_ifs at h with hmax hlimit
    obtain rfl := Except.ok.inj h
    have hhalf : Size.maxReservation < Size.limit := by decide
    refine ⟨?_, Nat.le_of_not_gt hlimit⟩
    show rounded < Size.limit
    omega

/-- Whether a reservation is refused depends on nothing but its size and the limit. -/
theorem reserve_error_congr {sys sys' : System} {held : List Region} (held' : List Region)
    {capacity : Nat} {e : AllocError} (hlimit : sys'.limit = sys.limit)
    (h : reserve sys held capacity = .error e) : reserve sys' held' capacity = .error e := by
  unfold reserve at h ⊢
  cases hrounded : Size.alignUp (max capacity 1) arenaAlign with
  | none =>
    rw [hrounded] at h
    exact h
  | some rounded =>
    rw [hrounded] at h
    dsimp only at h ⊢
    rw [hlimit]
    split_ifs at h ⊢
    · exact h
    · exact h

/-- **A new block serves the request that it was reserved for.** -/
theorem bump_of_reserve {sys : System} {held : List Region} {capacity size align : Nat} {a : Arena}
    (hsys : sys.Serves held capacity) (h : reserve sys held capacity = .ok a)
    (halign : align.isPowerOfTwo) (hsize : 0 < size)
    (hpadded : size + (align - arenaAlign) ≤ capacity) :
    ∃ start a', a.bump size align = some (start, a') := by
  obtain ⟨hbase, -, hstop⟩ := hsys a h
  obtain ⟨ha, hcapacity, hle, -⟩ := reserve_eq_ok h
  rw [ha]
  rw [ha] at hbase
  exact bump_of_fresh hbase hcapacity (by rw [ha] at hstop; exact hstop) (reserve_bounds h).1 halign
    hsize (hpadded.trans hle)

end Arena

/-- Where all regions lie far below the end of the addresses, placing the next one behind them
keeps the promise. -/
theorem System.sequential_serves {limit start : Nat} {held : List Region} (capacity : Nat)
    (h : firstFree start held + limit ≤ Size.limit) :
    (sequential limit start).Serves held capacity := by
  intro a ha
  have hsound := sequential_sound limit start
  obtain ⟨hplaced, -⟩ := Arena.reserve_eq_ok ha
  have hle : a.capacity ≤ limit := (Arena.reserve_bounds ha).2
  have hbase : a.base = firstFree start held := by rw [hplaced]; rfl
  have hregion : a.region = ⟨firstFree start held, a.capacity⟩ := by rw [Arena.region, hbase]
  refine ⟨hbase ▸ hsound.aligned held a.capacity, ?_, ?_⟩
  · rw [hregion]
    exact hsound.fresh held a.capacity
  · rw [hregion]
    exact (Nat.add_le_add_left hle _).trans h

/-! ### Pieces of arenas -/

/-- **The pieces cut from a list of arenas.** -/
structure Carved (arenas : List Arena) (bytes : Store) (pieces : List Region) : Prop where
  room : ∀ a ∈ arenas, a.cursor ≤ a.capacity
  apart : (arenas.map Arena.region).Pairwise Region.Apart
  nonempty : ∀ r ∈ pieces, 0 < r.capacity
  inside : ∀ r ∈ pieces, ∃ a ∈ arenas, r.Within a.filled
  blank : ∀ a ∈ arenas, ∀ x, a.base + a.cursor ≤ x → x < a.base + a.capacity → bytes.get x = 0

namespace Carved

variable {before after arenas : List Arena} {a a' : Arena} {bytes : Store} {pieces : List Region}
  {r : Region} {size align start : Nat}

/-- A piece that lies in the region of an arena lies in the part of it that was handed out. -/
theorem within_filled (c : Carved (before ++ a :: after) bytes pieces) (hr : r ∈ pieces)
    (hwithin : r.Within a.region) : r.Within a.filled := by
  obtain ⟨b, hb, hbr⟩ := c.inside r hr
  rcases Arena.eq_or_apart c.apart hb with rfl | ⟨hapart, -⟩
  · exact hbr
  · exact absurd hwithin
      (hapart.not_within (c.nonempty r hr) (hbr.trans (Arena.filled_within (c.room b hb))))

/-- A piece that is cut has no address in common with the earlier ones. -/
theorem cut_apart (c : Carved (before ++ a :: after) bytes pieces)
    (hcut : a.Cuts size align start a') (hr : r ∈ pieces) : r.Apart ⟨start, size⟩ := by
  obtain ⟨b, hb, hbr⟩ := c.inside r hr
  rcases Arena.eq_or_apart c.apart hb with rfl | ⟨hapart, -⟩
  · exact Or.inl (hbr.2.trans hcut.behind)
  · exact hapart.mono (hbr.trans (Arena.filled_within (c.room b hb))) hcut.within

/-- A piece that is cut is all zero. -/
theorem cut_blank (c : Carved (before ++ a :: after) bytes pieces)
    (hcut : a.Cuts size align start a') {x : Nat} (hx : (⟨start, size⟩ : Region).Holds x) :
    bytes.get x = 0 :=
  c.blank a (List.mem_append_right _ List.mem_cons_self) x (hcut.behind.trans hx.1)
    (hx.2.trans_le hcut.room)

/-- **Cutting a piece from an arena.** -/
theorem cut (c : Carved (before ++ a :: after) bytes pieces) (hcut : a.Cuts size align start a')
    (hsize : 0 < size) :
    Carved (before ++ a' :: after) bytes (⟨start, size⟩ :: pieces) := by
  have hmem : a ∈ before ++ a :: after := List.mem_append_right _ List.mem_cons_self
  have hmem' : a' ∈ before ++ a' :: after := List.mem_append_right _ List.mem_cons_self
  have hbehind := hcut.behind
  have hroom := hcut.room
  have hbase : a'.base = a.base := by rw [hcut.after]
  have hcapacity : a'.capacity = a.capacity := by rw [hcut.after]
  have hcursor : a'.base + a'.cursor = start + size := by
    rw [hcut.after]
    dsimp only
    omega
  have hkept : ∀ b ∈ before ++ after, b ∈ before ++ a' :: after := fun b hb =>
    List.perm_middle.mem_iff.mpr (List.mem_cons_of_mem _ hb)
  refine
    { room := ?room, apart := ?apart, nonempty := ?nonempty, inside := ?inside, blank := ?blank }
  case room =>
    intro b hb
    rcases mem_replaced hb with rfl | hb
    · omega
    · exact c.room b hb
  case apart =>
    have hsame : (before ++ a' :: after).map Arena.region =
        (before ++ a :: after).map Arena.region := by
      simp only [List.map_append, List.map_cons, Arena.region, hbase, hcapacity]
    rw [hsame]
    exact c.apart
  case nonempty =>
    intro r hr
    rcases List.mem_cons.mp hr with rfl | hr
    · exact hsize
    · exact c.nonempty r hr
  case inside =>
    intro r hr
    rcases List.mem_cons.mp hr with rfl | hr
    · refine ⟨a', hmem', ?_, hcursor.ge⟩
      exact (hbase.le.trans (Nat.le_add_right _ _)).trans hbehind
    · obtain ⟨b, hb, hbr⟩ := c.inside r hr
      rcases Arena.eq_or_apart c.apart hb with rfl | ⟨-, hb⟩
      · refine ⟨a', hmem', hbase.le.trans hbr.1, ?_⟩
        exact hbr.2.trans ((hbehind.trans (Nat.le_add_right _ _)).trans hcursor.ge)
      · exact ⟨b, hkept b hb, hbr⟩
  case blank =>
    intro b hb x hlo hhi
    rcases mem_replaced hb with rfl | hb
    · exact c.blank a hmem x (by omega) (by omega)
    · exact c.blank b hb x hlo hhi

/-- **A new arena**, all zero. -/
theorem grow (c : Carved (before ++ after) bytes pieces) (hcursor : a.cursor = 0)
    (hapart : ∀ r ∈ (before ++ after).map Arena.region, r.Apart a.region) :
    Carved (before ++ a :: after) (bytes.clear a.base (a.base + a.capacity)) pieces := by
  have hmem : ∀ b ∈ before ++ a :: after, b = a ∨ b ∈ before ++ after := fun b hb =>
    List.mem_cons.mp (List.perm_middle.mem_iff.mp hb)
  refine
    { room := ?room, apart := ?apart, nonempty := c.nonempty, inside := ?inside, blank := ?blank }
  case room =>
    intro b hb
    rcases hmem b hb with rfl | hb
    · exact hcursor.le.trans (Nat.zero_le _)
    · exact c.room b hb
  case apart =>
    have hperm : (a.region :: (before ++ after).map Arena.region).Perm
        ((before ++ a :: after).map Arena.region) := by
      rw [← List.map_cons]
      exact List.perm_middle.symm.map _
    refine (hperm.pairwise_iff fun h => Region.Apart.symm h).mp ?_
    exact List.pairwise_cons.mpr ⟨fun r hr => (hapart r hr).symm, c.apart⟩
  case inside =>
    intro r hr
    obtain ⟨b, hb, hbr⟩ := c.inside r hr
    exact ⟨b, List.perm_middle.mem_iff.mpr (List.mem_cons_of_mem _ hb), hbr⟩
  case blank =>
    intro b hb x hlo hhi
    rw [Store.get_clear]
    split_ifs with hin
    · rfl
    · rcases hmem b hb with rfl | hb
      · exact absurd ⟨(Nat.le_add_right _ _).trans hlo, hhi⟩ hin
      · exact c.blank b hb x hlo hhi

/-- **Writing into a piece** changes nothing behind the cursors. -/
theorem write (c : Carved arenas bytes pieces) (hr : r ∈ pieces) {lo hi : Nat}
    (hlo : r.base ≤ lo) (hhi : hi ≤ r.stop) (value : Nat) :
    Carved arenas (bytes.fill lo hi value) pieces where
  room := c.room
  apart := c.apart
  nonempty := c.nonempty
  inside := c.inside
  blank b hb x hlow hhigh := by
    rw [Store.get_fill]
    split_ifs with hin
    · -- the address would lie in the piece, below the cursor of its arena
      have hrx : r.Holds x := ⟨hlo.trans hin.1, hin.2.trans_le hhi⟩
      have hbx : b.region.Holds x := ⟨(Nat.le_add_right _ _).trans hlow, hhigh⟩
      obtain ⟨before, after, rfl⟩ := List.append_of_mem hb
      obtain ⟨a, ha, har⟩ := c.inside r hr
      rcases Arena.eq_or_apart c.apart ha with rfl | ⟨hapart, -⟩
      · exact absurd (har.holds hrx).2 (Nat.not_lt_of_le hlow)
      · exact absurd hbx
          (hapart.not_holds ((har.trans (Arena.filled_within (c.room a ha))).holds hrx))
    · exact c.blank b hb x hlow hhigh

/-- **Rewinding all arenas** makes them all zero, and there are no pieces any more. -/
theorem rewind (c : Carved arenas bytes pieces) {bytes' : Store}
    (hzero : ∀ x, (∃ a ∈ arenas, a.filled.Holds x) → bytes'.get x = 0)
    (hkept : ∀ x, (∀ a ∈ arenas, ¬ a.filled.Holds x) → bytes'.get x = bytes.get x) :
    Carved (arenas.map Arena.rewound) bytes' [] where
  room b hb := by
    obtain ⟨a, -, rfl⟩ := List.mem_map.mp hb
    exact Nat.zero_le _
  apart := by
    rw [List.map_map]
    exact c.apart
  nonempty r hr := absurd hr List.not_mem_nil
  inside r hr := absurd hr List.not_mem_nil
  blank b hb x hlo hhi := by
    obtain ⟨a, ha, rfl⟩ := List.mem_map.mp hb
    by_cases hx : ∃ b ∈ arenas, b.filled.Holds x
    · exact hzero x hx
    · rw [hkept x fun b hb hbx => hx ⟨b, hb, hbx⟩]
      refine c.blank a ha x (Nat.le_of_not_lt fun hlt => ?_) hhi
      exact hx ⟨a, ha, hlo, hlt⟩

end Carved

end ManagedHost
