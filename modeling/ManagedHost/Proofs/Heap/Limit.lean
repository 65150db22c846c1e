import ManagedHost.Proofs.Heap.Counters

/-!
# The limit of a heap

A heap grows by a new arena only where the bytes reserved so far, together with the size that it
then asks for, are within its limit.  The arena that it gets has that size rounded up to
`arenaAlign`, and it is the arena that is added to the bytes reserved.  So a heap can reserve more
than its limit, though never by a whole unit: `tight_exceeds_limit`.

* `carve_reserves`: what cutting a block can do to the bytes reserved.
* `Bounded`: what every call keeps, and every step of a cycle (`Bounded.perform`,
  `MarkedFrom.bounded`).
* `Arises.size_within_rounded_limit`: the limit as it is kept, and when it is kept exactly.
-/

namespace ManagedHost

namespace Arena

theorem bump_region {a a' : Arena} {size align start : Nat}
    (h : a.bump size align = some (start, a')) : a'.region = a.region := by
  obtain ⟨stop, rfl⟩ := bump_moves_cursor h
  rfl

/-- A new arena is as large as it was asked to be, rounded up. -/
theorem reserve_capacity {sys : System} {held : List Region} {capacity : Nat} {a : Arena}
    (h : reserve sys held capacity = .ok a) :
    Size.alignUp (max capacity 1) arenaAlign = some a.capacity := by
  unfold reserve at h
  split at h
  · cases h
  · next rounded hrounded =>
    split_ifs at h
    obtain rfl := Except.ok.inj h
    exact hrounded

end Arena

namespace Heap

/-! ### Marking -/

/-- The heap `h'` differs from `h` in its objects, its gray queue and its phase at most. -/
def MarkedFrom (h h' : Heap) : Prop := ∃ objects gray phase, h' = { h with objects, gray, phase }

theorem MarkedFrom.refl (h : Heap) : MarkedFrom h h := ⟨h.objects, h.gray, h.phase, rfl⟩

theorem MarkedFrom.trans {h₁ h₂ h₃ : Heap} (first : MarkedFrom h₁ h₂) (second : MarkedFrom h₂ h₃) :
    MarkedFrom h₁ h₃ := by
  obtain ⟨objects, gray, phase, rfl⟩ := first
  obtain ⟨objects', gray', phase', rfl⟩ := second
  exact ⟨objects', gray', phase', rfl⟩

section Marking

variable (h : Heap) (a : Nat)

theorem markedFrom_paint (color : Color) : MarkedFrom h (h.paint a color) :=
  ⟨_, h.gray, h.phase, rfl⟩

theorem markedFrom_shade : MarkedFrom h (h.shade a) := by
  unfold shade
  split
  · split_ifs
    · exact ⟨_, _, h.phase, rfl⟩
    · exact .refl h
  · exact .refl h

theorem markedFrom_foldl_shade (addrs : List Nat) : MarkedFrom h (addrs.foldl shade h) := by
  induction addrs generalizing h with
  | nil => exact .refl h
  | cons a rest ih => exact (h.markedFrom_shade a).trans (ih (h.shade a))

theorem markedFrom_beginMarking : MarkedFrom h h.beginMarking := by
  have hphase : MarkedFrom h { h with phase := .marking } := ⟨h.objects, h.gray, .marking, rfl⟩
  exact hphase.trans (markedFrom_foldl_shade _ h.roots)

theorem markedFrom_scan : MarkedFrom h (h.scan a) := by
  unfold scan
  split
  · split_ifs
    · exact (h.markedFrom_paint a .black).trans (markedFrom_foldl_shade _ _)
    · exact .refl h
  · exact .refl h

theorem markedFrom_scanEntry : MarkedFrom h (h.scanEntry a) := by
  have hgray : MarkedFrom h { h with gray := h.gray.erase a } := ⟨h.objects, _, h.phase, rfl⟩
  exact hgray.trans (markedFrom_scan _ a)

theorem markedFrom_scanNext : MarkedFrom h h.scanNext := by
  unfold scanNext
  split
  · exact .refl h
  · next a rest _ =>
    have hgray : MarkedFrom h { h with gray := rest } := ⟨h.objects, rest, h.phase, rfl⟩
    exact hgray.trans (markedFrom_scan _ a)

theorem markedFrom_drain : MarkedFrom h h.drain := by
  unfold drain
  generalize h.gray.length + h.whites = fuel
  induction fuel generalizing h with
  | zero => exact .refl h
  | succ fuel ih =>
    rw [scanUpTo]
    split_ifs
    · exact .refl h
    · exact h.markedFrom_scanNext.trans (ih h.scanNext)

end Marking

/-! ### Growth -/

/-- **Cutting a block**: the bytes reserved stay, or a new arena is added to them for which the heap
had room within its limit. -/
theorem carve_reserves {sys : System} {h h' : Heap} {total start : Nat}
    (hok : h.carve sys total = .ok (start, h')) :
    h'.config = h.config ∧ (h'.size = h.size ∨
      ∃ a, Arena.reserve sys h.held (max h.config.arenaSize total) = .ok a ∧
        h.size + max h.config.arenaSize total ≤ h.config.maxHeapSize ∧
        h'.size = h.size + a.capacity) := by
  unfold carve at hok
  split at hok
  · obtain ⟨-, rfl⟩ := Prod.mk.inj (Except.ok.inj hok)
    exact ⟨rfl, Or.inl rfl⟩
  · dsimp only at hok
    split at hok
    · cases hok
    · next grown hgrown =>
      obtain rfl := Size.add?_eq_some hgrown
      split_ifs at hok with hlimit
      cases hreserve : Arena.reserve sys h.held (max h.config.arenaSize total) with
      | error e => rw [hreserve] at hok; cases hok
      | ok a =>
        rw [hreserve] at hok
        simp only [bind, Except.bind] at hok
        split at hok
        · cases hok
        · next start' a' hbump =>
          obtain ⟨-, rfl⟩ := Prod.mk.inj (Except.ok.inj hok)
          have hcapacity : a'.capacity = a.capacity :=
            congrArg Region.capacity (Arena.bump_region hbump)
          exact ⟨rfl, Or.inr ⟨a, rfl, Nat.le_of_not_gt hlimit, congrArg (h.size + ·) hcapacity⟩⟩

/-- The bytes reserved are a multiple of `arenaAlign`, and exceed the limit by less than one unit.
They do not exceed it at all if arenas need no rounding. -/
structure Bounded (h : Heap) : Prop where
  whole : arenaAlign ∣ h.size
  near : h.size < h.config.maxHeapSize + arenaAlign
  unrounded : arenaAlign ∣ h.config.arenaSize → h.size ≤ h.config.maxHeapSize

theorem bounded_ofConfig (config : HeapConfig) (order : SweepOrder) :
    (ofConfig config order).Bounded where
  whole := Nat.dvd_zero _
  near := Nat.add_pos_right _ (by decide)
  unrounded _ := Nat.zero_le _

/-- The bound depends on the configuration and the bytes reserved alone. -/
theorem Bounded.of_same {h h' : Heap} (bounded : h.Bounded) (hconfig : h'.config = h.config)
    (hsize : h'.size = h.size) : h'.Bounded := by
  obtain ⟨whole, near, unrounded⟩ := bounded
  rw [← hconfig, ← hsize] at near unrounded
  exact ⟨hsize ▸ whole, near, unrounded⟩

theorem MarkedFrom.bounded {h h' : Heap} (marked : MarkedFrom h h') (bounded : h.Bounded) :
    h'.Bounded := by
  obtain ⟨objects, gray, phase, rfl⟩ := marked
  exact bounded.of_same rfl rfl

/-- **A new arena keeps the bound.**  The block that it is reserved for has a multiple of
`arenaAlign` bytes, so where the configured arena size is one too, the arena is exactly as large as
was checked. -/
theorem Bounded.grow {sys : System} {h h' : Heap} {total : Nat} {a : Arena} (bounded : h.Bounded)
    (htotal : arenaAlign ∣ total) (hpos : 0 < total)
    (hreserve : Arena.reserve sys h.held (max h.config.arenaSize total) = .ok a)
    (hroom : h.size + max h.config.arenaSize total ≤ h.config.maxHeapSize)
    (hconfig : h'.config = h.config) (hsize : h'.size = h.size + a.capacity) : h'.Bounded := by
  have hcapacity := Arena.reserve_capacity hreserve
  obtain ⟨hdvd, -, hlt⟩ := Size.alignUp_arenaAlign hcapacity
  have hasked : max (max h.config.arenaSize total) 1 = max h.config.arenaSize total :=
    Nat.max_eq_left (hpos.trans_le (Nat.le_max_right _ _))
  rw [hasked] at hcapacity hlt
  refine ⟨hsize ▸ Nat.dvd_add bounded.whole hdvd, ?_, fun haligned => ?_⟩
  · rw [hconfig, hsize]
    omega
  · rw [hconfig] at haligned ⊢
    have hwhole : arenaAlign ∣ max h.config.arenaSize total := by
      rcases Nat.le_total h.config.arenaSize total with hle | hle
      · rwa [Nat.max_eq_right hle]
      · rwa [Nat.max_eq_left hle]
    rw [hsize, Size.alignUp_of_dvd hwhole hcapacity]
    exact hroom

theorem Bounded.takeBlock {sys : System} {h h' : Heap} {size total : Nat} {b : FreeBlock}
    (bounded : h.Bounded) (htotal : arenaAlign ∣ total) (hpos : 0 < total)
    (hok : h.takeBlock sys size total = .ok (b, h')) : h'.Bounded := by
  unfold Heap.takeBlock at hok
  split at hok
  · obtain ⟨-, rfl⟩ := Prod.mk.inj (Except.ok.inj hok)
    exact bounded.of_same rfl rfl
  · cases hcarve : h.carve sys total with
    | error e => rw [hcarve] at hok; cases hok
    | ok made =>
      obtain ⟨start, h₁⟩ := made
      rw [hcarve] at hok
      obtain ⟨-, rfl⟩ := Prod.mk.inj (Except.ok.inj hok)
      obtain ⟨hconfig, hsize | ⟨a, hreserve, hroom, hsize⟩⟩ := carve_reserves hcarve
      · exact bounded.of_same hconfig hsize
      · exact bounded.grow htotal hpos hreserve hroom hconfig hsize

theorem Bounded.alloc {sys : System} {h h' : Heap} {size addr : Nat} {type : ObjectType}
    {rooted : Bool} (bounded : h.Bounded) (hok : h.alloc sys size type rooted = .ok (addr, h')) :
    h'.Bounded := by
  unfold Heap.alloc at hok
  split at hok
  · cases hok
  · next rounded hrounded =>
    split at hok
    · cases hok
    · next total htotal =>
      obtain rfl := Size.add?_eq_some htotal
      have hdvd : arenaAlign ∣ rounded + headerSize :=
        Nat.dvd_add (Size.alignUp_arenaAlign hrounded).1 (by decide)
      cases htake : h.takeBlock sys rounded (rounded + headerSize) with
      | error e => rw [htake] at hok; cases hok
      | ok made =>
        obtain ⟨b, h₁⟩ := made
        rw [htake] at hok
        obtain ⟨-, rfl⟩ := Prod.mk.inj (Except.ok.inj hok)
        have hblock := bounded.takeBlock hdvd (Nat.succ_pos _) htake
        exact hblock.of_same rfl rfl

/-! ### Every step keeps the bound -/

theorem Bounded.finishCycle {h : Heap} (bounded : h.Bounded) (root final : Duration) :
    (h.finishCycle root final).Bounded :=
  (h.markedFrom_drain.bounded bounded).of_same rfl rfl

theorem Bounded.collect {h : Heap} (bounded : h.Bounded) (root final : Duration) :
    (h.collect root final).2.Bounded := by
  unfold Heap.collect
  split_ifs
  · have hmarked := h.markedFrom_beginMarking.trans (markedFrom_drain _)
    exact (hmarked.bounded bounded).finishCycle root final
  · exact bounded

/-- **Every call keeps the bound.** -/
theorem Bounded.perform {sys : System} {h : Heap} (bounded : h.Bounded) (op : Op) :
    (h.perform sys op).2.Bounded := by
  cases op with
  | alloc size type rooted =>
    cases hok : h.alloc sys size type rooted with
    | error e =>
      simp only [Heap.perform, hok]
      exact bounded
    | ok made =>
      simp only [Heap.perform, hok]
      exact bounded.alloc hok
  | writeWord addr index value =>
    cases hok : h.writeWord addr index value with
    | error e =>
      simp only [Heap.perform, hok]
      exact bounded
    | ok h' =>
      obtain ⟨o, -, -, rfl⟩ := writeWord_eq_ok hok
      simp only [Heap.perform, hok]
      exact bounded.of_same rfl rfl
  | writePointer addr field target =>
    cases hok : h.writePointer addr field target with
    | error e =>
      simp only [Heap.perform, hok]
      exact bounded
    | ok h' =>
      obtain ⟨o, -, -, rfl⟩ := writePointer_eq_ok hok
      simp only [Heap.perform, hok]
      exact bounded.of_same rfl rfl
  | addRoot addr =>
    show (h.addRoot addr).Bounded
    have hrooted : Bounded { h with roots := h.roots.insert addr } := bounded.of_same rfl rfl
    unfold addRoot
    dsimp only
    split_ifs
    · exact (markedFrom_shade _ addr).bounded hrooted
    · exact hrooted
  | removeRoot addr => exact bounded.of_same rfl rfl
  | collect root final => exact bounded.collect root final
  | monitor root final =>
    show (h.monitor root final).Bounded
    unfold monitor
    split_ifs
    · exact bounded.collect root final
    · exact bounded
  | setEnabled enabled => exact bounded.of_same rfl rfl
  | setTrigger bytes => exact bounded.of_same rfl rfl
  | setPercent percent =>
    show (h.setPercent percent).Bounded
    unfold setPercent
    split_ifs
    · exact bounded
    · exact bounded.of_same rfl rfl

theorem Arises.bounded {sys : System} {h : Heap} (arises : Arises sys h) : h.Bounded := by
  induction arises with
  | start config order => exact bounded_ofConfig config order
  | call past op bounded => exact bounded.perform op
  | begin past hphase bounded => exact (markedFrom_beginMarking _).bounded bounded
  | scan past hqueue bounded => exact (markedFrom_scanEntry _ _).bounded bounded
  | finish past hphase root final bounded => exact bounded.finishCycle root final

/-- **The limit as it is kept**, whatever was done to the heap, also in the middle of a cycle: the
bytes reserved never exceed the limit rounded up to `arenaAlign`.  They never exceed the limit
itself if that is a multiple of `arenaAlign`, or if the configured arena size is. -/
theorem Arises.size_within_rounded_limit {sys : System} {h : Heap} (arises : Arises sys h) :
    h.size ≤ arenaAlign * ((h.config.maxHeapSize + (arenaAlign - 1)) / arenaAlign) ∧
      (arenaAlign ∣ h.config.maxHeapSize ∨ arenaAlign ∣ h.config.arenaSize →
        h.size ≤ h.config.maxHeapSize) := by
  have whole := arises.bounded.whole
  have near := arises.bounded.near
  unfold arenaAlign at whole near ⊢
  refine ⟨by omega, ?_⟩
  rintro (hlimit | harena)
  · omega
  · exact arises.bounded.unrounded harena

/-- A heap whose arenas of 100 bytes are all that its limit allows, with one object. -/
def tight : Heap :=
  (ofConfig { arenaSize := 100, maxHeapSize := 100 }).run .sequential
    [.alloc 16 (.plain "plain" 0) false]

/-- The limit of `tight` is exceeded: its arena was rounded up. -/
theorem tight_exceeds_limit :
    Arises .sequential tight ∧ tight.size = 112 ∧ ¬ tight.size ≤ tight.config.maxHeapSize :=
  ⟨.call (.start _ _) _, by decide, by decide⟩

theorem tight_within_rounded_limit :
    Arises .sequential tight ∧ tight.size ≤ 112 :=
  have arises : Arises .sequential tight := .call (.start _ _) _
  ⟨arises, arises.size_within_rounded_limit.1.trans (by decide)⟩

end Heap

end ManagedHost
