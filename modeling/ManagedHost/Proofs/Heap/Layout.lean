import ManagedHost.Proofs.Heap.History
import Mathlib.Data.List.Nodup
import Mathlib.Data.List.Pairwise

/-!
# The layout of a heap in its arenas

The blocks of a heap, those of live objects and those on the free list, tile the parts of its
arenas that have been handed out: `Tiled` is that invariant.  It speaks of the blocks as a
collection, so an object that is made from a free block, and a sweep that frees objects, only
permute what it speaks of (`Tiled.perm`).  What changes the collection is a block cut from an arena
(`Tiled.bump`), possibly a new one (`Tiled.grow`).

The main result is `History.blocks_tile`.
-/

namespace ManagedHost

/-- The addresses of the block, its header included. -/
def FreeBlock.region (b : FreeBlock) : Region := ⟨b.addr - headerSize, b.footprint⟩

/-- **The blocks tile the arenas**: they are apart, each lies in the filled part of an arena, and
the filled parts hold nothing else. -/
structure Tiled (arenas : List Arena) (blocks : List FreeBlock) : Prop where
  base : ∀ a ∈ arenas, arenaAlign ∣ a.base
  cursor : ∀ a ∈ arenas, arenaAlign ∣ a.cursor
  room : ∀ a ∈ arenas, a.cursor ≤ a.capacity
  arenasApart : (arenas.map Arena.region).Pairwise Region.Apart
  header : ∀ b ∈ blocks, headerSize ≤ b.addr
  addr : ∀ b ∈ blocks, arenaAlign ∣ b.addr
  capacity : ∀ b ∈ blocks, arenaAlign ∣ b.capacity
  blocksApart : blocks.Pairwise fun b c => b.region.Apart c.region
  inside : ∀ b ∈ blocks, ∃ a ∈ arenas, b.region.Within a.filled
  covered : ∀ a ∈ arenas, ∀ x, a.filled.Holds x → ∃ b ∈ blocks, b.region.Holds x

namespace Tiled

variable {arenas : List Arena} {blocks : List FreeBlock}

/-- The order of the blocks does not matter. -/
theorem perm (t : Tiled arenas blocks) {blocks' : List FreeBlock} (hperm : blocks.Perm blocks') :
    Tiled arenas blocks' where
  base := t.base
  cursor := t.cursor
  room := t.room
  arenasApart := t.arenasApart
  header b hb := t.header b (hperm.mem_iff.mpr hb)
  addr b hb := t.addr b (hperm.mem_iff.mpr hb)
  capacity b hb := t.capacity b (hperm.mem_iff.mpr hb)
  blocksApart := (hperm.pairwise_iff fun h => h.symm).mp t.blocksApart
  inside b hb := t.inside b (hperm.mem_iff.mpr hb)
  covered a ha x hx := by
    obtain ⟨b, hb, hbx⟩ := t.covered a ha x hx
    exact ⟨b, hperm.mem_iff.mp hb, hbx⟩

theorem filled_within (t : Tiled arenas blocks) {a : Arena} (ha : a ∈ arenas) :
    a.filled.Within a.region :=
  Arena.filled_within (t.room a ha)

/-- Two arenas of a tiled heap are apart, or they are the same. -/
theorem eq_or_apart {before after : List Arena} {a a₂ : Arena}
    (t : Tiled (before ++ a :: after) blocks) (ha₂ : a₂ ∈ before ++ a :: after) :
    a₂ = a ∨ (a₂.region.Apart a.region ∧ a₂ ∈ before ++ after) :=
  Arena.eq_or_apart t.arenasApart ha₂

/-- **Cutting a block from an arena.**  The block starts at the cursor, behind all the blocks of
its arena. -/
theorem bump {before after : List Arena} {a : Arena} {size : Nat}
    (t : Tiled (before ++ a :: after) blocks) (hsize : arenaAlign ∣ size)
    (hroom : a.cursor + (size + headerSize) ≤ a.capacity) :
    Tiled (before ++ { a with cursor := a.cursor + (size + headerSize) } :: after)
      (⟨a.base + a.cursor + headerSize, size⟩ :: blocks) := by
  set a' : Arena := { a with cursor := a.cursor + (size + headerSize) }
  set b : FreeBlock := ⟨a.base + a.cursor + headerSize, size⟩ with hb
  have hmem : a ∈ before ++ a :: after := List.mem_append_right _ List.mem_cons_self
  have hmem' : a' ∈ before ++ a' :: after := List.mem_append_right _ List.mem_cons_self
  have hregion : b.region = ⟨a.base + a.cursor, size + headerSize⟩ := by
    rw [FreeBlock.region, FreeBlock.footprint, hb]
    simp [Nat.add_comm]
  -- an arena of the new list is the one that was cut, or one of the old list
  have harena : ∀ a₂ ∈ before ++ a' :: after, a₂ = a' ∨ a₂ ∈ before ++ a :: after :=
    fun a₂ ha₂ => mem_replaced ha₂
  have hkept : ∀ a₂ ∈ before ++ after, a₂ ∈ before ++ a' :: after := fun a₂ ha₂ =>
    List.perm_middle.mem_iff.mpr (List.mem_cons_of_mem _ ha₂)
  refine
    { base := ?base, cursor := ?cursor, room := ?room, arenasApart := ?arenasApart,
      header := ?header, addr := ?addr, capacity := ?capacity, blocksApart := ?blocksApart,
      inside := ?inside, covered := ?covered }
  case base =>
    intro a₂ ha₂
    rcases harena a₂ ha₂ with rfl | ha₂
    · exact t.base a hmem
    · exact t.base a₂ ha₂
  case cursor =>
    intro a₂ ha₂
    rcases harena a₂ ha₂ with rfl | ha₂
    · exact (Nat.dvd_add_right (t.cursor a hmem)).mpr
        ((Nat.dvd_add_right hsize).mpr (by decide))
    · exact t.cursor a₂ ha₂
  case room =>
    intro a₂ ha₂
    rcases harena a₂ ha₂ with rfl | ha₂
    · exact hroom
    · exact t.room a₂ ha₂
  case arenasApart =>
    have hsame : (before ++ a' :: after).map Arena.region =
        (before ++ a :: after).map Arena.region := by
      rw [List.map_append, List.map_cons, List.map_append, List.map_cons]
      rfl
    rw [hsame]
    exact t.arenasApart
  case header =>
    intro c hc
    rcases List.mem_cons.mp hc with rfl | hc
    · exact Nat.le_add_left _ _
    · exact t.header c hc
  case addr =>
    intro c hc
    rcases List.mem_cons.mp hc with rfl | hc
    · exact (Nat.dvd_add_right (Nat.dvd_add (t.base a hmem) (t.cursor a hmem))).mpr (by decide)
    · exact t.addr c hc
  case capacity =>
    intro c hc
    rcases List.mem_cons.mp hc with rfl | hc
    · exact hsize
    · exact t.capacity c hc
  case blocksApart =>
    refine List.pairwise_cons.mpr ⟨?_, t.blocksApart⟩
    intro c hc
    obtain ⟨a₂, ha₂, hwithin⟩ := t.inside c hc
    rcases t.eq_or_apart ha₂ with rfl | ⟨hapart, -⟩
    · -- in the same arena, the other block lies below the old cursor
      right
      rw [hregion]
      exact hwithin.2
    · refine (hapart.mono (hwithin.trans (t.filled_within ha₂)) ?_).symm
      rw [hregion]
      exact ⟨Nat.le_add_right _ _, by unfold Region.stop Arena.region; dsimp only; omega⟩
  case inside =>
    intro c hc
    rcases List.mem_cons.mp hc with rfl | hc
    · refine ⟨a', hmem', ?_⟩
      rw [hregion]
      exact ⟨Nat.le_add_right _ _, (Nat.add_assoc _ _ _).le⟩
    · obtain ⟨a₂, ha₂, hwithin⟩ := t.inside c hc
      rcases t.eq_or_apart ha₂ with rfl | ⟨-, hmem₂⟩
      · exact ⟨a', hmem', hwithin.1, hwithin.2.trans (Nat.add_le_add_left (Nat.le_add_right _ _) _)⟩
      · exact ⟨a₂, hkept a₂ hmem₂, hwithin⟩
  case covered =>
    intro a₂ ha₂ x hx
    rcases harena a₂ ha₂ with rfl | ha₂
    · -- below the old cursor there are old blocks, and above it there is the new one
      by_cases hlow : x < a.base + a.cursor
      · obtain ⟨c, hc, hcx⟩ := t.covered a hmem x ⟨hx.1, hlow⟩
        exact ⟨c, List.mem_cons_of_mem _ hc, hcx⟩
      · refine ⟨b, List.mem_cons_self, ?_⟩
        rw [hregion]
        exact ⟨Nat.le_of_not_lt hlow, hx.2.trans_eq (Nat.add_assoc _ _ _).symm⟩
    · obtain ⟨c, hc, hcx⟩ := t.covered a₂ ha₂ x hx
      exact ⟨c, List.mem_cons_of_mem _ hc, hcx⟩

/-- **A new arena** holds no block yet. -/
theorem grow {a : Arena} (t : Tiled arenas blocks) (hbase : arenaAlign ∣ a.base)
    (hcursor : a.cursor = 0) (hapart : ∀ r ∈ arenas.map Arena.region, r.Apart a.region) :
    Tiled (arenas ++ [a]) blocks := by
  have harena : ∀ a₂ ∈ arenas ++ [a], a₂ ∈ arenas ∨ a₂ = a := fun a₂ ha₂ =>
    (List.mem_append.mp ha₂).imp_right List.mem_singleton.mp
  refine
    { base := ?base, cursor := ?cursor, room := ?room, arenasApart := ?arenasApart,
      header := t.header, addr := t.addr, capacity := t.capacity, blocksApart := t.blocksApart,
      inside := ?inside, covered := ?covered }
  case base =>
    intro a₂ ha₂
    rcases harena a₂ ha₂ with ha₂ | rfl
    · exact t.base a₂ ha₂
    · exact hbase
  case cursor =>
    intro a₂ ha₂
    rcases harena a₂ ha₂ with ha₂ | rfl
    · exact t.cursor a₂ ha₂
    · rw [hcursor]
      exact Nat.dvd_zero _
  case room =>
    intro a₂ ha₂
    rcases harena a₂ ha₂ with ha₂ | rfl
    · exact t.room a₂ ha₂
    · rw [hcursor]
      exact Nat.zero_le _
  case arenasApart =>
    rw [List.map_append, List.pairwise_append]
    refine ⟨t.arenasApart, List.pairwise_singleton _ _, ?_⟩
    intro r hr s hs
    rw [List.map_singleton, List.mem_singleton] at hs
    rw [hs]
    exact hapart r hr
  case inside =>
    intro b hb
    obtain ⟨a₂, ha₂, hwithin⟩ := t.inside b hb
    exact ⟨a₂, List.mem_append_left _ ha₂, hwithin⟩
  case covered =>
    intro a₂ ha₂ x hx
    rcases harena a₂ ha₂ with ha₂ | rfl
    · exact t.covered a₂ ha₂ x hx
    · obtain ⟨hlo, hhi⟩ := hx
      unfold Region.stop Arena.filled at hhi
      rw [hcursor] at hhi
      exact absurd hhi (Nat.not_lt_of_le hlo)

/-- Blocks that are apart have different addresses. -/
theorem addr_nodup (t : Tiled arenas blocks) : (blocks.map FreeBlock.addr).Nodup := by
  refine List.pairwise_map.mpr (t.blocksApart.imp ?_)
  intro b c hapart heq
  unfold Region.Apart Region.stop FreeBlock.region FreeBlock.footprint headerSize at hapart
  dsimp only at hapart
  omega

/-- A block lies in only one arena. -/
theorem existsUnique_arena (t : Tiled arenas blocks) {b : FreeBlock} (hb : b ∈ blocks) :
    ∃! a, a ∈ arenas ∧ b.region.Within a.filled := by
  obtain ⟨a, ha, hwithin⟩ := t.inside b hb
  refine ⟨a, ⟨ha, hwithin⟩, ?_⟩
  rintro a₂ ⟨ha₂, hwithin₂⟩
  obtain ⟨before, after, rfl⟩ := List.append_of_mem ha
  refine (t.eq_or_apart ha₂).resolve_right fun hother => ?_
  -- otherwise the first address of the block would lie in two regions that are apart
  have hfirst : b.region.Holds b.region.base := by
    refine ⟨le_rfl, ?_⟩
    unfold Region.stop FreeBlock.region FreeBlock.footprint headerSize
    dsimp only
    omega
  exact hother.1.not_holds ((hwithin₂.trans (t.filled_within ha₂)).holds hfirst)
    ((hwithin.trans (t.filled_within ha)).holds hfirst)

/-- No block reaches into the free part of an arena. -/
theorem not_holds (t : Tiled arenas blocks) {b : FreeBlock} (hb : b ∈ blocks) {a : Arena}
    (ha : a ∈ arenas) {x : Nat} (hlo : a.base + a.cursor ≤ x) (hhi : x < a.base + a.capacity) :
    ¬ b.region.Holds x := by
  intro hx
  obtain ⟨a₂, ha₂, hwithin⟩ := t.inside b hb
  have hfilled := hwithin.holds hx
  obtain ⟨before, after, rfl⟩ := List.append_of_mem ha
  rcases t.eq_or_apart ha₂ with rfl | ⟨hapart, -⟩
  · exact absurd hfilled.2 (Nat.not_lt_of_le hlo)
  · exact hapart.not_holds ((t.filled_within ha₂).holds hfilled)
      ⟨(Nat.le_add_right _ _).trans hlo, hhi⟩

/-- The blocks hold exactly the addresses below the cursors. -/
theorem holds_iff (t : Tiled arenas blocks) (x : Nat) :
    (∃ b ∈ blocks, b.region.Holds x) ↔ ∃ a ∈ arenas, a.filled.Holds x := by
  constructor
  · rintro ⟨b, hb, hbx⟩
    obtain ⟨a, ha, hwithin⟩ := t.inside b hb
    exact ⟨a, ha, hwithin.holds hbx⟩
  · rintro ⟨a, ha, hax⟩
    exact t.covered a ha x hax

end Tiled

namespace Heap

/-- All blocks of the heap: those of live objects, then those on the free list. -/
def blocks (h : Heap) : List FreeBlock := h.objects.map Object.toFree ++ h.free

theorem toFree_mem_blocks {h : Heap} {o : Object} (ho : o ∈ h.objects) : o.toFree ∈ h.blocks :=
  List.mem_append_left _ (List.mem_map_of_mem ho)

/-! ### Operations keep the tiling -/

theorem blocks_occupy (h : Heap) (b : FreeBlock) (type : ObjectType) (rooted : Bool) :
    (h.occupy b type rooted).blocks = b :: h.blocks := rfl

/-- **The block for a new object** is one more tile, or one that was free before. -/
theorem Obtains.tiled {sys : System} (sound : sys.Sound) {h h' : Heap} {size : Nat} {b : FreeBlock}
    (hb : Obtains sys h size b h') (hsize : arenaAlign ∣ size) (t : Tiled h.arenas h.blocks) :
    Tiled h'.arenas (b :: h'.blocks) := by
  cases hb with
  | @reused _ before after hfree hfit =>
    refine t.perm ?_
    unfold blocks
    rw [hfree]
    exact (List.Perm.append_left _ List.perm_middle).trans List.perm_middle
  | @carved start a a' before after harenas hbump =>
    rw [harenas] at t
    have hmem : a ∈ before ++ a :: after := List.mem_append_right _ List.mem_cons_self
    obtain ⟨rfl, rfl, hroom⟩ :=
      Arena.bump_of_aligned (Nat.dvd_add (t.base a hmem) (t.cursor a hmem)) hbump
    exact t.bump hsize hroom
  | @grown start a a' hreserve hbump =>
    obtain ⟨ha, hcapacity, -, -⟩ := Arena.reserve_eq_ok hreserve
    have hbase : arenaAlign ∣ a.base := by
      rw [ha]
      exact sound.aligned _ _
    have hcursor : a.cursor = 0 := by rw [ha]
    -- the system has placed the arena apart from all that the heap holds
    have hapart : ∀ r ∈ h.arenas.map Arena.region, r.Apart a.region := by
      intro r hr
      have hregion : a.region = ⟨sys.place h.held a.capacity, a.capacity⟩ := by
        unfold Arena.region
        rw [ha]
      rw [hregion]
      exact sound.fresh h.held a.capacity r hr
    have t₁ := t.grow hbase hcursor hapart
    have haligned : arenaAlign ∣ a.base + a.cursor := by rwa [hcursor]
    obtain ⟨rfl, rfl, hroom⟩ := Arena.bump_of_aligned haligned hbump
    exact t₁.bump hsize hroom

/-- A sweep moves blocks from the objects to the free list. -/
theorem blocks_reclaim (h : Heap) (keep : Nat → Bool) : h.blocks.Perm (h.reclaim keep).blocks := by
  -- every object is either kept or freed
  have hsplit : (h.objects.filter (fun o => keep o.addr) ++
      h.objects.filter (fun o => !keep o.addr)).Perm h.objects := List.filter_append_perm _ _
  unfold blocks reclaim
  rw [← List.append_assoc]
  refine List.Perm.append_right _ ?_
  refine (hsplit.symm.map Object.toFree).trans ?_
  rw [List.map_append]
  exact List.Perm.append_left _ ((List.reverse_perm _).trans (h.order.perm _ _)).symm

theorem Effect.tiled {sys : System} (sound : sys.Sound) {h h' : Heap} {op : Op}
    {event : Option Event} (eff : Effect sys h op event h') (r : h.AtRest)
    (t : Tiled h.arenas h.blocks) : Tiled h'.arenas h'.blocks := by
  cases eff with
  | nothing => exact t
  | made type rooted hrounded hblock =>
    rw [blocks_occupy]
    exact hblock.tiled sound (Size.alignUp_arenaAlign hrounded).1 t
  | stored hop hlive hindex => exact t
  | rooted op roots => exact t
  | collected hop root final =>
    obtain ⟨keep, -, heq⟩ := r.cycle_eq root final
    rw [heq]
    exact t.perm (h.blocks_reclaim keep)
  | tuned op enabled trigger growthRatio => exact t

theorem History.tiled {sys : System} (sound : sys.Sound) {log : List Event} {h : Heap}
    (hist : History sys log h) : Tiled h.arenas h.blocks := by
  induction hist with
  | start config order => constructor <;> simp [ofConfig, blocks]
  | step past op t => exact (past.effect op).tiled sound past.atRest t

/-! ### The size of a request -/

/-- The size that was asked for when the object at the address was made. -/
def requested : List Event → Nat → Option Nat
  | [], _ => none
  | .made addr' size :: log, addr => if addr' = addr then some size else requested log addr
  | .stored _ _ _ :: log, addr => requested log addr

theorem Obtains.le_capacity {sys : System} {h h' : Heap} {size : Nat} {b : FreeBlock}
    (hb : Obtains sys h size b h') : size ≤ b.capacity := by
  cases hb with
  | reused hfree hfit => exact hfit
  | carved harenas hbump => exact le_rfl
  | grown hreserve hbump => exact le_rfl

theorem Obtains.objects_eq {sys : System} {h h' : Heap} {size : Nat} {b : FreeBlock}
    (hb : Obtains sys h size b h') : h'.objects = h.objects := by
  cases hb <;> rfl

/-- **The block of a new object is nobody else's.** -/
theorem Obtains.ne_addr {sys : System} (sound : sys.Sound) {h h' : Heap} {size : Nat}
    {b : FreeBlock} (hb : Obtains sys h size b h') (hsize : arenaAlign ∣ size)
    (t : Tiled h.arenas h.blocks) : ∀ o ∈ h.objects, o.addr ≠ b.addr := by
  intro o ho heq
  have hnodup := (hb.tiled sound hsize t).addr_nodup
  rw [List.map_cons, List.nodup_cons] at hnodup
  refine hnodup.1 (List.mem_map.mpr ⟨o.toFree, ?_, heq⟩)
  refine toFree_mem_blocks ?_
  rw [hb.objects_eq]
  exact ho

theorem Effect.requested {sys : System} (sound : sys.Sound) {log : List Event} {h h' : Heap}
    {op : Op} {event : Option Event} (eff : Effect sys h op event h') (r : h.AtRest)
    (t : Tiled h.arenas h.blocks)
    (hlog : ∀ o ∈ h.objects, ∃ size, requested log o.addr = some size ∧ size ≤ o.capacity) :
    ∀ o ∈ h'.objects, ∃ size, Heap.requested (event.toList ++ log) o.addr = some size ∧
      size ≤ o.capacity := by
  cases eff with
  | nothing => exact hlog
  | @made size rounded b h₁ type rooted hrounded hblock =>
    obtain ⟨hdvd, hle, -⟩ := Size.alignUp_arenaAlign hrounded
    intro o ho
    rcases List.mem_cons.mp ho with rfl | ho
    · refine ⟨size, if_pos rfl, ?_⟩
      exact ((Nat.le_max_left size 1).trans hle).trans hblock.le_capacity
    · rw [hblock.objects_eq] at ho
      obtain ⟨size', hsize', hle'⟩ := hlog o ho
      refine ⟨size', ?_, hle'⟩
      rw [← hsize']
      exact if_neg (hblock.ne_addr sound hdvd t o ho).symm
  | stored hop hlive hindex => exact hlog
  | rooted op roots => exact hlog
  | collected hop root final =>
    obtain ⟨keep, -, heq⟩ := r.cycle_eq root final
    rw [heq]
    exact fun o ho => hlog o (List.mem_filter.mp ho).1
  | tuned op enabled trigger growthRatio => exact hlog

theorem History.requested {sys : System} (sound : sys.Sound) {log : List Event} {h : Heap}
    (hist : History sys log h) :
    ∀ o ∈ h.objects, ∃ size, Heap.requested log o.addr = some size ∧ size ≤ o.capacity := by
  induction hist with
  | start config order => exact fun o ho => absurd ho List.not_mem_nil
  | step past op hlog => exact (past.effect op).requested sound past.atRest (past.tiled sound) hlog

/-- **The blocks of a heap tile its arenas**, whatever its history: the blocks of live objects and
of the free list are apart and listed once, each lies below the cursor of one arena, together they
leave out no byte below a cursor, and all are aligned and large enough. -/
theorem History.blocks_tile {sys : System} (sound : sys.Sound) {log : List Event} {h : Heap}
    (hist : History sys log h) :
    h.blocks.Pairwise (fun b c => b.region.Apart c.region) ∧
      (h.blocks.map FreeBlock.addr).Nodup ∧
      (∀ b ∈ h.blocks, ∃! a, a ∈ h.arenas ∧ b.region.Within a.filled) ∧
      (h.arenas.map Arena.region).Pairwise Region.Apart ∧
      (∀ x, (∃ b ∈ h.blocks, b.region.Holds x) ↔ ∃ a ∈ h.arenas, a.filled.Holds x) ∧
      (∀ b ∈ h.blocks, headerSize ≤ b.addr ∧ arenaAlign ∣ b.addr) ∧
      ∀ o ∈ h.objects, arenaAlign ∣ o.capacity ∧
        ∃ size, Heap.requested log o.addr = some size ∧ size ≤ o.capacity := by
  have t := hist.tiled sound
  refine ⟨t.blocksApart, t.addr_nodup, fun b hb => t.existsUnique_arena hb, t.arenasApart,
    t.holds_iff, fun b hb => ⟨t.header b hb, t.addr b hb⟩, fun o ho => ⟨?_, ?_⟩⟩
  · exact t.capacity o.toFree (toFree_mem_blocks ho)
  · exact hist.requested sound o ho

/-- A heap that has freed two blocks and used one of them again. -/
def recycled : Heap :=
  let plain := ObjectType.plain "plain" 0
  (ofConfig {}).run .sequential
    [.alloc 40 plain true, .alloc 100 plain false, .alloc 7 plain false, .collect .zero .zero,
      .alloc 90 plain true]

theorem recycled_blocks_tile :
    recycled.blocks = [⟨65648, 112⟩, ⟨65568, 48⟩, ⟨65792, 16⟩] ∧
      recycled.blocks.Pairwise (fun b c => b.region.Apart c.region) ∧
      ∃ log, ∀ o ∈ recycled.objects, arenaAlign ∣ o.capacity ∧
        ∃ size, Heap.requested log o.addr = some size ∧ size ≤ o.capacity := by
  have sound : System.sequential.Sound := System.sequential_sound _ _
  obtain ⟨log, hist⟩ : ∃ log, History .sequential log recycled := (History.start {} .listed).run _
  obtain ⟨hapart, -, -, -, -, -, hobjects⟩ := hist.blocks_tile sound
  exact ⟨by decide, hapart, log, hobjects⟩

/-! ### The words of an object are its own -/

/-- The address of a word lies in the block of its object. -/
theorem wordAddr_holds {h : Heap} (t : Tiled h.arenas h.blocks) {o : Object} (ho : o ∈ h.objects)
    {i : Nat} (hi : i < o.words) : o.toFree.region.Holds (wordAddr o i) := by
  have hheader := t.header o.toFree (toFree_mem_blocks ho)
  unfold Object.words wordSize at hi
  unfold Object.toFree headerSize at hheader
  unfold Region.Holds Region.stop FreeBlock.region FreeBlock.footprint Object.toFree wordAddr
    wordSize headerSize
  dsimp only at hheader ⊢
  omega

/-- In a tiled heap an address leads to one object only. -/
theorem find?_of_mem {h : Heap} (t : Tiled h.arenas h.blocks) {o : Object} (ho : o ∈ h.objects) :
    h.find? o.addr = some o := by
  obtain ⟨p, hp⟩ := Option.isSome_iff_exists.mp (isLive_of_mem ho)
  have hnodup : (h.objects.map Object.addr).Nodup := by
    have hall := t.addr_nodup
    unfold blocks at hall
    rw [List.map_append, List.map_map] at hall
    exact List.Nodup.of_append_left hall
  rw [hp, List.inj_on_of_nodup_map hnodup (find?_mem hp) ho (find?_addr hp)]

theorem find?_occupy (h : Heap) (b : FreeBlock) (type : ObjectType) (rooted : Bool) {a : Nat}
    (ha : b.addr ≠ a) : (h.occupy b type rooted).find? a = h.find? a :=
  List.find?_cons_of_neg (by simpa using ha)

/-- **No word belongs to two objects**, and no two words of an object coincide. -/
theorem wordAddr_inj {h : Heap} (t : Tiled h.arenas h.blocks) {o p : Object} (ho : o ∈ h.objects)
    (hp : p ∈ h.objects) {i j : Nat} (hi : i < o.words) (hj : j < p.words)
    (heq : wordAddr o i = wordAddr p j) : o = p ∧ i = j := by
  have hsame : o = p := by
    by_contra hne
    have hsymm : Std.Symm fun o p : Object => o.toFree.region.Apart p.toFree.region :=
      ⟨fun _ _ hapart => hapart.symm⟩
    have hobjects : h.objects.Pairwise fun o p => o.toFree.region.Apart p.toFree.region := by
      have hall := (List.pairwise_append.mp t.blocksApart).1
      rwa [List.pairwise_map] at hall
    have hapart := hobjects.forall ho hp hne
    exact hapart.not_holds (wordAddr_holds t ho hi) (heq ▸ wordAddr_holds t hp hj)
  subst hsame
  refine ⟨rfl, ?_⟩
  unfold wordAddr wordSize at heq
  omega

/-- **Making room for a new object leaves the words of the others alone.** -/
theorem Obtains.words_get {sys : System} (sound : sys.Sound) {h h' : Heap} {size : Nat}
    {b : FreeBlock} (hb : Obtains sys h size b h') (hsize : arenaAlign ∣ size)
    (t : Tiled h.arenas h.blocks) {o : Object} (ho : o ∈ h.objects) {i : Nat} (hi : i < o.words) :
    h'.words.get (wordAddr o i) = h.words.get (wordAddr o i) := by
  have hholds := wordAddr_holds t ho hi
  have t' := hb.tiled sound hsize t
  cases hb with
  | @reused _ before after hfree hfit =>
    -- the block that is wiped is apart from the block of the object
    have hapart : b.region.Apart o.toFree.region :=
      (List.pairwise_cons.mp t'.blocksApart).1 o.toFree (toFree_mem_blocks ho)
    have hpayload : b.addr ≤ wordAddr o i ∧ wordAddr o i < b.addr + b.capacity →
        b.region.Holds (wordAddr o i) := by
      intro hin
      have hheader := t'.header b List.mem_cons_self
      unfold Region.Holds Region.stop FreeBlock.region FreeBlock.footprint headerSize
      unfold headerSize at hheader
      dsimp only
      omega
    rw [Store.get_clear]
    exact if_neg fun hin => hapart.not_holds (hpayload hin) hholds
  | carved harenas hbump => rfl
  | @grown start a a' hreserve hbump =>
    -- the arena that is cleared is apart from the one in which the object lies
    obtain ⟨a₂, ha₂, hwithin⟩ := t.inside o.toFree (toFree_mem_blocks ho)
    have hapart : a₂.region.Apart a'.region := by
      have hall := t'.arenasApart
      rw [List.map_append, List.pairwise_append] at hall
      exact hall.2.2 _ (List.mem_map_of_mem ha₂) _ List.mem_cons_self
    have hregion := (hwithin.trans (t.filled_within ha₂)).holds hholds
    rw [Store.get_clear]
    exact if_neg fun hin => hapart.not_holds hregion hin

end Heap

end ManagedHost
