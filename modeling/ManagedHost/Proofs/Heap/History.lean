import ManagedHost.Proofs.Heap.Cycle
import ManagedHost.Proofs.Memory.Carving

/-!
# Histories of a heap

A `History` is a run of operations on a heap that starts empty: any operations in any order, those
that fail included.  It carries the log of what was allocated and stored, newest first.

Statements about all heaps that can arise are proved by induction on the history, and what one
operation can do to a heap at rest is said once and for all by `Effect`: `perform_effect`.  How an
allocation finds its block is `Obtains`, with `alloc_eq_ok`.
-/

namespace ManagedHost

namespace Heap

/-! ### Where the block of a new object comes from -/

/-- **First fit**: the block taken is large enough, the blocks before it are not, and the others
keep their order. -/
theorem takeFirstFit_eq_some {size : Nat} {free rest : List FreeBlock} {b : FreeBlock}
    (h : takeFirstFit size free = some (b, rest)) :
    ∃ before after, free = before ++ b :: after ∧ rest = before ++ after ∧ size ≤ b.capacity ∧
      ∀ c ∈ before, c.capacity < size := by
  induction free generalizing rest with
  | nil => exact absurd h (by simp [takeFirstFit])
  | cons c free ih =>
    -- either the first block fits, or the search goes on behind it
    rw [takeFirstFit] at h
    split_ifs at h with hfit
    · obtain ⟨rfl, rfl⟩ := Prod.mk.inj (Option.some.inj h)
      exact ⟨[], free, rfl, rfl, hfit, fun _ hc => absurd hc List.not_mem_nil⟩
    · obtain ⟨⟨found, rest'⟩, hrest, hpair⟩ := Option.map_eq_some_iff.mp h
      obtain ⟨rfl, rfl⟩ := Prod.mk.inj hpair
      obtain ⟨before, after, rfl, rfl, hb, hbefore⟩ := ih hrest
      refine ⟨c :: before, after, rfl, rfl, hb, ?_⟩
      intro d hd
      rcases List.mem_cons.mp hd with rfl | hd
      · exact Nat.lt_of_not_ge hfit
      · exact hbefore d hd

/-- How the heap `h` provides a block for a payload of `size` bytes: the block, and the heap
without an object in it yet. -/
inductive Obtains (sys : System) (h : Heap) (size : Nat) : FreeBlock → Heap → Prop where
  /-- A block from the free list, wiped. -/
  | reused {b : FreeBlock} {before after : List FreeBlock}
      (hfree : h.free = before ++ b :: after) (hfit : size ≤ b.capacity) :
      Obtains sys h size b { h with
        free := before ++ after
        freeBlocks := h.freeBlocks - 1
        words := h.words.clear b.addr (b.addr + b.capacity) }
  /-- A block cut from an arena with room. -/
  | carved {start : Nat} {a a' : Arena} {before after : List Arena}
      (harenas : h.arenas = before ++ a :: after)
      (hbump : a.bump (size + headerSize) arenaAlign = some (start, a')) :
      Obtains sys h size ⟨start + headerSize, size⟩ { h with arenas := before ++ a' :: after }
  /-- A block cut from a new arena. -/
  | grown {start : Nat} {a a' : Arena}
      (hreserve : Arena.reserve sys h.held (max h.config.arenaSize (size + headerSize)) = .ok a)
      (hbump : a.bump (size + headerSize) arenaAlign = some (start, a')) :
      Obtains sys h size ⟨start + headerSize, size⟩ { h with
        arenas := h.arenas ++ [a']
        size := h.size + a'.capacity
        words := h.words.clear a'.base (a'.base + a'.capacity) }

theorem carve_obtains {sys : System} {h h' : Heap} {size start : Nat}
    (hok : h.carve sys (size + headerSize) = .ok (start, h')) :
    Obtains sys h size ⟨start + headerSize, size⟩ h' := by
  unfold carve at hok
  split at hok
  · next start' skipped arenas hfirst =>
    obtain ⟨rfl, rfl⟩ := Prod.mk.inj (Except.ok.inj hok)
    obtain ⟨before, a, a', after, harenas, rfl, hbump, -⟩ := Arena.bumpFirst_eq_some hfirst
    exact .carved harenas hbump
  · dsimp only at hok
    split at hok
    · cases hok
    · split_ifs at hok
      cases hreserve : Arena.reserve sys h.held (max h.config.arenaSize (size + headerSize)) with
      | error e => rw [hreserve] at hok; cases hok
      | ok a =>
        rw [hreserve] at hok
        simp only [bind, Except.bind] at hok
        split at hok
        · cases hok
        · next start' a' hbump =>
          obtain ⟨rfl, rfl⟩ := Prod.mk.inj (Except.ok.inj hok)
          exact .grown hreserve hbump

theorem takeBlock_obtains {sys : System} {h h' : Heap} {size : Nat} {b : FreeBlock}
    (hok : h.takeBlock sys size (size + headerSize) = .ok (b, h')) : Obtains sys h size b h' := by
  unfold takeBlock at hok
  split at hok
  · next b' free hfit =>
    obtain ⟨rfl, rfl⟩ := Prod.mk.inj (Except.ok.inj hok)
    obtain ⟨before, after, hfree, rfl, hsize, -⟩ := takeFirstFit_eq_some hfit
    exact .reused hfree hsize
  · cases hcarve : h.carve sys (size + headerSize) with
    | error e => rw [hcarve] at hok; cases hok
    | ok made =>
      obtain ⟨start, h₁⟩ := made
      rw [hcarve] at hok
      obtain ⟨rfl, rfl⟩ := Prod.mk.inj (Except.ok.inj hok)
      exact carve_obtains hcarve

/-- Put a new object into the block. -/
def occupy (h : Heap) (b : FreeBlock) (type : ObjectType) (rooted : Bool) : Heap :=
  { h with
    objects :=
      ⟨b.addr, b.capacity, type, if h.phase = .marking then .black else .white⟩ :: h.objects
    roots := if rooted then h.roots.insert b.addr else h.roots
    used := h.used + b.footprint
    totalAllocated := h.totalAllocated + b.footprint }

/-- **A successful allocation** obtains a block for the rounded size and puts an object into it. -/
theorem alloc_eq_ok {sys : System} {h h' : Heap} {size addr : Nat} {type : ObjectType}
    {rooted : Bool} (hok : h.alloc sys size type rooted = .ok (addr, h')) :
    ∃ rounded b h₁, Size.alignUp (max size 1) arenaAlign = some rounded ∧
      Obtains sys h rounded b h₁ ∧ addr = b.addr ∧ h' = h₁.occupy b type rooted := by
  unfold alloc at hok
  split at hok
  · cases hok
  · next rounded hrounded =>
    split at hok
    · cases hok
    · next total htotal =>
      obtain rfl := Size.add?_eq_some htotal
      cases htake : h.takeBlock sys rounded (rounded + headerSize) with
      | error e => rw [htake] at hok; cases hok
      | ok made =>
        obtain ⟨b, h₁⟩ := made
        rw [htake] at hok
        obtain ⟨rfl, rfl⟩ := Prod.mk.inj (Except.ok.inj hok)
        exact ⟨rounded, b, h₁, hrounded, takeBlock_obtains htake, rfl, rfl⟩

/-! ### Operations -/

/-- A call on a heap from outside. -/
inductive Op where
  | alloc (size : Nat) (type : ObjectType) (rooted : Bool)
  | writeWord (addr index value : Nat)
  | writePointer (addr field : Nat) (target : Option Nat)
  | addRoot (addr : Nat)
  | removeRoot (addr : Nat)
  | collect (root final : Duration)
  | monitor (root final : Duration)
  | setEnabled (enabled : Bool)
  | setTrigger (bytes : Nat)
  | setPercent (percent : Nat)

/-- The object, the word and the value that the operation asks to store, if it is a store. -/
def Op.store? : Op → Option (Nat × Nat × Nat)
  | .writeWord addr index value => some (addr, index, value)
  | .writePointer addr field target => some (addr, field, target.getD 0)
  | _ => none

/-- Whether the operation may run a cycle. -/
def Op.collects : Op → Bool
  | .collect _ _ => true
  | .monitor _ _ => true
  | _ => false

/-- What an operation did to the objects of a heap. -/
inductive Event where
  /-- An object was made at `addr`, for a request of `size` bytes. -/
  | made (addr size : Nat)
  /-- The value was stored in a word of the object at `addr`. -/
  | stored (addr index value : Nat)
deriving DecidableEq

/-- Perform an operation.  One that fails leaves the heap as it is. -/
def perform (sys : System) (h : Heap) : Op → Option Event × Heap
  | .alloc size type rooted =>
    match h.alloc sys size type rooted with
    | .ok (addr, h') => (some (.made addr size), h')
    | .error _ => (none, h)
  | .writeWord addr index value =>
    match h.writeWord addr index value with
    | .ok h' => (some (.stored addr index value), h')
    | .error _ => (none, h)
  | .writePointer addr field target =>
    match h.writePointer addr field target with
    | .ok h' => (some (.stored addr field (target.getD 0)), h')
    | .error _ => (none, h)
  | .addRoot addr => (none, h.addRoot addr)
  | .removeRoot addr => (none, h.removeRoot addr)
  | .collect root final => (none, (h.collect root final).2)
  | .monitor root final => (none, h.monitor root final)
  | .setEnabled enabled => (none, { h with enabled })
  | .setTrigger bytes => (none, h.setTrigger bytes)
  | .setPercent percent => (none, h.setPercent percent)

/-- **The heaps that can arise**, each with the log of what happened to its objects, the newest
event first. -/
inductive History (sys : System) : List Event → Heap → Prop where
  | start (config : HeapConfig) (order : SweepOrder) : History sys [] (ofConfig config order)
  | step {log : List Event} {h : Heap} (past : History sys log h) (op : Op) :
      History sys ((h.perform sys op).1.toList ++ log) (h.perform sys op).2

/-- Perform operations one after the other. -/
def run (sys : System) (h : Heap) (ops : List Op) : Heap :=
  ops.foldl (fun h op => (h.perform sys op).2) h

theorem History.run {sys : System} {log : List Event} {h : Heap} (past : History sys log h)
    (ops : List Op) : ∃ log', History sys log' (h.run sys ops) := by
  induction ops generalizing log h with
  | nil => exact ⟨log, past⟩
  | cons op rest ih => exact ih (past.step op)

/-! ### What one operation can do -/

/-- The effect of an operation on the heap `h` at rest: what it adds to the log, and the heap
afterwards. -/
inductive Effect (sys : System) (h : Heap) : Op → Option Event → Heap → Prop where
  | nothing (op : Op) : Effect sys h op none h
  | made {size rounded : Nat} {b : FreeBlock} {h₁ : Heap} (type : ObjectType) (rooted : Bool)
      (hrounded : Size.alignUp (max size 1) arenaAlign = some rounded)
      (hblock : Obtains sys h rounded b h₁) :
      Effect sys h (.alloc size type rooted) (some (.made b.addr size)) (h₁.occupy b type rooted)
  | stored {op : Op} {addr index value : Nat} {o : Object}
      (hop : op.store? = some (addr, index, value)) (hlive : h.find? addr = some o)
      (hindex : index < o.words) :
      Effect sys h op (some (.stored addr index value))
        { h with words := h.words.set (wordAddr o index) value }
  | rooted (op : Op) (roots : List Nat) : Effect sys h op none { h with roots }
  | collected {op : Op} (hop : op.collects = true) (root final : Duration) :
      Effect sys h op none (h.beginMarking.drain.finishCycle root final)
  | tuned (op : Op) (enabled : Bool) (trigger : Nat) (growthRatio : Float) :
      Effect sys h op none { h with enabled, trigger, growthRatio }

theorem live_eq_ok {h : Heap} {addr : Nat} {o : Object} :
    h.live addr = .ok o ↔ h.find? addr = some o := by
  unfold live
  cases h.find? addr with
  | none => simp
  | some p => simp

theorem storeWord_eq_ok {h h' : Heap} {o : Object} {index value : Nat}
    (hok : h.storeWord o index value = .ok h') :
    index < o.words ∧ h' = { h with words := h.words.set (wordAddr o index) value } := by
  unfold storeWord at hok
  split_ifs at hok with hindex
  exact ⟨hindex, (Except.ok.inj hok).symm⟩

theorem writeWord_eq_ok {h h' : Heap} {addr index value : Nat}
    (hok : h.writeWord addr index value = .ok h') :
    ∃ o, h.find? addr = some o ∧ index < o.words ∧
      h' = { h with words := h.words.set (wordAddr o index) value } := by
  unfold writeWord at hok
  cases hlive : h.live addr with
  | error e => rw [hlive] at hok; cases hok
  | ok o =>
    rw [hlive] at hok
    exact ⟨o, live_eq_ok.mp hlive, storeWord_eq_ok hok⟩

theorem writePointer_eq_ok {h h' : Heap} {addr field : Nat} {target : Option Nat}
    (hok : h.writePointer addr field target = .ok h') :
    ∃ o, h.find? addr = some o ∧ field < o.words ∧
      h' = { h with words := h.words.set (wordAddr o field) (target.getD 0) } := by
  unfold writePointer at hok
  cases hlive : h.live addr with
  | error e => rw [hlive] at hok; cases hok
  | ok o =>
    rw [hlive] at hok
    simp only [bind, Except.bind] at hok
    split_ifs at hok
    exact ⟨o, live_eq_ok.mp hlive, storeWord_eq_ok hok⟩

theorem collect_effect (sys : System) (h : Heap) {op : Op} (hop : op.collects = true)
    (root final : Duration) : Effect sys h op none (h.collect root final).2 := by
  unfold collect
  split_ifs
  · exact .collected hop root final
  · exact .nothing op

/-- **Inversion of `perform`.** -/
theorem perform_effect {sys : System} {h : Heap} (r : h.AtRest) (op : Op) :
    Effect sys h op (h.perform sys op).1 (h.perform sys op).2 := by
  cases op with
  | alloc size type rooted =>
    cases hok : h.alloc sys size type rooted with
    | error e =>
      simp only [perform, hok]
      exact .nothing _
    | ok made =>
      obtain ⟨addr, h'⟩ := made
      obtain ⟨rounded, b, h₁, hrounded, hblock, rfl, rfl⟩ := alloc_eq_ok hok
      simp only [perform, hok]
      exact .made type rooted hrounded hblock
  | writeWord addr index value =>
    cases hok : h.writeWord addr index value with
    | error e =>
      simp only [perform, hok]
      exact .nothing _
    | ok h' =>
      obtain ⟨o, hlive, hindex, rfl⟩ := writeWord_eq_ok hok
      simp only [perform, hok]
      exact .stored rfl hlive hindex
  | writePointer addr field target =>
    cases hok : h.writePointer addr field target with
    | error e =>
      simp only [perform, hok]
      exact .nothing _
    | ok h' =>
      obtain ⟨o, hlive, hindex, rfl⟩ := writePointer_eq_ok hok
      simp only [perform, hok]
      exact .stored rfl hlive hindex
  | addRoot addr =>
    show Effect sys h _ none (h.addRoot addr)
    rw [r.addRoot_eq]
    exact .rooted _ _
  | removeRoot addr => exact .rooted _ _
  | collect root final => exact collect_effect sys h rfl root final
  | monitor root final =>
    show Effect sys h _ none (h.monitor root final)
    unfold monitor
    split_ifs
    · exact collect_effect sys h rfl root final
    · exact .nothing _
  | setEnabled enabled => exact .tuned _ enabled h.trigger h.growthRatio
  | setTrigger bytes => exact .tuned _ h.enabled bytes h.growthRatio
  | setPercent percent =>
    show Effect sys h _ none (h.setPercent percent)
    unfold setPercent
    split_ifs
    · exact .nothing _
    · exact .tuned _ h.enabled _ _

/-! ### Every heap that arises is at rest -/

theorem Obtains.pos {sys : System} {h h' : Heap} {size : Nat} {b : FreeBlock}
    (hb : Obtains sys h size b h') (r : h.AtRest) : 0 < b.addr ∧ h'.AtRest := by
  cases hb with
  | @reused _ before after hfree hfit =>
    -- the block that is taken and the blocks that stay were all on the free list
    have hmem : ∀ c, c ∈ b :: (before ++ after) → c ∈ h.free := by
      intro c hc
      rw [hfree]
      exact List.perm_middle.mem_iff.mpr hc
    refine ⟨r.freePos b (hmem b List.mem_cons_self), r.phase, r.gray, r.white, r.objectPos, ?_⟩
    exact fun c hc => r.freePos c (hmem c (List.mem_cons_of_mem _ hc))
  | carved harenas hbump => exact ⟨Nat.succ_pos _, r.phase, r.gray, r.white, r.objectPos, r.freePos⟩
  | grown hreserve hbump => exact ⟨Nat.succ_pos _, r.phase, r.gray, r.white, r.objectPos, r.freePos⟩

theorem AtRest.occupy {h : Heap} (r : h.AtRest) {b : FreeBlock} (hb : 0 < b.addr)
    (type : ObjectType) (rooted : Bool) : (h.occupy b type rooted).AtRest where
  phase := r.phase
  gray := r.gray
  white o ho := by
    rcases List.mem_cons.mp ho with rfl | ho
    · exact if_neg r.not_marking
    · exact r.white o ho
  objectPos o ho := by
    rcases List.mem_cons.mp ho with rfl | ho
    · exact hb
    · exact r.objectPos o ho
  freePos := r.freePos

theorem Effect.atRest {sys : System} {h h' : Heap} {op : Op} {event : Option Event}
    (eff : Effect sys h op event h') (r : h.AtRest) : h'.AtRest := by
  cases eff with
  | nothing => exact r
  | made type rooted hrounded hblock =>
    obtain ⟨hpos, r₁⟩ := hblock.pos r
    exact r₁.occupy hpos type rooted
  | stored hop hlive hindex => exact ⟨r.phase, r.gray, r.white, r.objectPos, r.freePos⟩
  | rooted op roots => exact ⟨r.phase, r.gray, r.white, r.objectPos, r.freePos⟩
  | collected hop root final =>
    obtain ⟨keep, -, heq⟩ := r.cycle_eq root final
    rw [heq]
    have r' := r.reclaim keep
    exact ⟨r'.phase, r'.gray, r'.white, r'.objectPos, r'.freePos⟩
  | tuned op enabled trigger growthRatio => exact ⟨r.phase, r.gray, r.white, r.objectPos, r.freePos⟩

/-- **Between operations a heap is at rest.** -/
theorem History.atRest {sys : System} {log : List Event} {h : Heap} (hist : History sys log h) :
    h.AtRest := by
  induction hist with
  | start config order =>
    exact ⟨rfl, rfl, fun _ ho => absurd ho List.not_mem_nil, fun _ ho => absurd ho List.not_mem_nil,
      fun _ hb => absurd hb List.not_mem_nil⟩
  | step past op r => exact (perform_effect r op).atRest r

/-- One more operation, by its effect. -/
theorem History.effect {sys : System} {log : List Event} {h : Heap} (hist : History sys log h)
    (op : Op) : Effect sys h op (h.perform sys op).1 (h.perform sys op).2 :=
  perform_effect hist.atRest op

end Heap

end ManagedHost
