import ManagedHost.Proofs.Heap.Marking

/-!
# The phases of a cycle

A cycle starts and ends with a heap at rest (`AtRest`): nothing is gray, all objects are white.

* `AtRest.beginMarking_eq` and `tricolor_begin`: marking starts with the invariant `Tricolor`, the
  starting points being the live roots.
* `drain_spec`: the loop that drains the gray queue comes to its end, after no more scans than
  there are entries in the queue and white objects; `Tricolor.drain` is what holds then.
* `AtRest.sweep_tinted`: sweeping keeps the colored objects and puts the blocks of all others in
  front of the free list.
-/

namespace ManagedHost

namespace Heap

/-- A heap between two cycles. -/
structure AtRest (h : Heap) : Prop where
  phase : h.phase = .idle
  gray : h.gray = []
  white : ∀ o ∈ h.objects, o.color = .white
  /-- No object is at the null address. -/
  objectPos : ∀ o ∈ h.objects, 0 < o.addr
  /-- No free block is at the null address. -/
  freePos : ∀ b ∈ h.free, 0 < b.addr

theorem AtRest.ne_zero {h : Heap} (r : h.AtRest) {a : Nat} (ha : h.isLive a = true) : a ≠ 0 := by
  obtain ⟨o, ho, rfl⟩ := isLive_iff.mp ha
  exact (r.objectPos o ho).ne'

theorem AtRest.not_marking {h : Heap} (r : h.AtRest) : h.phase ≠ .marking := by
  rw [r.phase]
  exact Phase.noConfusion

theorem AtRest.addRoot_eq {h : Heap} (r : h.AtRest) (addr : Nat) :
    h.addRoot addr = { h with roots := h.roots.insert addr } := by
  unfold addRoot
  rw [if_neg r.not_marking]

/-! ### The beginning -/

theorem AtRest.tinted_blank {h : Heap} (r : h.AtRest) :
    { h with phase := .marking } = h.tinted .blank := by
  have hobjects : h.objects.map Marks.blank.tint = h.objects := by
    refine (List.map_congr_left ?_).trans (List.map_id _)
    intro o ho
    show { o with color := .white } = o
    rw [← r.white o ho]
  have hgray : h.gray = Marks.blank.queue := r.gray
  unfold tinted
  rw [hobjects, ← hgray]

theorem AtRest.beginMarking_eq {h : Heap} (r : h.AtRest) :
    h.beginMarking = h.tinted (h.roots.foldl (Marks.shade h) .blank) := by
  unfold beginMarking
  rw [r.tinted_blank, foldl_shade_tinted]

/-- **Marking begins with the invariant**: the live roots are gray and all else is white. -/
theorem tricolor_begin (h : Heap) :
    h.Tricolor h.LiveRoot (fun _ => False) (h.roots.foldl (Marks.shade h) .blank) := by
  have hcolor := Marks.color_foldl_shade h .blank h.roots
  have hqueue := Marks.mem_queue_foldl_shade h .blank h.roots
  refine
    { found := ?found, started := ?started, traced := ?traced, queued := ?queued,
      bornBlack := fun _ hb => hb.elim }
  case found =>
    intro a ha
    rw [hcolor] at ha
    split_ifs at ha with hroot
    · exact Or.inr ⟨a, hroot.2, .refl⟩
    · exact absurd rfl ha
  case started =>
    intro a ha
    rw [hcolor, if_pos ⟨rfl, ha⟩]
    exact Color.noConfusion
  case traced =>
    intro a b ha _
    rw [hcolor] at ha
    split_ifs at ha
    exact Color.noConfusion ha
  case queued =>
    intro a ha
    rw [hcolor] at ha
    split_ifs at ha with hroot
    · exact (hqueue a).mpr (Or.inr hroot)
    · exact Color.noConfusion ha

/-! ### Draining the queue -/

/-- Turning one white element into something else makes the white ones fewer. -/
theorem countP_map_lt {α : Type} {l : List α} {f : α → α} {p : α → Bool}
    (hf : ∀ x, p (f x) = true → p x = true) {x : α} (hx : x ∈ l) (hpx : p x = true)
    (hpf : p (f x) = false) : (l.map f).countP p < l.countP p := by
  obtain ⟨before, after, rfl⟩ := List.append_of_mem hx
  -- on both sides of the element the count does not grow
  have hle : ∀ l : List α, (l.map f).countP p ≤ l.countP p := by
    intro l
    rw [List.countP_map]
    exact List.countP_mono_left fun y _ hy => hf y hy
  have h₁ := hle before
  have h₂ := hle after
  simp only [List.map_append, List.map_cons, List.countP_append, List.countP_cons, hpf, hpx]
  simp only [Bool.false_eq_true, if_false, if_true]
  omega

theorem whites_paint_le (h : Heap) (a : Nat) {c : Color} (hc : c ≠ .white) :
    (h.paint a c).whites ≤ h.whites := by
  unfold whites paint
  rw [List.countP_map]
  refine List.countP_mono_left fun o _ ho => ?_
  simp only [Function.comp] at ho
  split_ifs at ho
  · exact absurd (of_decide_eq_true ho) hc
  · exact ho

theorem whites_paint_lt {h : Heap} {a : Nat} {o : Object} (ho : h.find? a = some o)
    (hwhite : o.color = .white) {c : Color} (hc : c ≠ .white) :
    (h.paint a c).whites < h.whites := by
  refine countP_map_lt (x := o) ?_ (find?_mem ho) (by simpa using hwhite) ?_
  · intro p hp
    split_ifs at hp
    · exact absurd (of_decide_eq_true hp) hc
    · exact hp
  · rw [if_pos (find?_addr ho)]
    simpa using hc

/-- Shading moves an object from the white ones to the queue, or does nothing. -/
theorem shade_work_le (h : Heap) (a : Nat) :
    (h.shade a).gray.length + (h.shade a).whites ≤ h.gray.length + h.whites := by
  unfold shade
  split
  · next o ho =>
    split_ifs with hwhite
    · have hlt := whites_paint_lt ho hwhite (c := .gray) Color.noConfusion
      have hwhites : ({ h.paint a .gray with gray := h.gray ++ [a] } : Heap).whites =
          (h.paint a .gray).whites := rfl
      rw [hwhites, List.length_append, List.length_singleton]
      omega
    · exact le_rfl
  · exact le_rfl

theorem foldl_shade_work_le (h : Heap) (addrs : List Nat) :
    (addrs.foldl shade h).gray.length + (addrs.foldl shade h).whites ≤
      h.gray.length + h.whites := by
  induction addrs generalizing h with
  | nil => exact le_rfl
  | cons a rest ih => exact (ih (h.shade a)).trans (shade_work_le h a)

theorem scan_work_le (h : Heap) (a : Nat) :
    (h.scan a).gray.length + (h.scan a).whites ≤ h.gray.length + h.whites := by
  unfold scan
  split
  · next o ho =>
    split_ifs
    · refine (foldl_shade_work_le _ _).trans ?_
      exact Nat.add_le_add_left (whites_paint_le h a Color.noConfusion) _
    · exact le_rfl
  · exact le_rfl

/-- **Every scan leaves less to do**: the entry is gone, and what it adds was white before. -/
theorem scanNext_work_lt {h : Heap} (hgray : h.gray ≠ []) :
    h.scanNext.gray.length + h.scanNext.whites < h.gray.length + h.whites := by
  unfold scanNext
  split
  · next hnil => exact absurd hnil hgray
  · next a rest hcons =>
    rw [hcons, List.length_cons, Nat.add_right_comm]
    exact Nat.lt_succ_of_le (scan_work_le { h with gray := rest } a)

theorem scanUpTo_spec (fuel : Nat) (h : Heap) (hfuel : h.gray.length + h.whites ≤ fuel) :
    ∃ n ≤ fuel, scanUpTo fuel h = scanNext^[n] h ∧ (scanUpTo fuel h).gray = [] := by
  induction fuel generalizing h with
  | zero =>
    -- no fuel is left only when no work was left
    have hnil : h.gray = [] := List.length_eq_zero_iff.mp (by omega)
    exact ⟨0, le_rfl, rfl, hnil⟩
  | succ fuel ih =>
    rw [scanUpTo]
    split_ifs with hempty
    · exact ⟨0, Nat.zero_le _, rfl, List.isEmpty_iff.mp hempty⟩
    · have hlt := scanNext_work_lt (h := h) fun hnil => hempty (by rw [hnil]; rfl)
      obtain ⟨n, hn, heq, hgray⟩ := ih h.scanNext (by omega)
      exact ⟨n + 1, Nat.succ_le_succ hn, heq, hgray⟩

/-- **The marking loop ends**, with an empty queue, after at most as many scans as the queue has
entries and the heap has white objects. -/
theorem drain_spec (h : Heap) :
    ∃ n ≤ h.gray.length + h.whites, h.drain = scanNext^[n] h ∧ h.drain.gray = [] :=
  scanUpTo_spec _ h le_rfl

theorem drain_of_gray_nil {h : Heap} (hnil : h.gray = []) : h.drain = h := by
  unfold drain
  cases h.gray.length + h.whites with
  | zero => rfl
  | succ fuel => rw [scanUpTo, hnil]; rfl

theorem scanNext_tinted (h : Heap) (m : Marks) :
    (h.tinted m).scanNext = h.tinted (m.queue.head?.elim m (m.scanEntry h)) := by
  unfold scanNext
  cases hqueue : m.queue with
  | nil =>
    have hgray : (h.tinted m).gray = [] := hqueue
    rw [hgray]
    rfl
  | cons a rest =>
    have hgray : (h.tinted m).gray = a :: rest := hqueue
    have herase : { m with queue := rest } = { m with queue := m.queue.erase a } := by
      rw [hqueue, List.erase_cons_head]
    rw [hgray]
    show ({ h.tinted m with gray := rest } : Heap).scan a = h.tinted (m.scanEntry h a)
    rw [Marks.scanEntry, ← herase, ← scan_tinted]
    rfl

/-- **Draining keeps the invariant.** -/
theorem Tricolor.drain {h₀ h : Heap} {start born : Nat → Prop} {m : Marks}
    (t : h₀.Tricolor start born m) (s : h₀.Since born h)
    (hstart : ∀ r, start r → h₀.isLive r = true) (hpos : ∀ a, h₀.isLive a = true → a ≠ 0) :
    ∃ m', (h.tinted m).drain = h.tinted m' ∧ m'.queue = [] ∧ h₀.Tricolor start born m' := by
  -- the loop is some number of scans, and each of them keeps the invariant
  have hiter : ∀ n, ∃ m', scanNext^[n] (h.tinted m) = h.tinted m' ∧ h₀.Tricolor start born m' := by
    intro n
    induction n with
    | zero => exact ⟨m, rfl, t⟩
    | succ n ih =>
      obtain ⟨m', heq, t'⟩ := ih
      rw [Function.iterate_succ_apply', heq, scanNext_tinted]
      cases m'.queue.head? with
      | none => exact ⟨m', rfl, t'⟩
      | some a => exact ⟨m'.scanEntry h a, rfl, t'.scanEntry s hstart hpos a⟩
  obtain ⟨n, -, heq, hgray⟩ := drain_spec (h.tinted m)
  obtain ⟨m', hm', t'⟩ := hiter n
  rw [hm'] at heq
  rw [heq] at hgray
  exact ⟨m', heq, hgray, t'⟩

/-! ### The end -/

/-- The heap after a sweep that spares the objects at the addresses that `keep` accepts. -/
def reclaim (h : Heap) (keep : Nat → Bool) : Heap :=
  let dead := h.objects.filter fun o => !keep o.addr
  let freed := Size.total (dead.map Object.footprint)
  { h with
    objects := h.objects.filter fun o => keep o.addr
    free := (h.order.visited h.collections (dead.map Object.toFree)).reverse ++ h.free
    freeBlocks := h.freeBlocks + dead.length
    used := h.used - freed
    totalFreed := h.totalFreed + freed }

/-- **A sweep spares the colored objects** and turns them white again. -/
theorem AtRest.sweep_tinted {h : Heap} (r : h.AtRest) {m : Marks} (hqueue : m.queue = []) :
    (h.tinted m).sweep = h.reclaim fun a => m.color a ≠ .white := by
  have hdead : (h.objects.map m.tint).filter (·.color = .white) =
      (h.objects.filter fun o => !decide (m.color o.addr ≠ .white)).map m.tint := by
    rw [List.filter_map]
    congr 1
    apply List.filter_congr
    intro o _
    by_cases hcolor : m.color o.addr = .white <;> simp [Marks.tint, hcolor]
  -- turning the survivors white undoes the tint, as all objects at rest are white
  have hkept : ((h.objects.map m.tint).filter (·.color ≠ .white)).map
      (fun o => { o with color := .white }) =
        h.objects.filter fun o => m.color o.addr ≠ .white := by
    rw [List.filter_map, List.map_map]
    refine (List.map_congr_left ?_).trans (List.map_id _)
    intro o ho
    show { o with color := .white } = o
    rw [← r.white o (List.mem_filter.mp ho).1]
  have hphase : h.phase = .idle := r.phase
  have hgray : h.gray = m.queue := r.gray.trans hqueue.symm
  unfold sweep reclaim tinted
  simp only [hdead, hkept, List.map_map, List.length_map, ← hphase, ← hgray]
  rfl

/-- Set the trigger for the next cycle and enter the pauses of this one in the log. -/
def closeCycle (h : Heap) (root final : Duration) : Heap :=
  { h with
    trigger := h.paced h.used h.growthRatio
    pauses := PauseLog.record h.pauses h.config.maxPause root final
    collections := h.collections + 1 }

theorem finishCycle_eq (h : Heap) (root final : Duration) :
    h.finishCycle root final = h.drain.sweep.closeCycle root final := rfl

/-- **A whole cycle spares what is reachable from the live roots**, and nothing else. -/
theorem AtRest.cycle_eq {h : Heap} (r : h.AtRest) (root final : Duration) :
    ∃ keep : Nat → Bool, (∀ a, keep a = true ↔ h.ReachedFrom h.LiveRoot a) ∧
      h.beginMarking.drain.finishCycle root final = (h.reclaim keep).closeCycle root final := by
  obtain ⟨m, hdrain, hqueue, t⟩ := (tricolor_begin h).drain (Since.refl h)
    (fun _ hroot => hroot.2) (fun _ ha => r.ne_zero ha)
  refine ⟨fun a => m.color a ≠ .white, ?_, ?_⟩
  · intro a
    rw [decide_eq_true_iff, t.colored_iff hqueue, false_or]
  · have hgray : (h.tinted m).gray = [] := hqueue
    rw [r.beginMarking_eq, hdrain, finishCycle_eq, drain_of_gray_nil hgray, r.sweep_tinted hqueue]

/-- Marking a heap at rest takes at most one scan for each object. -/
theorem AtRest.drain_beginMarking {h : Heap} (r : h.AtRest) :
    ∃ n ≤ h.objects.length, h.beginMarking.drain = scanNext^[n] h.beginMarking ∧
      h.beginMarking.drain.gray = [] := by
  obtain ⟨n, hn, heq, hgray⟩ := drain_spec h.beginMarking
  refine ⟨n, hn.trans ?_, heq, hgray⟩
  have hwork := foldl_shade_work_le { h with phase := .marking } h.roots
  have hlength : h.gray.length = 0 := by rw [r.gray]; rfl
  have hwhites : h.whites ≤ h.objects.length := List.countP_le_length
  exact hwork.trans (show h.gray.length + h.whites ≤ h.objects.length by omega)

theorem AtRest.reclaim {h : Heap} (r : h.AtRest) (keep : Nat → Bool) : (h.reclaim keep).AtRest where
  phase := r.phase
  gray := r.gray
  white o ho := r.white o (List.mem_filter.mp ho).1
  objectPos o ho := r.objectPos o (List.mem_filter.mp ho).1
  freePos b hb := by
    rcases List.mem_append.mp hb with hb | hb
    · have hdead := (SweepOrder.mem_visited _ _).mp (List.mem_reverse.mp hb)
      obtain ⟨o, ho, rfl⟩ := List.mem_map.mp hdead
      exact r.objectPos o (List.mem_filter.mp ho).1
    · exact r.freePos b hb

end Heap

end ManagedHost
