import ManagedHost.Proofs.Heap.Crews
import Mathlib.Algebra.Order.BigOperators.Group.List

/-!
# Workers can always leave

Nothing forces workers to leave the loop: of two that find no object, each can see the other active
whenever it asks, for ever.  But no order of steps gets them stuck.  Wherever any turns have led,
there are further turns after which all workers have left (`Crew.Ledger.exists_allGone`), provided
that scans come to an end (`Scanner.Bounded`).

The further turns go to a worker that is active as long as there is one, and then to any that has
not left.  After each of them there is less work, in the store, in the queue and in the scans that
are under way; or there is as much, and the worker is nearer to the end of the loop
(`Crew.advance_lighter`).

For the objects of a heap the work is measured by the white ones, so a crew that marks a heap can
always finish, and then it has done what `Heap.drain` does (`Heap.AtRest.exists_crew_drained`).
-/

namespace ManagedHost

/-- **Scans come to an end**: while the store is `fine`, every action leaves less work.  An object
in the queue counts for `weight`, more than its whole scan, and a scan that is under way for what is
`left` of it. -/
structure Scanner.Bounded {σ α κ : Type} (sc : Scanner σ α κ) (fine : σ → Prop) (work : σ → Nat)
    (left : κ → Nat) (weight : Nat) : Prop where
  begin_lt : ∀ a, left (sc.begin a) < weight
  fine_act : ∀ k s, fine s → fine (sc.act k s).1
  act_lt : ∀ k s, fine s → work (sc.act k s).1 + weight * (sc.act k s).2.1.length +
    (sc.act k s).2.2.elim 0 left < work s + left k

namespace Stage

variable {α κ : Type}

/-- What is left of the worker's scan. -/
def load (left : κ → Nat) : Stage α κ → Nat
  | .scanning _ k => left k
  | _ => 0

/-- How many steps the worker is away from the end of the loop, if the others do not move and there
is something in the queue or nothing.  In front of a queue that is not empty it goes round once
more. -/
def rank (empty : Bool) : Stage α κ → Nat
  | .gone => 0
  | .asking => 1
  | .looking => if empty then 2 else 8
  | .withdrawing => if empty then 3 else 9
  | .fetching => 4
  | .enrolling => 5
  | .retiring => 6
  | .tallying => 7
  | .scanning _ _ => 8

end Stage

namespace Crew

variable {σ α κ : Type} {sc : Scanner σ α κ} {fine : σ → Prop} {work : σ → Nat} {left : κ → Nat}
  {weight : Nat}

/-- A step keeps the store fine. -/
theorem fine_advance (hb : sc.Bounded fine work left weight) {s : Shared σ α} (hfine : fine s.store)
    (stage : Stage α κ) : fine (advance sc s stage).2.1.store := by
  cases stage with
  | fetching =>
    simp only [advance]
    split <;> exact hfine
  | scanning a k =>
    have hact := hb.fine_act k s.store hfine
    simp only [advance]
    split <;> exact hact
  | enrolling | tallying | retiring | withdrawing | looking | asking | gone => exact hfine

/-- **A step of a worker that is active, or that finds no worker active**, leaves less work, or as
much and the worker nearer to the end. -/
theorem advance_lighter (hb : sc.Bounded fine work left weight) {s : Shared σ α}
    (hfine : fine s.store) {stage : Stage α κ} (hstays : stage.isGone = false)
    (hactive : stage.isActive = true ∨ s.active = 0) :
    (work (advance sc s stage).2.1.store + weight * (advance sc s stage).2.1.queue.length +
        (advance sc s stage).2.2.load left <
      work s.store + weight * s.queue.length + stage.load left) ∨
    ((advance sc s stage).2.1.store = s.store ∧ (advance sc s stage).2.1.queue = s.queue ∧
      (advance sc s stage).2.2.load left = stage.load left ∧
      (advance sc s stage).2.2.rank s.queue.isEmpty < stage.rank s.queue.isEmpty) := by
  cases stage with
  | enrolling | tallying | retiring => exact Or.inr ⟨rfl, rfl, rfl, by simp [advance, Stage.rank]⟩
  | fetching =>
    simp only [advance]
    split
    · next hnil => exact Or.inr ⟨rfl, rfl, rfl, by simp [hnil, Stage.rank]⟩
    · next a rest hcons =>
      -- the object's scan counts for less than its place in the queue
      have hlt := hb.begin_lt a
      refine Or.inl ?_
      simp only [hcons, List.length_cons, Nat.mul_succ, Stage.load]
      omega
  | scanning a k =>
    have hlt := hb.act_lt k s.store hfine
    rcases hact : sc.act k s.store with ⟨store, objects, rest⟩
    rw [hact] at hlt
    refine Or.inl ?_
    simp only [advance, hact]
    cases rest with
    | none =>
      simp only [Option.elim_none] at hlt
      simp only [List.length_append, Nat.mul_add, Stage.load]
      omega
    | some k' =>
      simp only [Option.elim_some] at hlt
      simp only [List.length_append, Nat.mul_add, Stage.load]
      omega
  | withdrawing =>
    refine Or.inr ⟨rfl, rfl, rfl, ?_⟩
    cases hempty : s.queue.isEmpty <;> simp [advance, Stage.rank]
  | looking =>
    refine Or.inr ⟨rfl, rfl, ?_, ?_⟩
    · simp only [advance]
      split <;> rfl
    · simp only [advance]
      split <;> next hempty => simp [Stage.rank, hempty]
  | asking =>
    have hidle : s.active = 0 := hactive.resolve_left Bool.noConfusion
    exact Or.inr ⟨rfl, rfl, by simp [advance, hidle, Stage.load],
      by simp [advance, hidle, Stage.rank]⟩
  | gone => exact Bool.noConfusion hstays

/-- The work that is left in the store, in the queue and in the scans that are under way. -/
def burden (work : σ → Nat) (left : κ → Nat) (weight : Nat) (c : Crew σ α κ) : Nat :=
  work c.store + weight * c.queue.length + (c.stages.map (Stage.load left)).sum

/-- How many steps the workers are away from the end of the loop. -/
def distance (c : Crew σ α κ) : Nat := (c.stages.map (Stage.rank c.queue.isEmpty)).sum

/-- While not all workers have left, one of them is active, or none is and one has not left. -/
theorem Ledger.exists_worker {queue₀ : List α} {log : List (Event α)} {c : Crew σ α κ}
    (l : Ledger queue₀ log c) (hgone : c.allGone = false) :
    ∃ (worker : Nat) (stage : Stage α κ), c.stages[worker]? = some stage ∧
      stage.isGone = false ∧ (stage.isActive = true ∨ c.active = 0) := by
  by_cases hactive : ∃ stage ∈ c.stages, stage.isActive = true
  · obtain ⟨stage, hstage, hactive⟩ := hactive
    obtain ⟨worker, hworker⟩ := List.mem_iff_getElem?.mp hstage
    refine ⟨worker, stage, hworker, ?_, Or.inl hactive⟩
    cases stage with
    | gone => exact Bool.noConfusion hactive
    | _ => rfl
  · have hidle : c.active = 0 := by
      rw [l.active]
      exact List.countP_eq_zero.mpr fun stage hstage h => hactive ⟨stage, hstage, h⟩
    rw [allGone, List.all_eq_false] at hgone
    obtain ⟨stage, hstage, hstays⟩ := hgone
    obtain ⟨worker, hworker⟩ := List.mem_iff_getElem?.mp hstage
    exact ⟨worker, stage, hworker, by simpa using hstays, Or.inr hidle⟩

/-- While not all workers have left, some worker can take a step that brings the end nearer. -/
theorem Ledger.exists_lighter {queue₀ : List α} {log : List (Event α)} {c : Crew σ α κ}
    (hb : sc.Bounded fine work left weight) (l : Ledger queue₀ log c) (hfine : fine c.store)
    (hgone : c.allGone = false) :
    ∃ worker, fine (c.step sc worker).2.store ∧
      ((c.step sc worker).2.burden work left weight < c.burden work left weight ∨
        ((c.step sc worker).2.burden work left weight = c.burden work left weight ∧
          (c.step sc worker).2.distance < c.distance)) := by
  obtain ⟨worker, stage, hstage, hstays, hactive⟩ := l.exists_worker hgone
  obtain ⟨before, after, hsplit, hstep⟩ := step_eq sc hstage
  refine ⟨worker, ?_, ?_⟩
  · rw [hstep]
    exact fine_advance hb hfine stage
  · rw [hstep]
    simp only [burden, distance, hsplit, List.map_append, List.map_cons, List.sum_append,
      List.sum_cons]
    rcases advance_lighter hb hfine hstays hactive with hlt | ⟨hstore, hqueue, hload, hrank⟩
    · exact Or.inl (by omega)
    · rw [hstore, hqueue, hload]
      exact Or.inr ⟨rfl, by omega⟩

/-- **Workers can always leave.** -/
theorem Ledger.exists_allGone {queue₀ : List α} {log : List (Event α)} {c : Crew σ α κ}
    (hb : sc.Bounded fine work left weight) (l : Ledger queue₀ log c) (hfine : fine c.store) :
    ∃ turns : List Nat, (c.run sc (turns.map .worker)).2.allGone = true := by
  cases hgone : c.allGone with
  | true => exact ⟨[], hgone⟩
  | false =>
    obtain ⟨worker, hfine', hlt⟩ := l.exists_lighter hb hfine hgone
    obtain ⟨turns, hturns⟩ := Ledger.exists_allGone hb (l.step sc worker) hfine'
    exact ⟨worker :: turns, hturns⟩
termination_by (c.burden work left weight, c.distance)
decreasing_by
  rcases hlt with hlt | ⟨heq, hlt⟩
  · exact Prod.Lex.left _ _ hlt
  · rw [heq]
    exact Prod.Lex.right _ hlt

theorem run_append (sc : Scanner σ α κ) (turns more : List (Turn σ)) (c : Crew σ α κ) :
    (c.run sc (turns ++ more)).2 = ((c.run sc turns).2.run sc more).2 := by
  induction turns generalizing c with
  | nil => rfl
  | cons t rest ih => exact ih (c.turn sc t).2

end Crew

/-! ### The objects of a heap -/

namespace Heap

open Crew

/-- The objects of a heap have at most so many slots. -/
theorem exists_slots_le (h : Heap) :
    ∃ slots, ∀ a o, h.find? a = some o → (scannedWords o).length ≤ slots := by
  refine ⟨(h.objects.map fun o => (scannedWords o).length).sum, fun a o ho => ?_⟩
  exact List.le_sum_of_mem (List.mem_map_of_mem (find?_mem ho))

/-- What a place in the queue counts for, when objects have at most `slots` slots. -/
def scanWeight (slots : Nat) : Nat := 3 * slots + 3

/-- How much is left of a scan, when objects have at most `slots` slots.  A slot takes three
actions: its object is loaded, shaded and put into the queue. -/
def Visit.left (slots : Nat) : Visit → Nat
  | .blackening _ => 3 * slots + 2
  | .loading rest => 3 * rest.length + 1
  | .shading _ rest => 3 * rest.length + 3
  | .pushing _ rest => 3 * rest.length + 2 + scanWeight slots

/-- The work that a heap holds: each white object may have to be scanned. -/
def whiteWork (slots : Nat) (h : Heap) : Nat := scanWeight slots * h.whites

theorem whiteWork_paint_le (slots : Nat) (h : Heap) (a : Nat) {c : Color} (hc : c ≠ .white) :
    whiteWork slots (h.paint a c) ≤ whiteWork slots h :=
  Nat.mul_le_mul_left _ (whites_paint_le h a hc)

/-- An object that is white no more has left its work to somebody else. -/
theorem whiteWork_paint_add_le (slots : Nat) {h : Heap} {a : Nat} {o : Object}
    (ho : h.find? a = some o) (hwhite : o.color = .white) {c : Color} (hc : c ≠ .white) :
    whiteWork slots (h.paint a c) + scanWeight slots ≤ whiteWork slots h := by
  have hlt := whites_paint_lt ho hwhite hc
  unfold whiteWork
  rw [← Nat.mul_succ]
  exact Nat.mul_le_mul_left _ hlt

/-- **Every action of a scan leaves less work.** -/
theorem Visit.Acts.work_lt {slots : Nat} {visit : Visit} {h h' : Heap} {objects : List Nat}
    {rest : Option Visit} (acts : visit.Acts h h' objects rest)
    (hslots : ∀ a o, h.find? a = some o → (scannedWords o).length ≤ slots) :
    whiteWork slots h' + scanWeight slots * objects.length + rest.elim 0 (Visit.left slots) <
      whiteWork slots h + visit.left slots := by
  cases acts with
  | @blacken x o ho hgray =>
    have hle := whiteWork_paint_le slots h x (c := .black) Color.noConfusion
    have hlength := hslots x o ho
    simp only [List.length_nil, Nat.mul_zero, Option.elim_some, Visit.left, List.length_map]
    omega
  | @shade x rest o ho hwhite =>
    have hle := whiteWork_paint_add_le slots ho hwhite (c := .gray) Color.noConfusion
    simp only [List.length_nil, Nat.mul_zero, Option.elim_some, Visit.left]
    omega
  | push =>
    simp only [List.length_singleton, Nat.mul_one, Option.elim_some, Visit.left]
    omega
  | pass | finish | skip | load | leave =>
    simp only [List.length_nil, Nat.mul_zero, Option.elim_some, Option.elim_none, Visit.left,
      List.length_cons]
    omega

/-- An action changes nothing but colors. -/
theorem Visit.Acts.tinted {h h' : Heap} {color : Nat → Color} {visit : Visit} {objects : List Nat}
    {rest : Option Visit} (acts : visit.Acts (h.tinted ⟨color, []⟩) h' objects rest) :
    ∃ color', h' = h.tinted ⟨color', []⟩ := by
  cases acts with
  | blacken => exact ⟨_, paint_tinted _ _ _ _⟩
  | shade => exact ⟨_, paint_tinted _ _ _ _⟩
  | pass | finish | skip | load | leave | push => exact ⟨color, rfl⟩

/-- **The scans of a heap come to an end**, whatever the colors of its objects are. -/
theorem scanner_bounded {h : Heap} {slots : Nat}
    (hslots : ∀ a o, h.find? a = some o → (scannedWords o).length ≤ slots) :
    scanner.Bounded (fun s => ∃ color, s = h.tinted ⟨color, []⟩) (whiteWork slots)
      (Visit.left slots) (scanWeight slots) where
  begin_lt _ := Nat.lt_succ_self _
  fine_act visit s := by
    rintro ⟨color, rfl⟩
    exact (visit.act_acts (h.tinted ⟨color, []⟩)).tinted
  act_lt visit s := by
    rintro ⟨color, rfl⟩
    apply (visit.act_acts (h.tinted ⟨color, []⟩)).work_lt
    intro a o' ho'
    obtain ⟨o, ho, -, hsame⟩ := find?_colors ho'
    have hlength := congrArg List.length hsame
    rw [List.length_map, List.length_map] at hlength
    rw [hlength]
    exact hslots a o ho

/-- **A crew can always finish what marking has begun.**  Whatever turns its workers have taken,
there are turns after which all have left, and then the heap is drained. -/
theorem AtRest.exists_crew_drained {h : Heap} (r : h.AtRest) (workers : Nat) (turns : List Nat) :
    ∃ more : List Nat,
      (Crew.run scanner ((turns ++ more).map .worker) (h.beginMarking.muster workers)).2.allGone
          = true ∧
        (Crew.run scanner ((turns ++ more).map .worker) (h.beginMarking.muster workers)).2.store
          = h.beginMarking.drain := by
  obtain ⟨slots, hslots⟩ := h.exists_slots_le
  obtain ⟨color, t⟩ := ((tricolor_begin h).tracking workers).run (fun _ ha => ha.2)
    (fun _ ha => r.ne_zero ha) turns
  rw [← r.beginMarking_eq] at t
  have l := (ledger_muster h.beginMarking workers).run scanner (turns.map .worker)
  obtain ⟨more, hgone⟩ := l.exists_allGone (scanner_bounded hslots) ⟨color, t.store⟩
  rw [← run_append, ← List.map_append] at hgone
  exact ⟨more, hgone, r.crew_drains rfl hgone⟩

end Heap

end ManagedHost
