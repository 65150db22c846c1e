import ManagedHost.Proofs.Heap.Draining
import ManagedHost.Proofs.Heap.Cycle

/-!
# Marking by a crew

A cycle marks the objects of the heap by scanning one after the other.  Workers scan several objects
at once, and each scan is a row of atomic actions between which the others go on: an object is black
before its children are shaded, and a child is gray before it is in the queue.
`AtRest.crew_drains` says that this makes no difference: whatever the number of workers and the
order of their steps, the heap is in the end the one that `Heap.drain` makes.

The invariant is the tri-color one with room for scans that are under way (`Tracking`):

* what a black object points to is colored, or *pending*: some worker has still to shade it;
* a gray object is in the queue, or some worker has it *in hand*.

`Visit.Acts` lists the actions of a scan.  `Moves` is what one step of one worker does to the
colors, to the queue, to what is pending and to what is in hand, and `Tracking.move` derives the
invariant from it.  When all workers have left, nothing is pending and nothing in hand, so that
`Tricolor` holds and the queue is empty.  That determines the colors (`Tricolor.marks_eq`), and with
them the outcome of the whole cycle (`History.collect_eq_crew`).
-/

namespace ManagedHost

namespace Heap

open Crew

/-! ### Actions -/

/-- **What one action of a scan does** to the heap `h`: the heap then, the objects that it puts into
the queue, and what is left of the scan. -/
inductive Visit.Acts (h : Heap) : Visit → Heap → List Nat → Option Visit → Prop where
  | blacken {x : Nat} {o : Object} (ho : h.find? x = some o) (hgray : o.color = .gray) :
      Acts h (.blackening x) (h.paint x .black) []
        (some (.loading ((scannedWords o).map (wordAddr o))))
  /-- The object is not gray any more. -/
  | pass {x : Nat} (hnot : ∀ o, h.find? x = some o → o.color ≠ .gray) :
      Acts h (.blackening x) h [] none
  | finish : Acts h (.loading []) h [] none
  /-- The slot is null. -/
  | skip {slot : Nat} {slots : List Nat} (hnull : h.words.get slot = 0) :
      Acts h (.loading (slot :: slots)) h [] (some (.loading slots))
  | load {slot : Nat} {slots : List Nat} (hsome : h.words.get slot ≠ 0) :
      Acts h (.loading (slot :: slots)) h [] (some (.shading (h.words.get slot) slots))
  | shade {x : Nat} {slots : List Nat} {o : Object} (ho : h.find? x = some o)
      (hwhite : o.color = .white) :
      Acts h (.shading x slots) (h.paint x .gray) [] (some (.pushing x slots))
  /-- The address is no live object's, or the object is not white. -/
  | leave {x : Nat} {slots : List Nat} (hnot : ∀ o, h.find? x = some o → o.color ≠ .white) :
      Acts h (.shading x slots) h [] (some (.loading slots))
  | push {x : Nat} {slots : List Nat} : Acts h (.pushing x slots) h [x] (some (.loading slots))

theorem Visit.act_acts (h : Heap) (visit : Visit) :
    visit.Acts h (visit.act h).1 (visit.act h).2.1 (visit.act h).2.2 := by
  cases visit with
  | blackening x =>
    simp only [act]
    split
    · next o ho =>
      split_ifs with hgray
      · exact .blacken ho hgray
      · refine .pass fun o' ho' => ?_
        obtain rfl := Option.some.inj (ho.symm.trans ho')
        exact hgray
    · next hnone => exact .pass fun o ho => by rw [hnone] at ho; cases ho
  | loading slots =>
    cases slots with
    | nil => exact .finish
    | cons slot slots =>
      simp only [act]
      split_ifs with hnull
      · exact .skip hnull
      · exact .load hnull
  | shading x slots =>
    simp only [act]
    split
    · next o ho =>
      split_ifs with hwhite
      · exact .shade ho hwhite
      · refine .leave fun o' ho' => ?_
        obtain rfl := Option.some.inj (ho.symm.trans ho')
        exact hwhite
    · next hnone => exact .leave fun o ho => by rw [hnone] at ho; cases ho
  | pushing x slots => exact .push

/-! ### What workers have still to do -/

/-- The addresses that the scan has still to shade. -/
def Visit.pending (h : Heap) : Visit → List Nat
  | .blackening _ => []
  | .loading slots => slots.map h.words.get
  | .shading addr slots => addr :: slots.map h.words.get
  | .pushing _ slots => slots.map h.words.get

/-- The gray object that the scan has and the queue has not. -/
def Visit.inHand : Visit → List Nat
  | .blackening addr => [addr]
  | .loading _ => []
  | .shading _ _ => []
  | .pushing addr _ => [addr]

/-- What a worker does with the objects of a heap. -/
abbrev Marker := Stage Nat Visit

/-- The addresses that the worker has still to shade. -/
def Marker.pending (h : Heap) : Marker → List Nat
  | .scanning _ visit => visit.pending h
  | _ => []

/-- The gray object that the worker has and the queue has not. -/
def Marker.inHand : Marker → List Nat
  | .scanning _ visit => visit.inHand
  | _ => []

/-! ### One step of one worker -/

/-- What one step does that takes the colors from `color` to `color'`, the queue from `queue` to
`queue'` and a worker from `stage` to `stage'`. -/
structure Moves (h : Heap) (color : Nat → Color) (queue : List Nat) (stage : Marker)
    (color' : Nat → Color) (queue' : List Nat) (stage' : Marker) : Prop where
  colored : ∀ a, color a ≠ .white → color' a ≠ .white
  /-- An object is colored only when it was pending. -/
  found : ∀ a, color' a ≠ .white → color a ≠ .white ∨ (a ∈ stage.pending h ∧ h.isLive a = true)
  /-- When an object turns black, what it points to is pending. -/
  black : ∀ a, color' a = .black → color a = .black ∨ ∀ b, h.Edge a b → b ∈ stage'.pending h
  /-- What was pending is pending still, or colored. -/
  shaded : ∀ b ∈ stage.pending h, h.isLive b = true → b ∈ stage'.pending h ∨ color' b ≠ .white
  /-- Only what a colored object points to becomes pending. -/
  sought : ∀ b ∈ stage'.pending h, h.isLive b = true →
    b ∈ stage.pending h ∨ ∃ a, color a ≠ .white ∧ h.Edge a b
  /-- An object that turns gray is in hand. -/
  gray : ∀ a, color' a = .gray → color a = .gray ∨ a ∈ stage'.inHand
  /-- An entry of the queue stays there or comes into hand. -/
  fetched : ∀ a ∈ queue, a ∈ queue' ∨ a ∈ stage'.inHand
  /-- A gray object stays in hand or comes into the queue. -/
  pushed : ∀ a ∈ stage.inHand, color' a = .gray → a ∈ queue' ∨ a ∈ stage'.inHand

/-- A step that changes no color, and takes nothing off the queue. -/
theorem Moves.of_same {h : Heap} {color : Nat → Color} {queue queue' : List Nat}
    {stage stage' : Marker} (hqueue : ∀ a ∈ queue, a ∈ queue' ∨ a ∈ stage'.inHand)
    (hshaded : ∀ b ∈ stage.pending h, h.isLive b = true →
      b ∈ stage'.pending h ∨ color b ≠ .white)
    (hsought : ∀ b ∈ stage'.pending h, b ∈ stage.pending h)
    (hhand : ∀ a ∈ stage.inHand, color a = .gray → a ∈ queue' ∨ a ∈ stage'.inHand) :
    Moves h color queue stage color queue' stage' where
  colored _ ha := ha
  found _ ha := Or.inl ha
  black _ ha := Or.inl ha
  shaded := hshaded
  sought b hb _ := Or.inl (hsought b hb)
  gray _ ha := Or.inl ha
  fetched := hqueue
  pushed := hhand

section Step

variable {h : Heap} {color : Nat → Color}

theorem find?_colors {a : Nat} {o' : Object} (ho' : (h.tinted ⟨color, []⟩).find? a = some o') :
    ∃ o, h.find? a = some o ∧ o'.color = color a ∧
      (scannedWords o').map (wordAddr o') = (scannedWords o).map (wordAddr o) := by
  rw [find?_tinted, Option.map_eq_some_iff] at ho'
  obtain ⟨o, ho, rfl⟩ := ho'
  refine ⟨o, ho, ?_, rfl⟩
  rw [Marks.tint, find?_addr ho]

theorem color_ne_of_forall {a : Nat} {c : Color} (hlive : h.isLive a = true)
    (hnot : ∀ o', (h.tinted ⟨color, []⟩).find? a = some o' → o'.color ≠ c) : color a ≠ c := by
  obtain ⟨o', ho'⟩ := Option.isSome_iff_exists.mp ((isLive_tinted h ⟨color, []⟩ a).trans hlive)
  obtain ⟨-, -, hcolor, -⟩ := find?_colors ho'
  rw [← hcolor]
  exact hnot o' ho'

/-- Everything that an object points to is in one of its slots. -/
theorem mem_slots_of_edge {a b : Nat} {o : Object} (ho : h.find? a = some o) (hab : h.Edge a b) :
    b ∈ ((scannedWords o).map (wordAddr o)).map h.words.get := by
  obtain ⟨o', ho', -, w, hptr, hlt, hget⟩ := hab
  obtain rfl := Option.some.inj (ho.symm.trans ho')
  rw [List.map_map, List.mem_map]
  exact ⟨w, mem_scannedWords.mpr ⟨hptr, hlt⟩, hget⟩

theorem edge_of_mem_slots {a b : Nat} {o : Object} (ho : h.find? a = some o)
    (hb : b ∈ ((scannedWords o).map (wordAddr o)).map h.words.get) (hlive : h.isLive b = true) :
    h.Edge a b := by
  rw [List.map_map, List.mem_map] at hb
  obtain ⟨w, hw, hget⟩ := hb
  obtain ⟨hptr, hlt⟩ := mem_scannedWords.mp hw
  exact ⟨o, ho, hlive, w, hptr, hlt, hget⟩

/-- The stage after an action: the scan goes on or has ended. -/
def Marker.after (a : Nat) : Option Visit → Marker
  | some visit => .scanning a visit
  | none => .tallying

/-- A gray object turns black, and what it points to becomes pending. -/
theorem Moves.blacken {a x : Nat} {o : Object} (ho : h.find? x = some o) (hgray : color x = .gray)
    (queue : List Nat) :
    Moves h color queue (.scanning a (.blackening x)) (Function.update color x .black) (queue ++ [])
      (.scanning a (.loading ((scannedWords o).map (wordAddr o)))) := by
  have hcolor : ∀ b, Function.update color x .black b = if b = x then .black else color b :=
    fun b => Function.update_apply color x .black b
  refine
    { colored := ?colored, found := ?found, black := ?black, shaded := ?shaded, sought := ?sought,
      gray := ?gray, fetched := fun b hb => Or.inl (List.mem_append_left _ hb), pushed := ?pushed }
  case colored =>
    intro b hb
    rw [hcolor]
    split_ifs
    · exact Color.noConfusion
    · exact hb
  case found =>
    intro b hb
    rw [hcolor] at hb
    split_ifs at hb with hbx
    · exact Or.inl (by rw [hbx, hgray]; exact Color.noConfusion)
    · exact Or.inl hb
  case black =>
    intro b hb
    rw [hcolor] at hb
    split_ifs at hb with hbx
    · subst hbx
      exact Or.inr fun c hc => mem_slots_of_edge ho hc
    · exact Or.inl hb
  case shaded =>
    intro b hb
    exact absurd hb List.not_mem_nil
  case sought =>
    intro b hb hlive
    exact Or.inr ⟨x, by rw [hgray]; exact Color.noConfusion, edge_of_mem_slots ho hb hlive⟩
  case gray =>
    intro b hb
    rw [hcolor] at hb
    split_ifs at hb
    exact Or.inl hb
  case pushed =>
    intro b hb hblack
    rw [hcolor, if_pos (List.mem_singleton.mp hb)] at hblack
    exact Color.noConfusion hblack

/-- A white object turns gray, in hand and not in the queue yet. -/
theorem Moves.shade {a x : Nat} {slots : List Nat} (hlive : h.isLive x = true)
    (hwhite : color x = .white) (queue : List Nat) :
    Moves h color queue (.scanning a (.shading x slots)) (Function.update color x .gray)
      (queue ++ []) (.scanning a (.pushing x slots)) := by
  have hcolor : ∀ b, Function.update color x .gray b = if b = x then .gray else color b :=
    fun b => Function.update_apply color x .gray b
  refine
    { colored := ?colored, found := ?found, black := ?black, shaded := ?shaded, sought := ?sought,
      gray := ?gray, fetched := fun b hb => Or.inl (List.mem_append_left _ hb), pushed := ?pushed }
  case colored =>
    intro b hb
    rw [hcolor]
    split_ifs
    · exact Color.noConfusion
    · exact hb
  case found =>
    intro b hb
    rw [hcolor] at hb
    split_ifs at hb with hbx
    · exact Or.inr ⟨List.mem_cons.mpr (Or.inl hbx), by rw [hbx, hlive]⟩
    · exact Or.inl hb
  case black =>
    intro b hb
    rw [hcolor] at hb
    split_ifs at hb
    exact Or.inl hb
  case shaded =>
    intro b hb _
    rcases List.mem_cons.mp hb with rfl | hb
    · exact Or.inr (by rw [hcolor, if_pos rfl]; exact Color.noConfusion)
    · exact Or.inl hb
  case sought =>
    intro b hb _
    exact Or.inl (List.mem_cons_of_mem _ hb)
  case gray =>
    intro b hb
    rw [hcolor] at hb
    split_ifs at hb with hbx
    · exact Or.inr (List.mem_singleton.mpr hbx)
    · exact Or.inl hb
  case pushed =>
    intro b hb
    exact absurd hb List.not_mem_nil

/-- A step that changes no color and leaves the worker with nothing in hand. -/
theorem Moves.drop {queue queue' : List Nat} {stage stage' : Marker}
    (hqueue : ∀ a ∈ queue, a ∈ queue') (hhand : stage.inHand = [])
    (hshaded : ∀ b ∈ stage.pending h, h.isLive b = true →
      b ∈ stage'.pending h ∨ color b ≠ .white)
    (hsought : ∀ b ∈ stage'.pending h, b ∈ stage.pending h) :
    Moves h color queue stage color queue' stage' := by
  refine .of_same (fun a ha => Or.inl (hqueue a ha)) hshaded hsought ?_
  intro a ha
  rw [hhand] at ha
  exact absurd ha List.not_mem_nil

/-- **One action of a scan.** -/
theorem Visit.Acts.moves {visit : Visit} {h' : Heap} {objects : List Nat} {rest : Option Visit}
    (acts : visit.Acts (h.tinted ⟨color, []⟩) h' objects rest)
    (hlive : ∀ a, color a ≠ .white → h.isLive a = true) (hpos : ∀ a, h.isLive a = true → a ≠ 0)
    (a : Nat) (queue : List Nat) :
    ∃ color', h' = h.tinted ⟨color', []⟩ ∧
      Moves h color queue (.scanning a visit) color' (queue ++ objects) (.after a rest) := by
  have hkeep : ∀ b ∈ queue, b ∈ queue ++ objects := fun b hb => List.mem_append_left _ hb
  cases acts with
  | blacken ho' hgray =>
    obtain ⟨o, ho, hcolor, hslots⟩ := find?_colors ho'
    rw [hslots]
    exact ⟨_, paint_tinted _ _ _ _, .blacken ho (hcolor.symm.trans hgray) queue⟩
  | pass hnot =>
    refine ⟨color, rfl, .of_same (fun b hb => Or.inl (hkeep b hb)) ?_ ?_ ?_⟩
    · intro b hb
      exact absurd hb List.not_mem_nil
    · intro b hb
      exact absurd hb List.not_mem_nil
    · intro b hb hgray
      obtain rfl := List.mem_singleton.mp hb
      -- a gray object is live, so it would have been found
      have hb := hlive b (by rw [hgray]; exact Color.noConfusion)
      exact absurd hgray (color_ne_of_forall hb hnot)
  | finish =>
    exact ⟨color, rfl,
      .drop hkeep rfl (fun b hb => absurd hb List.not_mem_nil) fun _ hb => hb⟩
  | skip hnull =>
    refine ⟨color, rfl, .drop hkeep rfl ?_ fun b hb => List.mem_cons_of_mem _ hb⟩
    intro b hb hb'
    rcases List.mem_cons.mp hb with rfl | hb
    · -- no object is at the null address
      exact absurd hnull (hpos _ hb')
    · exact Or.inl hb
  | load hsome => exact ⟨color, rfl, .drop hkeep rfl (fun b hb _ => Or.inl hb) fun _ hb => hb⟩
  | shade ho' hwhite =>
    obtain ⟨o, ho, hcolor, -⟩ := find?_colors ho'
    exact ⟨_, paint_tinted _ _ _ _,
      .shade (isLive_of_find? ho) (hcolor.symm.trans hwhite) queue⟩
  | leave hnot =>
    refine ⟨color, rfl, .drop hkeep rfl ?_ fun b hb => List.mem_cons_of_mem _ hb⟩
    intro b hb hb'
    rcases List.mem_cons.mp hb with rfl | hb
    · exact Or.inr (color_ne_of_forall hb' hnot)
    · exact Or.inl hb
  | push =>
    refine ⟨color, rfl, .of_same (fun b hb => Or.inl (hkeep b hb)) (fun b hb _ => Or.inl hb)
      (fun b hb => hb) ?_⟩
    intro b hb _
    exact Or.inl (List.mem_append_right _ hb)

/-- A step in which nothing of an object is done. -/
theorem Moves.idle {queue : List Nat} {stage stage' : Marker} (hpending : stage.pending h = [])
    (hpending' : stage'.pending h = []) (hhand : stage.inHand = []) :
    Moves h color queue stage color queue stage' := by
  refine .drop (fun a ha => ha) hhand ?_ ?_
  · intro b hb
    rw [hpending] at hb
    exact absurd hb List.not_mem_nil
  · intro b hb
    rw [hpending'] at hb
    exact absurd hb List.not_mem_nil

/-- An object leaves the queue and is in hand. -/
theorem Moves.fetch (a : Nat) (rest : List Nat) :
    Moves h color (a :: rest) .fetching color rest (.scanning a (.blackening a)) := by
  refine .of_same ?_ ?_ ?_ ?_
  · intro b hb
    rcases List.mem_cons.mp hb with rfl | hb
    · exact Or.inr (List.mem_singleton_self b)
    · exact Or.inl hb
  · intro b hb
    exact absurd hb List.not_mem_nil
  · intro b hb
    exact absurd hb List.not_mem_nil
  · intro b hb
    exact absurd hb List.not_mem_nil

/-- **One step of one worker.** -/
theorem advance_moves (hlive : ∀ a, color a ≠ .white → h.isLive a = true)
    (hpos : ∀ a, h.isLive a = true → a ≠ 0) {s : Shared Heap Nat}
    (hstore : s.store = h.tinted ⟨color, []⟩) (stage : Marker) :
    ∃ color', (advance scanner s stage).2.1.store = h.tinted ⟨color', []⟩ ∧
      Moves h color s.queue stage color' (advance scanner s stage).2.1.queue
        (advance scanner s stage).2.2 := by
  cases stage with
  | scanning a visit =>
    have acts := visit.act_acts s.store
    rcases hact : visit.act s.store with ⟨store, objects, rest⟩
    rw [hact, hstore] at acts
    obtain ⟨color', hstore', hmoves⟩ := acts.moves hlive hpos a s.queue
    refine ⟨color', ?_⟩
    simp only [advance, scanner, hact]
    cases rest with
    | none => exact ⟨hstore', hmoves⟩
    | some visit' => exact ⟨hstore', hmoves⟩
  | fetching =>
    refine ⟨color, ?_⟩
    simp only [advance]
    split
    · next hnil => exact ⟨hstore, .idle rfl rfl rfl⟩
    · next a rest hcons =>
      rw [hcons]
      exact ⟨hstore, .fetch a rest⟩
  | looking =>
    refine ⟨color, hstore, .idle rfl ?_ rfl⟩
    simp only [advance]
    split_ifs <;> rfl
  | asking =>
    refine ⟨color, hstore, .idle rfl ?_ rfl⟩
    simp only [advance]
    split_ifs <;> rfl
  | enrolling | tallying | retiring | withdrawing | gone =>
    exact ⟨color, hstore, .idle rfl rfl rfl⟩

end Step

/-! ### The invariant of a crew -/

/-- **The tri-color invariant of a crew** that marks the heap `h` from the starting points. -/
structure Tracking (h : Heap) (start : Nat → Prop) (c : Crew Heap Nat Visit) (color : Nat → Color) :
    Prop where
  store : c.store = h.tinted ⟨color, []⟩
  found : ∀ a, color a ≠ .white → h.ReachedFrom start a
  started : ∀ a, start a → color a ≠ .white
  /-- What a black object points to is colored or pending. -/
  traced : ∀ a b, color a = .black → h.Edge a b →
    color b ≠ .white ∨ ∃ stage ∈ c.stages, b ∈ Marker.pending h stage
  /-- A gray object is in the queue or in hand. -/
  queued : ∀ a, color a = .gray → a ∈ c.queue ∨ ∃ stage ∈ c.stages, a ∈ Marker.inHand stage
  /-- What is pending can be reached. -/
  sought : ∀ stage ∈ c.stages, ∀ b ∈ Marker.pending h stage, h.isLive b = true →
    h.ReachedFrom start b

namespace Tracking

variable {h : Heap} {start : Nat → Prop} {c : Crew Heap Nat Visit} {color : Nat → Color}

/-- One worker takes a step, and the others stay where they are. -/
theorem move (t : h.Tracking start c color) {before after : List Marker} {stage stage' : Marker}
    {s' : Shared Heap Nat} {color' : Nat → Color} (hstages : c.stages = before ++ stage :: after)
    (hstore : s'.store = h.tinted ⟨color', []⟩)
    (m : Moves h color c.queue stage color' s'.queue stage') :
    h.Tracking start { toShared := s', stages := before ++ stage' :: after } color' := by
  -- a worker of the new crew is the one that took the step, or was there before
  have hnew : ∀ x, x ∈ before ++ stage' :: after → x = stage' ∨ x ∈ c.stages := by
    intro x hx
    simp only [hstages, List.mem_append, List.mem_cons] at hx ⊢
    tauto
  have hold : ∀ x, x ∈ c.stages → x = stage ∨ x ∈ before ++ stage' :: after := by
    intro x hx
    simp only [hstages, List.mem_append, List.mem_cons] at hx ⊢
    tauto
  have hself : stage' ∈ before ++ stage' :: after := by simp
  have hstage : stage ∈ c.stages := by simp [hstages]
  have hpending : ∀ b, h.isLive b = true → (∃ x ∈ c.stages, b ∈ Marker.pending h x) →
      color' b ≠ .white ∨ ∃ x ∈ before ++ stage' :: after, b ∈ Marker.pending h x := by
    rintro b hlive ⟨x, hx, hb⟩
    rcases hold x hx with rfl | hx
    · exact (m.shaded b hb hlive).symm.imp_right fun hb => ⟨stage', hself, hb⟩
    · exact Or.inr ⟨x, hx, hb⟩
  refine
    { store := hstore, found := ?found, started := fun a ha => m.colored a (t.started a ha),
      traced := ?traced, queued := ?queued, sought := ?sought }
  case found =>
    intro a ha
    rcases m.found a ha with ha | ⟨ha, hlive⟩
    · exact t.found a ha
    · exact t.sought stage hstage a ha hlive
  case traced =>
    intro a b ha hab
    have hlive : h.isLive b = true := by
      obtain ⟨-, -, hlive, -⟩ := hab
      exact hlive
    rcases m.black a ha with ha | hslots
    · rcases t.traced a b ha hab with hb | hb
      · exact Or.inl (m.colored b hb)
      · exact hpending b hlive hb
    · exact Or.inr ⟨stage', hself, hslots b hab⟩
  case queued =>
    intro a ha
    rcases m.gray a ha with hgray | hhand
    · rcases t.queued a hgray with hqueue | ⟨x, hx, hhand⟩
      · exact (m.fetched a hqueue).imp_right fun hhand => ⟨stage', hself, hhand⟩
      · rcases hold x hx with rfl | hx
        · exact (m.pushed a hhand ha).imp_right fun hhand => ⟨stage', hself, hhand⟩
        · exact Or.inr ⟨x, hx, hhand⟩
    · exact Or.inr ⟨stage', hself, hhand⟩
  case sought =>
    intro x hx b hb hlive
    rcases hnew x hx with rfl | hx
    · rcases m.sought b hb hlive with hb | ⟨a, ha, hab⟩
      · exact t.sought stage hstage b hb hlive
      · exact (t.found a ha).step hab
    · exact t.sought x hx b hb hlive

/-- **A step keeps the invariant.** -/
theorem step (t : h.Tracking start c color) (hstart : ∀ a, start a → h.isLive a = true)
    (hpos : ∀ a, h.isLive a = true → a ≠ 0) (worker : Nat) :
    ∃ color', h.Tracking start (c.step scanner worker).2 color' := by
  cases hstage : c.stages[worker]? with
  | none =>
    rw [step_eq_self scanner hstage]
    exact ⟨color, t⟩
  | some stage =>
    obtain ⟨before, after, hsplit, hstep⟩ := step_eq scanner hstage
    obtain ⟨color', hstore, hmoves⟩ :=
      advance_moves (fun a ha => (t.found a ha).isLive hstart) hpos t.store stage
    rw [hstep]
    exact ⟨color', t.move hsplit hstore hmoves⟩

theorem run (t : h.Tracking start c color) (hstart : ∀ a, start a → h.isLive a = true)
    (hpos : ∀ a, h.isLive a = true → a ≠ 0) (workers : List Nat) :
    ∃ color', h.Tracking start (c.run scanner (workers.map .worker)).2 color' := by
  induction workers generalizing c color with
  | nil => exact ⟨color, t⟩
  | cons worker rest ih =>
    obtain ⟨color', t'⟩ := t.step hstart hpos worker
    exact ih t'

/-- When all workers have left, the tri-color invariant holds and the queue is empty. -/
theorem tricolor (t : h.Tracking start c color) (hgone : c.allGone = true) (hqueue : c.queue = []) :
    h.Tricolor start (fun _ => False) ⟨color, []⟩ where
  found a ha := Or.inr (t.found a ha)
  started := t.started
  traced a b ha hab := by
    refine (t.traced a b ha hab).resolve_right ?_
    rintro ⟨stage, hstage, hb⟩
    rw [mem_eq_gone hgone hstage] at hb
    exact List.not_mem_nil hb
  queued a ha := by
    rcases t.queued a ha with hmem | ⟨stage, hstage, hhand⟩
    · rwa [hqueue] at hmem
    · rw [mem_eq_gone hgone hstage] at hhand
      exact absurd hhand List.not_mem_nil
  bornBlack _ ha := ha.elim

end Tracking

/-! ### The whole run -/

theorem ledger_muster (h : Heap) (workers : Nat) : Ledger h.gray [] (h.muster workers) :=
  Ledger.gather workers _ h.gray

/-- The invariant of marking is the invariant of a crew that has not begun. -/
theorem Tricolor.tracking {h : Heap} {start : Nat → Prop} {m : Marks}
    (t : h.Tricolor start (fun _ => False) m) (workers : Nat) :
    h.Tracking start ((h.tinted m).muster workers) m.color where
  store := rfl
  found a ha := (t.found a ha).resolve_left id
  started := t.started
  traced a b ha hab := Or.inl (t.traced a b ha hab)
  queued a ha := Or.inl (t.queued a ha)
  sought stage hstage b hb _ := by
    rw [List.eq_of_mem_replicate hstage] at hb
    exact absurd hb List.not_mem_nil

open Classical in
/-- **Once the queue is empty the colors are determined**: what is reached or newborn is black, and
all else is white. -/
theorem Tricolor.color_eq {h : Heap} {start born : Nat → Prop} {m : Marks}
    (t : h.Tricolor start born m) (hqueue : m.queue = []) (a : Nat) :
    m.color a = if born a ∨ h.ReachedFrom start a then .black else .white := by
  have hiff := t.colored_iff hqueue a
  split_ifs with ha
  · cases hcolor : m.color a with
    | white => exact absurd hcolor (hiff.mpr ha)
    | gray =>
      have hmem := t.queued a hcolor
      rw [hqueue] at hmem
      exact absurd hmem List.not_mem_nil
    | black => rfl
  · exact not_not.mp (mt hiff.mp ha)

theorem Tricolor.marks_eq {h : Heap} {start born : Nat → Prop} {m m' : Marks}
    (t : h.Tricolor start born m) (t' : h.Tricolor start born m') (hqueue : m.queue = [])
    (hqueue' : m'.queue = []) : m = m' := by
  have hcolor : m.color = m'.color := by
    funext a
    rw [t.color_eq hqueue, t'.color_eq hqueue']
  obtain ⟨color, queue⟩ := m
  obtain ⟨color', queue'⟩ := m'
  rw [Marks.mk.injEq]
  exact ⟨hcolor, hqueue.trans hqueue'.symm⟩

/-- **A crew marks what the marking loop marks.**  However many workers drain the gray queue of a
heap whose marking has begun, and in whatever order they take their steps: when all have left, the
heap is the one that scanning one object after the other leads to. -/
theorem AtRest.crew_drains {h : Heap} (r : h.AtRest) {workers : Nat} {turns : List Nat}
    {log : List (Crew.Event Nat)} {c : Crew Heap Nat Visit}
    (hrun : Crew.run scanner (turns.map .worker) (h.beginMarking.muster workers) = (log, c))
    (hgone : c.allGone = true) : c.store = h.beginMarking.drain := by
  have hstart : ∀ a, h.LiveRoot a → h.isLive a = true := fun _ ha => ha.2
  have hpos : ∀ a, h.isLive a = true → a ≠ 0 := fun _ ha => r.ne_zero ha
  have l := (ledger_muster h.beginMarking workers).run scanner (turns.map .worker)
  rw [hrun] at l
  obtain ⟨color, t⟩ := ((tricolor_begin h).tracking workers).run hstart hpos turns
  rw [← r.beginMarking_eq, hrun] at t
  obtain ⟨m, hdrain, hmqueue, tm⟩ := (tricolor_begin h).drain (Since.refl h) hstart hpos
  rw [r.beginMarking_eq, hdrain, t.store,
    (t.tricolor hgone (l.queue_eq_nil hgone)).marks_eq tm rfl hmqueue]

/-- **So a cycle does not depend on who marks.**  Whatever was done to a heap before, a cycle that
leaves the marking to workers ends with the heap that `collect` gives. -/
theorem History.collect_eq_crew {sys : System} {events : List Event} {h : Heap}
    (hist : History sys events h) (henabled : h.enabled = true) {workers : Nat} {turns : List Nat}
    {log : List (Crew.Event Nat)} {c : Crew Heap Nat Visit}
    (hrun : Crew.run scanner (turns.map .worker) (h.beginMarking.muster workers) = (log, c))
    (hgone : c.allGone = true) (root final : Duration) :
    h.collect root final = (true, c.store.finishCycle root final) := by
  have r := hist.atRest
  rw [collect, if_pos ⟨henabled, r.phase⟩, r.crew_drains hrun hgone]

end Heap

end ManagedHost
