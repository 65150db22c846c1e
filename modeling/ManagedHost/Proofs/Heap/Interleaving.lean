import ManagedHost.Proofs.Heap.Layout

/-!
# Cycles with calls in between

Marking need not run in one piece: between its scans, which may take the entries of the gray queue
in any order, come calls from outside that allocate, change the roots and store plain words.
`Interleaved` describes such a cycle up to its sweep, and `History.interleaved_exact` says which
objects survive it.

The calls do not look at colors.  A heap in the middle of a cycle is therefore `h.tinted m`, where
`h` is the heap that the same calls would have led to without a cycle (`perform_tinted`).  So `h`
has a history, and all that is known of heaps with a history holds for it; and it depends on the
calls alone, which is why the order of the scans does not matter.
-/

namespace ManagedHost

namespace Heap

/-! ### Interleaved cycles -/

/-- Scan an entry of the gray queue, wherever it stands. -/
def scanEntry (h : Heap) (a : Nat) : Heap := { h with gray := h.gray.erase a }.scan a

/-- The calls that may come between marking and sweeping: all but cycles and stores into declared
pointer words. -/
def Concurrent (h : Heap) : Op → Prop
  | .writeWord addr index _ =>
    ∀ o, h.find? addr = some o → index < o.words → o.type.isPointer index = false
  | .writePointer addr field _ =>
    ∀ o, h.find? addr = some o → field < o.words → o.type.isPointer field = false
  | .collect _ _ => False
  | .monitor _ _ => False
  | _ => True

/-- The address of the object that was made, if one was. -/
def Event.born : Option Event → List Nat
  | some (.made addr _) => [addr]
  | _ => []

/-- The live object that the call registers as a root, if it does so. -/
def pinned (h : Heap) : Op → List Nat
  | .addRoot addr => if h.isLive addr then [addr] else []
  | _ => []

/-- **A cycle of the heap `h₀` up to its sweep**: the calls so far (the latest first), the addresses
of the objects that they made, the live objects that they registered as roots, and the heap. -/
inductive Interleaved (sys : System) (h₀ : Heap) :
    List Op → List Nat → List Nat → Heap → Prop where
  | start : Interleaved sys h₀ [] [] [] h₀.beginMarking
  | scan {calls : List Op} {born roots : List Nat} {h : Heap} {a : Nat}
      (past : Interleaved sys h₀ calls born roots h) (hqueue : a ∈ h.gray) :
      Interleaved sys h₀ calls born roots (h.scanEntry a)
  | call {calls : List Op} {born roots : List Nat} {h : Heap}
      (past : Interleaved sys h₀ calls born roots h) (op : Op) (hop : h.Concurrent op) :
      Interleaved sys h₀ (op :: calls) (Event.born (h.perform sys op).1 ++ born)
        (h.pinned op ++ roots) (h.perform sys op).2

/-! ### Calls do not look at colors -/

theorem carve_tinted (sys : System) (h : Heap) (m : Marks) (total : Nat) :
    (h.tinted m).carve sys total = (h.carve sys total).map fun r => (r.1, r.2.tinted m) := by
  have harenas : (h.tinted m).arenas = h.arenas := rfl
  have hconfig : (h.tinted m).config = h.config := rfl
  have hsize : (h.tinted m).size = h.size := rfl
  have hheld : (h.tinted m).held = h.held := rfl
  unfold carve
  rw [harenas, hconfig, hsize, hheld]
  split
  · rfl
  · dsimp only
    split
    · rfl
    · split_ifs
      · rfl
      · cases Arena.reserve sys h.held (max h.config.arenaSize total) with
        | error e => rfl
        | ok fresh =>
          simp only [bind, Except.bind]
          split <;> rfl

theorem takeBlock_tinted (sys : System) (h : Heap) (m : Marks) (size total : Nat) :
    (h.tinted m).takeBlock sys size total =
      (h.takeBlock sys size total).map fun r => (r.1, r.2.tinted m) := by
  have hfree : (h.tinted m).free = h.free := rfl
  unfold takeBlock
  rw [hfree, carve_tinted]
  split
  · rfl
  · cases h.carve sys total with
    | error e => rfl
    | ok made => rfl

/-- A new object is black, and the objects at other addresses keep their colors. -/
theorem occupy_tinted {h : Heap} (r : h.AtRest) (m : Marks) {b : FreeBlock}
    (hfresh : ∀ o ∈ h.objects, o.addr ≠ b.addr) (type : ObjectType) (rooted : Bool) :
    (h.tinted m).occupy b type rooted =
      (h.occupy b type rooted).tinted (m.paint b.addr .black) := by
  -- painting the new address changes no color of the objects that are there
  have hothers : h.objects.map m.tint = h.objects.map (m.paint b.addr .black).tint := by
    apply List.map_congr_left
    intro o ho
    simp only [Marks.tint, Marks.paint, Function.update_of_ne (hfresh o ho)]
  have hnew : (m.paint b.addr .black).tint ⟨b.addr, b.capacity, type, .white⟩ =
      ⟨b.addr, b.capacity, type, .black⟩ := by
    simp [Marks.tint, Marks.paint]
  have hmarking : (h.tinted m).phase = .marking := rfl
  unfold occupy
  rw [if_pos hmarking, if_neg r.not_marking]
  unfold tinted
  simp only [List.map_cons, hnew, hothers]
  rfl

/-- The marks after a call on the heap `h` in the middle of a cycle: a new object is black, and a
new root is shaded. -/
def Marks.call (sys : System) (h : Heap) (m : Marks) : Op → Marks
  | .alloc size type rooted =>
    match h.alloc sys size type rooted with
    | .ok (addr, _) => m.paint addr .black
    | .error _ => m
  | .addRoot addr => m.shade h addr
  | _ => m

section Calls

variable {sys : System} {log : List Event} {h : Heap}

theorem alloc_tinted (sound : sys.Sound) (hist : History sys log h) (m : Marks) (size : Nat)
    (type : ObjectType) (rooted : Bool) :
    (h.tinted m).alloc sys size type rooted = (h.alloc sys size type rooted).map fun r =>
      (r.1, r.2.tinted (m.paint r.1 .black)) := by
  unfold alloc
  cases hrounded : Size.alignUp (max size 1) arenaAlign with
  | none => rfl
  | some rounded =>
    dsimp only
    cases htotal : Size.add? rounded headerSize with
    | none => rfl
    | some total =>
      dsimp only
      rw [takeBlock_tinted]
      cases htake : h.takeBlock sys rounded total with
      | error e => rfl
      | ok made =>
        obtain ⟨b, h₁⟩ := made
        obtain rfl := Size.add?_eq_some htotal
        have hblock := takeBlock_obtains htake
        have hfresh : ∀ o ∈ h₁.objects, o.addr ≠ b.addr := by
          rw [hblock.objects_eq]
          exact hblock.ne_addr sound (Size.alignUp_arenaAlign hrounded).1 (hist.tiled sound)
        have r₁ := (hblock.pos hist.atRest).2
        show Except.ok (b.addr, (h₁.tinted m).occupy b type rooted) = _
        rw [occupy_tinted r₁ m hfresh]
        rfl

theorem live_tinted (h : Heap) (m : Marks) (addr : Nat) :
    (h.tinted m).live addr = (h.live addr).map m.tint := by
  unfold live
  rw [find?_tinted]
  cases h.find? addr <;> rfl

theorem storeWord_tinted (h : Heap) (m : Marks) (o : Object) (index value : Nat) :
    (h.tinted m).storeWord (m.tint o) index value =
      (h.storeWord o index value).map (tinted · m) := by
  have hwords : (m.tint o).words = o.words := rfl
  unfold storeWord
  rw [hwords]
  split_ifs <;> rfl

theorem writeWord_tinted (h : Heap) (m : Marks) (addr index value : Nat) :
    (h.tinted m).writeWord addr index value =
      (h.writeWord addr index value).map (tinted · m) := by
  unfold writeWord
  rw [live_tinted]
  cases h.live addr with
  | error e => rfl
  | ok o => exact storeWord_tinted h m o index value

theorem writePointer_tinted (h : Heap) (m : Marks) (addr field : Nat) (target : Option Nat) :
    (h.tinted m).writePointer addr field target =
      (h.writePointer addr field target).map (tinted · m) := by
  unfold writePointer
  rw [live_tinted]
  cases h.live addr with
  | error e => rfl
  | ok o =>
    have htype : (m.tint o).type = o.type := rfl
    simp only [Except.map, bind, Except.bind, htype]
    split_ifs
    · exact storeWord_tinted h m o field _
    · rfl

theorem concurrent_tinted (m : Marks) {op : Op} :
    (h.tinted m).Concurrent op ↔ h.Concurrent op := by
  have hstore : ∀ addr index, (∀ o, (h.tinted m).find? addr = some o → index < o.words →
      o.type.isPointer index = false) ↔
        ∀ o, h.find? addr = some o → index < o.words → o.type.isPointer index = false := by
    intro addr index
    rw [find?_tinted]
    constructor
    · intro hop o ho
      exact hop (m.tint o) (by rw [ho]; rfl)
    · intro hop o' ho'
      obtain ⟨o, ho, rfl⟩ := Option.map_eq_some_iff.mp ho'
      exact hop o ho
  cases op with
  | writeWord addr index value => exact hstore addr index
  | writePointer addr field target => exact hstore addr field
  | alloc | addRoot | removeRoot | collect | monitor | setEnabled | setTrigger | setPercent =>
    exact Iff.rfl

theorem pinned_tinted (h : Heap) (m : Marks) (op : Op) : (h.tinted m).pinned op = h.pinned op := by
  cases op with
  | addRoot addr => simp only [pinned, isLive_tinted]
  | alloc | writeWord | writePointer | removeRoot | collect | monitor | setEnabled | setTrigger
  | setPercent => rfl

/-- **A call in the middle of a cycle** does what it would have done without the cycle, and marks
what it made or registered. -/
theorem perform_tinted (sound : sys.Sound) (hist : History sys log h) (m : Marks) {op : Op}
    (hop : h.Concurrent op) :
    (h.tinted m).perform sys op =
      ((h.perform sys op).1, (h.perform sys op).2.tinted (m.call sys h op)) := by
  cases op with
  | alloc size type rooted =>
    simp only [perform, Marks.call, alloc_tinted sound hist]
    cases h.alloc sys size type rooted <;> rfl
  | writeWord addr index value =>
    simp only [perform, Marks.call, writeWord_tinted]
    cases h.writeWord addr index value <;> rfl
  | writePointer addr field target =>
    simp only [perform, Marks.call, writePointer_tinted]
    cases h.writePointer addr field target <;> rfl
  | addRoot addr =>
    have hplain := hist.atRest.addRoot_eq addr
    have htinted : (h.tinted m).addRoot addr =
        (({ h with roots := h.roots.insert addr } : Heap).tinted m).shade addr := rfl
    simp only [perform, Marks.call, hplain, htinted, shade_tinted]
    rfl
  | removeRoot addr => rfl
  | collect root final => exact hop.elim
  | monitor root final => exact hop.elim
  | setEnabled enabled => rfl
  | setTrigger bytes => rfl
  | setPercent percent =>
    show (none, (h.tinted m).setPercent percent) = (none, (h.setPercent percent).tinted m)
    unfold setPercent
    split_ifs <;> rfl

end Calls

/-! ### What each step keeps -/

theorem isLive_occupy (h : Heap) (b : FreeBlock) (type : ObjectType) (rooted : Bool) (a : Nat) :
    (h.occupy b type rooted).isLive a = true ↔ a = b.addr ∨ h.isLive a = true := by
  rw [isLive_iff, isLive_iff]
  unfold occupy
  rw [List.exists_mem_cons_iff, eq_comm (a := a)]

theorem ReachedFrom.mono {h : Heap} {start start' : Nat → Prop} (hsub : ∀ r, start r → start' r)
    {a : Nat} (ha : h.ReachedFrom start a) : h.ReachedFrom start' a := by
  obtain ⟨r, hr, hpath⟩ := ha
  exact ⟨r, hsub r hr, hpath⟩

section Steps

variable {h₀ h : Heap} {start born : Nat → Prop} {m : Marks}

/-- A call that changes neither the objects nor the pointers of the old ones. -/
theorem Since.of_same (s : h₀.Since born h) {h' : Heap} (hobjects : h'.objects = h.objects)
    (hwords : ∀ a o w, h.find? a = some o → o.type.isPointer w = true → w < o.words →
      h'.words.get (wordAddr o w) = h.words.get (wordAddr o w)) : h₀.Since born h' := by
  have hfind := find?_congr hobjects
  have hlive : ∀ a, h'.isLive a = h.isLive a := by
    intro a
    unfold isLive
    rw [hfind]
  refine
    { kept := ?kept, pointers := ?pointers, live := ?live, bornLive := ?bornLive }
  case kept =>
    intro a o ho
    rw [hfind]
    exact s.kept a o ho
  case pointers =>
    intro a o w ho hptr hw
    rw [hwords a o w (s.kept a o ho) hptr hw]
    exact s.pointers a o w ho hptr hw
  case live =>
    intro a ha
    rw [hlive] at ha
    exact s.live a ha
  case bornLive =>
    intro a ha
    rw [hlive]
    exact s.bornLive a ha

/-- An object is born at an address where no object is. -/
theorem Since.birth (s : h₀.Since born h) {h₁ : Heap} {b : FreeBlock} (type : ObjectType)
    (rooted : Bool) (hobjects : h₁.objects = h.objects) (hfresh : h.isLive b.addr = false)
    (hwords : ∀ a o w, h.find? a = some o → o.type.isPointer w = true → w < o.words →
      h₁.words.get (wordAddr o w) = h.words.get (wordAddr o w)) :
    h₀.Since (fun a => a = b.addr ∨ born a) (h₁.occupy b type rooted) := by
  have s₁ : h₀.Since born h₁ := s.of_same hobjects hwords
  have hfresh₁ : ∀ a o, h₀.find? a = some o → b.addr ≠ a := by
    rintro a o ho rfl
    rw [isLive_of_find? (s.kept _ o ho)] at hfresh
    exact Bool.noConfusion hfresh
  refine
    { kept := ?kept, pointers := s₁.pointers, live := ?live, bornLive := ?bornLive }
  case kept =>
    intro a o ho
    rw [find?_occupy _ _ _ _ (hfresh₁ a o ho)]
    exact s₁.kept a o ho
  case live =>
    intro a ha
    rcases (isLive_occupy _ _ _ _ _).mp ha with ha | ha
    · exact Or.inr (Or.inl ha)
    · exact (s₁.live a ha).imp_right Or.inr
  case bornLive =>
    rintro a (ha | ha)
    · exact (isLive_occupy _ _ _ _ _).mpr (Or.inl ha)
    · exact (isLive_occupy _ _ _ _ _).mpr (Or.inr (s₁.bornLive a ha))

/-- **Black allocation keeps the invariant**, also where an old object still holds the address of
the new one: when marking began no object was there, so that word was no pointer. -/
theorem Tricolor.birth (t : h₀.Tricolor start born m) {b : Nat} (hfresh : h₀.isLive b = false) :
    h₀.Tricolor start (fun a => a = b ∨ born a) (m.paint b .black) := by
  have hcolor : ∀ a, (m.paint b .black).color a = if a = b then .black else m.color a :=
    fun a => Function.update_apply m.color b .black a
  have hmono : ∀ a, m.color a ≠ .white → (m.paint b .black).color a ≠ .white := by
    intro a ha
    rw [hcolor]
    split_ifs
    · exact Color.noConfusion
    · exact ha
  refine
    { found := ?found, started := fun a ha => hmono a (t.started a ha), traced := ?traced,
      queued := ?queued, bornBlack := ?bornBlack }
  case found =>
    intro a ha
    by_cases hab : a = b
    · exact Or.inl (Or.inl hab)
    · rw [hcolor, if_neg hab] at ha
      exact (t.found a ha).imp_left Or.inr
  case traced =>
    intro a c ha hac
    refine hmono c (t.traced a c ?_ hac)
    -- no pointer left the new address when marking began
    rw [hcolor, if_neg ?_] at ha
    · exact ha
    · rintro rfl
      obtain ⟨o, ho, -⟩ := hac
      rw [isLive_of_find? ho] at hfresh
      exact Bool.noConfusion hfresh
  case queued =>
    intro a ha
    rw [hcolor] at ha
    split_ifs at ha
    exact t.queued a ha
  case bornBlack =>
    intro a ha
    rw [hcolor]
    split_ifs with hab
    · rfl
    · exact t.bornBlack a (ha.resolve_left hab)

/-- **Shading a new root keeps the invariant**, with the root as one more starting point. -/
theorem Tricolor.root (t : h₀.Tricolor start born m) (s : h₀.Since born h) {a : Nat}
    (ha : h.isLive a = true) {start' : Nat → Prop}
    (hstart : ∀ r, start' r ↔ start r ∨ (r = a ∧ h₀.isLive r = true)) :
    h₀.Tricolor start' born (m.shade h a) := by
  have hcolor : ∀ b, (m.shade h a).color b =
      if m.color b = .white ∧ b ∈ [a] ∧ h.isLive b = true then .gray else m.color b :=
    Marks.color_foldl_shade h m [a]
  have hqueue : ∀ b, b ∈ (m.shade h a).queue ↔
      b ∈ m.queue ∨ (m.color b = .white ∧ b ∈ [a] ∧ h.isLive b = true) :=
    Marks.mem_queue_foldl_shade h m [a]
  have hmono : ∀ b, m.color b ≠ .white → (m.shade h a).color b ≠ .white := by
    intro b hb
    rw [hcolor, if_neg fun hwhite => hb hwhite.1]
    exact hb
  refine
    { found := ?found, started := ?started, traced := ?traced, queued := ?queued,
      bornBlack := ?bornBlack }
  case found =>
    intro b hb
    by_cases hwhite : m.color b = .white
    · -- a white object is none of the newborn ones, so it was there when marking began
      rw [hcolor] at hb
      split_ifs at hb with hshaded
      · have hba : b = a := List.mem_singleton.mp hshaded.2.1
        have hlive : h₀.isLive b = true := by
          refine (s.live b hshaded.2.2).resolve_right fun hborn => ?_
          rw [t.bornBlack b hborn] at hwhite
          exact Color.noConfusion hwhite
        exact Or.inr ⟨b, (hstart b).mpr (Or.inr ⟨hba, hlive⟩), .refl⟩
      · exact absurd hwhite hb
    · exact (t.found b hwhite).imp_right (.mono fun r hr => (hstart r).mpr (Or.inl hr))
  case started =>
    intro r hr
    rcases (hstart r).mp hr with hr | ⟨rfl, -⟩
    · exact hmono r (t.started r hr)
    · by_cases hwhite : m.color r = .white
      · rw [hcolor, if_pos ⟨hwhite, List.mem_singleton_self r, ha⟩]
        exact Color.noConfusion
      · exact hmono r hwhite
  case traced =>
    intro b c hb hbc
    rw [hcolor] at hb
    split_ifs at hb
    exact hmono c (t.traced b c hb hbc)
  case queued =>
    intro b hb
    rw [hcolor] at hb
    split_ifs at hb with hshaded
    · exact (hqueue b).mpr (Or.inr hshaded)
    · exact (hqueue b).mpr (Or.inl (t.queued b hb))
  case bornBlack =>
    intro b hb
    have hblack := t.bornBlack b hb
    rw [hcolor, if_neg fun hwhite => Color.noConfusion (hblack.symm.trans hwhite.1)]
    exact hblack

end Steps

/-! ### The invariant of an interleaved cycle -/

/-- A cycle of `h₀` in progress, when calls have led to the plain heap `h` and marking to `m`. -/
structure Underway (sys : System) (h₀ : Heap) (born roots : List Nat) (h : Heap) (m : Marks) :
    Prop where
  past : ∃ log, History sys log h
  since : h₀.Since (· ∈ born) h
  tricolor : h₀.Tricolor (fun r => h₀.LiveRoot r ∨ (r ∈ roots ∧ h₀.isLive r = true)) (· ∈ born) m
  rooted : ∀ r ∈ roots, h₀.isLive r = true ∨ r ∈ born

namespace Underway

variable {sys : System} {h₀ h : Heap} {born roots : List Nat} {m : Marks}

theorem begin {log : List Event} (hist : History sys log h₀) :
    Underway sys h₀ [] [] h₀ (h₀.roots.foldl (Marks.shade h₀) .blank) where
  past := ⟨log, hist⟩
  since := by
    simp only [List.not_mem_nil]
    exact Since.refl h₀
  tricolor := by
    simp only [List.not_mem_nil, false_and, or_false]
    exact tricolor_begin h₀
  rooted _ hr := absurd hr List.not_mem_nil

theorem start_isLive {r : Nat} (hr : h₀.LiveRoot r ∨ (r ∈ roots ∧ h₀.isLive r = true)) :
    h₀.isLive r = true := by
  rcases hr with hr | hr
  · exact hr.2
  · exact hr.2

theorem scanEntry (u : Underway sys h₀ born roots h m) (hpos : ∀ a, h₀.isLive a = true → a ≠ 0)
    (a : Nat) : Underway sys h₀ born roots h (m.scanEntry h a) where
  past := u.past
  since := u.since
  tricolor := u.tricolor.scanEntry u.since (fun _ => start_isLive) hpos a
  rooted := u.rooted

/-- A call that marks nothing, and leaves the objects and their pointers alone. -/
theorem of_same (u : Underway sys h₀ born roots h m) {h' : Heap} (hist : ∃ log, History sys log h')
    (hobjects : h'.objects = h.objects)
    (hwords : ∀ a o w, h.find? a = some o → o.type.isPointer w = true → w < o.words →
      h'.words.get (wordAddr o w) = h.words.get (wordAddr o w)) :
    Underway sys h₀ born roots h' m where
  past := hist
  since := u.since.of_same hobjects hwords
  tricolor := u.tricolor
  rooted := u.rooted

/-- A new object. -/
theorem birth (u : Underway sys h₀ born roots h m) (sound : sys.Sound) {size : Nat} {b : FreeBlock}
    {h₁ : Heap} (hsize : arenaAlign ∣ size) (hblock : Obtains sys h size b h₁) {type : ObjectType}
    {rooted : Bool} (hist : ∃ log, History sys log (h₁.occupy b type rooted)) :
    Underway sys h₀ (b.addr :: born) roots (h₁.occupy b type rooted) (m.paint b.addr .black) := by
  obtain ⟨log, past⟩ := u.past
  have t := past.tiled sound
  have hfresh : h.isLive b.addr = false := by
    rw [← Bool.not_eq_true, isLive_iff]
    rintro ⟨o, ho, heq⟩
    exact hblock.ne_addr sound hsize t o ho heq
  -- what was live when marking began is live still
  have hfresh₀ : h₀.isLive b.addr = false := by
    rw [← Bool.not_eq_true]
    intro hlive
    obtain ⟨o, ho⟩ := Option.isSome_iff_exists.mp hlive
    rw [isLive_of_find? (u.since.kept _ o ho)] at hfresh
    exact Bool.noConfusion hfresh
  refine ⟨hist, ?_, ?_, fun r hr => (u.rooted r hr).imp_right (List.mem_cons_of_mem _)⟩
  · simp only [List.mem_cons]
    refine u.since.birth type rooted hblock.objects_eq hfresh ?_
    intro a o w ho _ hw
    exact hblock.words_get sound hsize t (find?_mem ho) hw
  · simp only [List.mem_cons]
    exact u.tricolor.birth hfresh₀

/-- A new root. -/
theorem root (u : Underway sys h₀ born roots h m) {a : Nat} (ha : h.isLive a = true) {h' : Heap}
    (hist : ∃ log, History sys log h') (hobjects : h'.objects = h.objects)
    (hwords : h'.words = h.words) :
    Underway sys h₀ born (a :: roots) h' (m.shade h a) := by
  refine ⟨hist, u.since.of_same hobjects fun _ _ _ _ _ _ => by rw [hwords], ?_, ?_⟩
  · refine u.tricolor.root u.since ha fun r => ?_
    rw [List.mem_cons, or_and_right, or_comm (a := r = a ∧ _), or_assoc]
  · intro r hr
    rcases List.mem_cons.mp hr with rfl | hr
    · exact u.since.live r ha
    · exact u.rooted r hr

/-- A store into a word that is not a declared pointer. -/
theorem store (u : Underway sys h₀ born roots h m) (sound : sys.Sound) {addr index value : Nat}
    {p : Object} (hlive : h.find? addr = some p) (hindex : index < p.words)
    (hplain : p.type.isPointer index = false)
    (hist : ∃ log, History sys log { h with words := h.words.set (wordAddr p index) value }) :
    Underway sys h₀ born roots { h with words := h.words.set (wordAddr p index) value } m := by
  obtain ⟨log, past⟩ := u.past
  refine u.of_same hist rfl fun a o w ho hptr hw => ?_
  rw [Store.get_set]
  -- the word that was written is not a pointer of any object
  refine if_neg fun heq => ?_
  obtain ⟨rfl, rfl⟩ :=
    wordAddr_inj (past.tiled sound) (find?_mem ho) (find?_mem hlive) hw hindex heq
  rw [hplain] at hptr
  exact Bool.noConfusion hptr

/-- **Every call keeps the invariant.** -/
theorem call (u : Underway sys h₀ born roots h m) (sound : sys.Sound) {op : Op}
    (hop : h.Concurrent op) :
    Underway sys h₀ (Event.born (h.perform sys op).1 ++ born) (h.pinned op ++ roots)
      (h.perform sys op).2 (m.call sys h op) := by
  obtain ⟨log, past⟩ := u.past
  have hist : ∃ log, History sys log (h.perform sys op).2 := ⟨_, past.step op⟩
  cases op with
  | alloc size type rooted =>
    cases hok : h.alloc sys size type rooted with
    | error e =>
      simp only [perform, Marks.call, hok]
      exact u
    | ok made =>
      obtain ⟨addr, h'⟩ := made
      obtain ⟨rounded, b, h₁, hrounded, hblock, rfl, rfl⟩ := alloc_eq_ok hok
      simp only [perform, hok] at hist
      simp only [perform, Marks.call, hok]
      exact u.birth sound (Size.alignUp_arenaAlign hrounded).1 hblock hist
  | writeWord addr index value =>
    cases hok : h.writeWord addr index value with
    | error e =>
      simp only [perform, Marks.call, hok]
      exact u
    | ok h' =>
      obtain ⟨o, hlive, hindex, rfl⟩ := writeWord_eq_ok hok
      simp only [perform, hok] at hist
      simp only [perform, Marks.call, hok]
      exact u.store sound hlive hindex (hop o hlive hindex) hist
  | writePointer addr field target =>
    cases hok : h.writePointer addr field target with
    | error e =>
      simp only [perform, Marks.call, hok]
      exact u
    | ok h' =>
      obtain ⟨o, hlive, hindex, rfl⟩ := writePointer_eq_ok hok
      simp only [perform, hok] at hist
      simp only [perform, Marks.call, hok]
      exact u.store sound hlive hindex (hop o hlive hindex) hist
  | addRoot addr =>
    have hroots := past.atRest.addRoot_eq addr
    simp only [perform, hroots] at hist
    simp only [perform, hroots, Marks.call, pinned]
    by_cases hlive : h.isLive addr = true
    · rw [if_pos hlive]
      exact u.root hlive hist rfl rfl
    · -- a root that denotes no live object is registered and nothing else
      have hsame : m.shade h addr = m := if_neg fun hwhite => hlive hwhite.1
      rw [if_neg hlive, hsame]
      exact u.of_same hist rfl fun _ _ _ _ _ _ => rfl
  | removeRoot addr => exact u.of_same hist rfl fun _ _ _ _ _ _ => rfl
  | collect root final => exact hop.elim
  | monitor root final => exact hop.elim
  | setEnabled enabled => exact u.of_same hist rfl fun _ _ _ _ _ _ => rfl
  | setTrigger bytes => exact u.of_same hist rfl fun _ _ _ _ _ _ => rfl
  | setPercent percent =>
    have hsame : (h.setPercent percent).objects = h.objects ∧
        (h.setPercent percent).words = h.words := by
      unfold setPercent
      split_ifs <;> exact ⟨rfl, rfl⟩
    refine u.of_same hist hsame.1 fun _ _ _ _ _ _ => ?_
    show (h.setPercent percent).words.get _ = _
    rw [hsame.2]

end Underway

/-! ### The end of an interleaved cycle -/

/-- What the calls, the latest first, lead to without a cycle: the heap, the addresses of the
objects that they make, and the live objects that they register as roots. -/
def outcome (sys : System) (h₀ : Heap) : List Op → Heap × List Nat × List Nat
  | [] => (h₀, [], [])
  | op :: calls =>
    let (h, born, roots) := outcome sys h₀ calls
    ((h.perform sys op).2, Event.born (h.perform sys op).1 ++ born, h.pinned op ++ roots)

section Exact

variable {sys : System} {log : List Event} {h₀ h : Heap} {calls : List Op} {born roots : List Nat}

/-- **An interleaved cycle is the calls and some marks.** -/
theorem Interleaved.underway (cycle : Interleaved sys h₀ calls born roots h) (sound : sys.Sound)
    (hist : History sys log h₀) :
    ∃ p m, outcome sys h₀ calls = (p, born, roots) ∧ h = p.tinted m ∧
      Underway sys h₀ born roots p m := by
  induction cycle with
  | start => exact ⟨h₀, _, rfl, hist.atRest.beginMarking_eq, .begin hist⟩
  | @scan calls born roots h a past hqueue ih =>
    obtain ⟨p, m, hout, rfl, u⟩ := ih
    refine ⟨p, m.scanEntry p a, hout, ?_, u.scanEntry (fun b hb => hist.atRest.ne_zero hb) a⟩
    exact scan_tinted p { m with queue := m.queue.erase a } a
  | @call calls born roots h past op hop ih =>
    obtain ⟨p, m, hout, rfl, u⟩ := ih
    obtain ⟨log', past'⟩ := u.past
    have hop' := (concurrent_tinted m).mp hop
    rw [perform_tinted sound past' m hop', pinned_tinted]
    refine ⟨(p.perform sys op).2, m.call sys p op, ?_, rfl, u.call sound hop'⟩
    rw [outcome, hout]

/-- The starting points that matter are the live roots and the objects that became roots. -/
theorem Underway.reached_iff {p : Heap} {m : Marks} (u : Underway sys h₀ born roots p m) (a : Nat) :
    (a ∈ born ∨ h₀.ReachedFrom (fun r => h₀.LiveRoot r ∨ (r ∈ roots ∧ h₀.isLive r = true)) a) ↔
      h₀.ReachedFrom h₀.LiveRoot a ∨ h₀.ReachedFrom (· ∈ roots) a ∨ a ∈ born := by
  constructor
  · rintro (ha | ⟨r, hroot | hroot, hpath⟩)
    · exact Or.inr (Or.inr ha)
    · exact Or.inl ⟨r, hroot, hpath⟩
    · exact Or.inr (Or.inl ⟨r, hroot.1, hpath⟩)
  · rintro (ha | ⟨r, hr, hpath⟩ | ha)
    · exact Or.inr (ha.mono fun r hr => Or.inl hr)
    · cases hlive : h₀.isLive r with
      | true => exact Or.inr ⟨r, Or.inr ⟨hr, hlive⟩, hpath⟩
      | false =>
        -- no path of the old heap leaves an object that was not there
        have hborn := (u.rooted r hr).resolve_left (by rw [hlive]; exact Bool.noConfusion)
        rcases hpath.cases_head with rfl | ⟨b, ⟨o, ho, -⟩, -⟩
        · exact Or.inl hborn
        · rw [isLive_of_find? ho] at hlive
          exact Bool.noConfusion hlive
    · exact Or.inl ha

theorem isLive_reclaim (h : Heap) (keep : Nat → Bool) (a : Nat) :
    (h.reclaim keep).isLive a = true ↔ h.isLive a = true ∧ keep a = true := by
  rw [isLive_iff, isLive_iff]
  unfold reclaim
  constructor
  · rintro ⟨o, ho, rfl⟩
    obtain ⟨ho, hkeep⟩ := List.mem_filter.mp ho
    exact ⟨⟨o, ho, rfl⟩, hkeep⟩
  · rintro ⟨⟨o, ho, rfl⟩, hkeep⟩
    exact ⟨o, List.mem_filter.mpr ⟨ho, hkeep⟩, rfl⟩

/-- **The sweep of an interleaved cycle** frees what was neither reached nor born. -/
theorem Underway.sweep_eq {p : Heap} {m : Marks} (u : Underway sys h₀ born roots p m)
    (hpos : ∀ a, h₀.isLive a = true → a ≠ 0) :
    ∃ keep : Nat → Bool, (p.tinted m).drain.sweep = p.reclaim keep ∧ ∀ a, keep a = true ↔
      h₀.ReachedFrom h₀.LiveRoot a ∨ h₀.ReachedFrom (· ∈ roots) a ∨ a ∈ born := by
  obtain ⟨log', past⟩ := u.past
  obtain ⟨m', hdrain, hqueue, t⟩ := u.tricolor.drain u.since (fun _ => start_isLive) hpos
  refine ⟨fun a => m'.color a ≠ .white, ?_, ?_⟩
  · rw [hdrain, past.atRest.sweep_tinted hqueue]
  · intro a
    rw [decide_eq_true_iff, t.colored_iff hqueue, u.reached_iff]

/-- **A cycle with calls in between is exact.**  The survivors are what could be reached, when
marking began, from a live root or from an object that became a root meanwhile, and what was born
meanwhile.  The outcome depends on the calls and not on when and in what order the queue was
scanned. -/
theorem History.interleaved_exact (sound : sys.Sound) (hist : History sys log h₀)
    (cycle : Interleaved sys h₀ calls born roots h) :
    (∀ a, h.drain.sweep.isLive a = true ↔
      h₀.ReachedFrom h₀.LiveRoot a ∨ h₀.ReachedFrom (· ∈ roots) a ∨ a ∈ born) ∧
      (∀ o ∈ h.drain.sweep.objects, o.color = .white) ∧
      ∀ born' roots' h', Interleaved sys h₀ calls born' roots' h' →
        h'.drain.sweep = h.drain.sweep := by
  have hpos : ∀ a, h₀.isLive a = true → a ≠ 0 := fun a ha => hist.atRest.ne_zero ha
  obtain ⟨p, m, hout, rfl, u⟩ := cycle.underway sound hist
  obtain ⟨keep, hsweep, hkeep⟩ := u.sweep_eq hpos
  obtain ⟨log', past⟩ := u.past
  rw [hsweep]
  refine ⟨?_, (past.atRest.reclaim keep).white, ?_⟩
  · intro a
    rw [isLive_reclaim, hkeep]
    refine and_iff_right_of_imp ?_
    rw [← u.reached_iff]
    rintro (ha | ha)
    · exact u.since.bornLive a ha
    · obtain ⟨o, ho⟩ := Option.isSome_iff_exists.mp (ha.isLive fun _ => Underway.start_isLive)
      exact isLive_of_find? (u.since.kept a o ho)
  · intro born' roots' h' cycle'
    obtain ⟨p', m', hout', rfl, u'⟩ := cycle'.underway sound hist
    obtain ⟨keep', hsweep', hkeep'⟩ := u'.sweep_eq hpos
    -- the same calls lead to the same heap, the same newborn and the same roots
    rw [hout] at hout'
    obtain ⟨rfl, hrest⟩ := Prod.mk.inj hout'
    obtain ⟨rfl, rfl⟩ := Prod.mk.inj hrest
    have hsame : keep' = keep := by
      funext a
      rw [Bool.eq_iff_iff, hkeep', hkeep]
    rw [hsweep', hsame]

end Exact

/-- A heap whose only root points at a free block, and three more objects, one of which points at
another. -/
def dangling : Heap :=
  let node := ObjectType.ofPointers "node" 16 [0]
  (ofConfig {}).run .sequential
    [.alloc 16 node true, .alloc 16 node true, .alloc 16 node true, .alloc 16 node true,
      .alloc 16 node false, .collect .zero .zero, .removeRoot 65616, .removeRoot 65664,
      .removeRoot 65712, .writePointer 65568 0 (some 65760), .writePointer 65664 0 (some 65616)]

/-- The free block is used again before the root is scanned; then another object becomes a root and
the old root is forgotten. -/
theorem dangling_interleaved_exact :
    ∃ calls h, Interleaved .sequential dangling calls [65760] [65664] h ∧
      (∀ a, h.drain.sweep.isLive a = true ↔ dangling.ReachedFrom dangling.LiveRoot a ∨
        dangling.ReachedFrom (· ∈ [65664]) a ∨ a ∈ [65760]) ∧
      dangling.objects.map Object.addr = [65712, 65664, 65616, 65568] ∧
      h.drain.sweep.objects.map Object.addr = [65760, 65664, 65616, 65568] := by
  have sound : System.sequential.Sound := System.sequential_sound _ _
  obtain ⟨log, hist⟩ : ∃ log, History .sequential log dangling := (History.start {} .listed).run _
  have begun : Interleaved .sequential dangling [] [] [] dangling.beginMarking := .start
  have cycle₁ := begun.call (.alloc 16 (.ofPointers "node" 16 [0]) false) trivial
  have cycle₂ := cycle₁.scan (a := 65568) (by decide)
  have cycle₃ := (cycle₂.call (.addRoot 65664) trivial).call (.removeRoot 65568) trivial
  exact ⟨_, _, cycle₃, (hist.interleaved_exact sound cycle₃).1, by decide, by decide⟩

end Heap

end ManagedHost
