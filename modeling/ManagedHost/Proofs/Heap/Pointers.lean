import ManagedHost.Proofs.Heap.Contents

/-!
# Where the pointers of a heap lead

A heap does not check what is stored in it, so its pointers are only as good as its callers.  An
operation is *well typed* (`Op.wellTyped`) if a reference that it stores denotes a live object, and
if it stores no plain word where a pointer is declared.  In a `TypedHistory` every operation is.

`Faithful` is what such operations keep true: every pointer of a live object is null or leads to a
live object, and to the same one that it led to when it was stored.  A sweep keeps it because
marking follows every word that the writer may store a reference in, so the target of a survivor's
pointer survives as well (`Faithful.reclaim`).  A new object keeps it because its own words are zero
and its block was no live object's (`Faithful.birth`).

The main result is `TypedHistory.pointers_lead`.
-/

namespace ManagedHost

/-- The word is a pointer of the object: its type declares it, and it lies within the payload. -/
def Object.HasPointer (o : Object) (word : Nat) : Prop :=
  o.type.isPointer word = true ∧ word < o.words

namespace Heap

/-! ### Well-typed histories -/

/-- Whether the operation, on the heap `h`, stores references to live objects only, and plain words
only where no pointer is declared. -/
def Op.wellTyped (h : Heap) : Op → Bool
  | .writeWord addr index _ => (h.find? addr).all fun o => !o.type.isPointer index
  | .writePointer _ _ target => target.all h.isLive
  | _ => true

/-- **The heaps that arise from well-typed operations**, each with its log. -/
inductive TypedHistory (sys : System) : List Event → Heap → Prop where
  | start (config : HeapConfig) (order : SweepOrder) : TypedHistory sys [] (ofConfig config order)
  | step {log : List Event} {h : Heap} (past : TypedHistory sys log h) (op : Op)
      (hop : op.wellTyped h = true) :
      TypedHistory sys ((h.perform sys op).1.toList ++ log) (h.perform sys op).2

theorem TypedHistory.history {sys : System} {log : List Event} {h : Heap}
    (hist : TypedHistory sys log h) : History sys log h := by
  induction hist with
  | start config order => exact .start config order
  | step _ op _ ih => exact ih.step op

/-- Whether each of the operations is well typed when its turn comes. -/
def runsWellTyped (sys : System) : Heap → List Op → Bool
  | _, [] => true
  | h, op :: rest => op.wellTyped h && (h.perform sys op).2.runsWellTyped sys rest

theorem TypedHistory.run {sys : System} {log : List Event} {h : Heap}
    (past : TypedHistory sys log h) (ops : List Op) (hops : h.runsWellTyped sys ops = true) :
    ∃ log', TypedHistory sys log' (h.run sys ops) := by
  induction ops generalizing log h with
  | nil => exact ⟨log, past⟩
  | cons op rest ih =>
    obtain ⟨hop, hrest⟩ := Bool.and_eq_true_iff.mp hops
    exact ih (past.step op hop) hrest

/-! ### References that stand -/

/-- **The reference to `target` stands**: it was stored in the word, nothing was stored there since,
and no object was made since at either end. -/
def Stands (log : List Event) (addr word target : Nat) : Prop :=
  ∃ newer older, log = newer ++ Event.stored addr word target :: older ∧
    (∀ value, Event.stored addr word value ∉ newer) ∧
    ∀ size, Event.made addr size ∉ newer ∧ Event.made target size ∉ newer

theorem Stands.now (log : List Event) (addr word target : Nat) :
    Stands (.stored addr word target :: log) addr word target :=
  ⟨[], log, rfl, fun _ => List.not_mem_nil, fun _ => ⟨List.not_mem_nil, List.not_mem_nil⟩⟩

/-- An event that concerns neither the word nor the objects at the two ends leaves the reference
standing. -/
theorem Stands.later {log : List Event} {addr word target : Nat} (hs : Stands log addr word target)
    {e : Event} (hstored : ∀ value, e ≠ .stored addr word value)
    (hmade : ∀ size, e ≠ .made addr size ∧ e ≠ .made target size) :
    Stands (e :: log) addr word target := by
  obtain ⟨newer, older, rfl, hnewer, hborn⟩ := hs
  refine ⟨e :: newer, older, rfl, ?_, ?_⟩
  · intro value hmem
    rcases List.mem_cons.mp hmem with heq | hmem
    · exact hstored value heq.symm
    · exact hnewer value hmem
  · intro size
    constructor
    · intro hmem
      rcases List.mem_cons.mp hmem with heq | hmem
      · exact (hmade size).1 heq.symm
      · exact (hborn size).1 hmem
    · intro hmem
      rcases List.mem_cons.mp hmem with heq | hmem
      · exact (hmade size).2 heq.symm
      · exact (hborn size).2 hmem

/-! ### The invariant -/

/-- **Every pointer is null or leads to a live object**, the one that was meant when it was
stored. -/
def Faithful (log : List Event) (h : Heap) : Prop :=
  ∀ o ∈ h.objects, ∀ w, o.HasPointer w → h.words.get (wordAddr o w) ≠ 0 →
    h.isLive (h.words.get (wordAddr o w)) = true ∧
      Stands log o.addr w (h.words.get (wordAddr o w))

/-- A new object has null pointers only, and its block was nobody's. -/
theorem Faithful.birth {sys : System} (sound : sys.Sound) {log : List Event} {h h₁ : Heap}
    {rounded size : Nat} {b : FreeBlock} (hf : Faithful log h) (hb : Obtains sys h rounded b h₁)
    (hrounded : arenaAlign ∣ rounded) (t : Tiled h.arenas h.blocks)
    (hu : Untouched h.arenas h.words) (type : ObjectType) (rooted : Bool) :
    Faithful (.made b.addr size :: log) (h₁.occupy b type rooted) := by
  have hfresh := hb.ne_addr sound hrounded t
  intro o ho w hw hne
  rcases List.mem_cons.mp ho with rfl | ho
  · -- the words of the new object are zero
    refine absurd ((hb.zero sound t hu).1 _ (Nat.le_add_right _ _) ?_) hne
    have hlt := hw.2
    unfold Object.words wordSize at hlt
    unfold wordSize
    dsimp only at hlt
    omega
  · rw [hb.objects_eq] at ho
    have hget : (h₁.occupy b type rooted).words.get (wordAddr o w) = h.words.get (wordAddr o w) :=
      hb.words_get sound hrounded t ho hw.2
    rw [hget] at hne ⊢
    obtain ⟨hlive, hstands⟩ := hf o ho w hw hne
    obtain ⟨p, hp, hpaddr⟩ := isLive_iff.mp hlive
    constructor
    · refine isLive_iff.mpr ⟨p, List.mem_cons_of_mem _ ?_, hpaddr⟩
      rw [hb.objects_eq]
      exact hp
    · refine hstands.later (fun _ => Event.noConfusion) fun _ => ⟨?_, ?_⟩
      · intro heq
        exact hfresh o ho (Event.made.inj heq).1.symm
      · intro heq
        exact hfresh p hp (hpaddr.trans (Event.made.inj heq).1.symm)

/-- A well-typed store of a non-null value in a pointer stores a reference to a live object. -/
theorem Op.isLive_of_wellTyped {h : Heap} {op : Op} {addr index value : Nat} {o : Object}
    (hop : op.wellTyped h = true) (hstore : op.store? = some (addr, index, value))
    (ho : h.find? addr = some o) (hpointer : o.type.isPointer index = true) (hvalue : value ≠ 0) :
    h.isLive value = true := by
  cases op with
  | writeWord addr' index' value' =>
    obtain ⟨rfl, hrest⟩ := Prod.mk.inj (Option.some.inj hstore)
    obtain ⟨rfl, rfl⟩ := Prod.mk.inj hrest
    simp only [Op.wellTyped, ho, Option.all_some, hpointer] at hop
    exact absurd hop Bool.false_ne_true
  | writePointer addr' field target =>
    obtain ⟨rfl, hrest⟩ := Prod.mk.inj (Option.some.inj hstore)
    obtain ⟨rfl, rfl⟩ := Prod.mk.inj hrest
    cases target with
    | none => exact absurd rfl hvalue
    | some target => exact hop
  | alloc | addRoot | removeRoot | collect | monitor | setEnabled | setTrigger | setPercent =>
    cases hstore

/-- A store changes one word, and what it puts into a pointer is null or live. -/
theorem Faithful.store {log : List Event} {h : Heap} {addr index value : Nat} {o : Object}
    (hf : Faithful log h) (t : Tiled h.arenas h.blocks) (ho : h.find? addr = some o)
    (hindex : index < o.words)
    (hvalue : o.type.isPointer index = true → value ≠ 0 → h.isLive value = true) :
    Faithful (.stored addr index value :: log)
      { h with words := h.words.set (wordAddr o index) value } := by
  intro p hp w hw hne
  dsimp only at hne ⊢
  by_cases hsame : wordAddr p w = wordAddr o index
  · obtain ⟨rfl, rfl⟩ := wordAddr_inj t hp (find?_mem ho) hw.2 hindex hsame
    rw [Store.get_set, if_pos rfl] at hne ⊢
    rw [find?_addr ho]
    exact ⟨hvalue hw.1 hne, .now log addr w value⟩
  · rw [Store.get_set, if_neg hsame] at hne ⊢
    obtain ⟨hlive, hstands⟩ := hf p hp w hw hne
    refine ⟨hlive, hstands.later ?_ fun _ => ⟨Event.noConfusion, Event.noConfusion⟩⟩
    -- the same index of the same object would be the same word
    intro v heq
    obtain ⟨haddr, rfl, -⟩ := Event.stored.inj heq
    rw [haddr, find?_of_mem t hp] at ho
    obtain rfl := Option.some.inj ho
    exact hsame rfl

/-- **A sweep leaves no pointer dangling**: what a survivor points to is reachable, too. -/
theorem Faithful.reclaim {log : List Event} {h : Heap} (hf : Faithful log h)
    (t : Tiled h.arenas h.blocks) {keep : Nat → Bool}
    (hkeep : ∀ a, keep a = true ↔ h.ReachedFrom h.LiveRoot a) : Faithful log (h.reclaim keep) := by
  intro o ho w hw hne
  obtain ⟨ho, hkept⟩ := List.mem_filter.mp ho
  obtain ⟨hlive, hstands⟩ := hf o ho w hw hne
  refine ⟨?_, hstands⟩
  have hedge : h.Edge o.addr (h.words.get (wordAddr o w)) :=
    ⟨o, find?_of_mem t ho, hlive, w, hw.1, hw.2, rfl⟩
  have htarget := (hkeep _).mpr (((hkeep _).mp hkept).step hedge)
  obtain ⟨p, hp, hpaddr⟩ := isLive_iff.mp hlive
  refine isLive_iff.mpr ⟨p, List.mem_filter.mpr ⟨hp, ?_⟩, hpaddr⟩
  rw [hpaddr]
  exact htarget

theorem Effect.faithful {sys : System} (sound : sys.Sound) {log : List Event} {h h' : Heap}
    {op : Op} {event : Option Event} (eff : Effect sys h op event h') (r : h.AtRest)
    (t : Tiled h.arenas h.blocks) (hu : Untouched h.arenas h.words)
    (hop : op.wellTyped h = true) (hf : Faithful log h) : Faithful (event.toList ++ log) h' := by
  cases eff with
  | nothing => exact hf
  | made type rooted hrounded hblock =>
    exact hf.birth sound hblock (Size.alignUp_arenaAlign hrounded).1 t hu type rooted
  | stored hstore hlive hindex =>
    exact hf.store t hlive hindex fun hpointer hvalue =>
      Op.isLive_of_wellTyped hop hstore hlive hpointer hvalue
  | rooted op roots => exact hf
  | collected hcollects root final =>
    obtain ⟨keep, hkeep, heq⟩ := r.cycle_eq root final
    rw [heq]
    exact hf.reclaim t hkeep
  | tuned op enabled trigger growthRatio => exact hf

theorem TypedHistory.faithful {sys : System} (sound : sys.Sound) {log : List Event} {h : Heap}
    (hist : TypedHistory sys log h) : Faithful log h := by
  induction hist with
  | start config order => exact fun o ho => absurd ho List.not_mem_nil
  | step past op hop hf =>
    have hist := past.history
    exact (hist.effect op).faithful sound hist.atRest (hist.tiled sound) (hist.untouched sound)
      hop hf

/-! ### Reading pointers -/

/-- The target that was last stored in a pointer since its object was made, if any. -/
def lastTarget (log : List Event) (addr word : Nat) : Option Nat :=
  if lastStored log addr word = 0 then none else some (lastStored log addr word)

theorem readPointer_of_lt {h : Heap} {addr : Nat} {o : Object} (ho : h.find? addr = some o)
    {w : Nat} (hw : w < o.words) :
    h.readPointer addr w = .ok (if h.words.get (wordAddr o w) = 0 then none
      else (h.find? (h.words.get (wordAddr o w))).map Object.addr) := by
  unfold readPointer
  rw [live_eq_ok.mpr ho]
  simp only [bind, Except.bind, loadWord, if_pos hw]
  rfl

theorem History.words_get {sys : System} (sound : sys.Sound) {log : List Event} {h : Heap}
    (hist : History sys log h) {o : Object} (ho : o ∈ h.objects) {i : Nat} (hi : i < o.words) :
    h.words.get (wordAddr o i) = lastStored log o.addr i := by
  have hfind := find?_of_mem (hist.tiled sound) ho
  have hword := hist.recorded sound _ _ (contents_of_find? hfind) i
    (by rw [length_payload]; exact hi)
  rw [payload_getElem? h o hi] at hword
  exact Option.some.inj hword

/-- **No pointer ever dangles.**  After any well-typed operations, every pointer of a live object is
null or the address of a live object; reading it gives the target that was last stored in it; and
that target is still the object that it was then, however many blocks were used again since. -/
theorem TypedHistory.pointers_lead {sys : System} (sound : sys.Sound) {log : List Event} {h : Heap}
    (hist : TypedHistory sys log h) {o : Object} (ho : o ∈ h.objects) {w : Nat}
    (hw : o.HasPointer w) :
    (h.words.get (wordAddr o w) = 0 ∨ h.isLive (h.words.get (wordAddr o w)) = true) ∧
      h.readPointer o.addr w = .ok (lastTarget log o.addr w) ∧
      ∀ target, lastTarget log o.addr w = some target →
        h.isLive target = true ∧ Stands log o.addr w target := by
  have hfind := find?_of_mem (hist.history.tiled sound) ho
  have hget := hist.history.words_get sound ho hw.2
  have hf := hist.faithful sound o ho w hw
  by_cases hzero : h.words.get (wordAddr o w) = 0
  · have hlast : lastTarget log o.addr w = none := if_pos (hget.symm.trans hzero)
    refine ⟨Or.inl hzero, ?_, ?_⟩
    · rw [readPointer_of_lt hfind hw.2, if_pos hzero, hlast]
    · intro target htarget
      rw [hlast] at htarget
      cases htarget
  · have hlast : lastTarget log o.addr w = some (h.words.get (wordAddr o w)) := by
      rw [hget] at hzero ⊢
      exact if_neg hzero
    obtain ⟨hlive, hstands⟩ := hf hzero
    refine ⟨Or.inr hlive, ?_, ?_⟩
    · obtain ⟨p, hp⟩ := Option.isSome_iff_exists.mp hlive
      rw [readPointer_of_lt hfind hw.2, if_neg hzero, hlast, hp, Option.map_some, find?_addr hp]
    · intro target htarget
      rw [hlast] at htarget
      obtain rfl := Option.some.inj htarget
      exact ⟨hlive, hstands⟩

/-- A list of two objects whose type is wider than their blocks.  A third object was freed, and its
block used again for a new head of the list. -/
def relinkedOps : List Op :=
  let node := ObjectType.ofPointers "node" 64 [0, 5]
  [.alloc 16 node true, .alloc 16 node false, .alloc 16 node false,
    .writePointer 65568 0 (some 65616), .writeWord 65568 1 65664, .collect .zero .zero,
    .alloc 16 node true, .writePointer 65664 0 (some 65568), .removeRoot 65568,
    .collect .zero .zero]

theorem relinked_pointers_lead :
    let h := (ofConfig {}).run .sequential relinkedOps
    (ofConfig {}).runsWellTyped .sequential relinkedOps = true ∧
      h.readPointer 65664 0 = .ok (some 65568) ∧ h.readPointer 65568 0 = .ok (some 65616) ∧
      ∃ log, h.readPointer 65568 0 = .ok (lastTarget log 65568 0) ∧ Stands log 65568 0 65616 := by
  have hops : (ofConfig {}).runsWellTyped .sequential relinkedOps = true := by decide
  have hread : ((ofConfig {}).run .sequential relinkedOps).readPointer 65568 0 =
      .ok (some 65616) := by decide
  obtain ⟨log, hist⟩ := (TypedHistory.start {} .listed).run relinkedOps hops
  have hmem : ⟨65568, 16, .ofPointers "node" 64 [0, 5], .white⟩ ∈
      ((ofConfig {}).run .sequential relinkedOps).objects := by decide
  obtain ⟨-, hlast, hstands⟩ :=
    hist.pointers_lead (System.sequential_sound _ _) hmem (w := 0) ⟨by decide, by decide⟩
  refine ⟨hops, by decide, hread, log, hlast, (hstands 65616 ?_).2⟩
  exact Except.ok.inj (hlast.symm.trans hread)

end Heap

end ManagedHost
