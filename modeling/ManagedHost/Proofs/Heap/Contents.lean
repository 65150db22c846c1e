import ManagedHost.Proofs.Heap.Layout

/-!
# What the words of a heap hold

To those who call it, a heap is a collection of arrays of words, one for each live object.  `Arrays`
is that view, and `Arrays.Step` says what a call may do to it, without a word about blocks, arenas
and free lists.  `contents` is the view of a heap.

* `Effect.simulates`: every call on a heap is such a step on its contents.  A store touches one
  word because no word belongs to two objects (`wordAddr_inj`).
* `Obtains.zero`: a new object starts out zero.  A block that is used again is wiped, but a block
  that is cut from an arena is not: its words are zero because nothing was ever stored beyond the
  cursor of an arena (`Untouched`).
* `Arrays.Step.recorded`: the arrays hold what the log of a history says was last stored.

The main result is `History.refines_arrays`.
-/

namespace ManagedHost

namespace Heap

/-! ### Arrays -/

/-- The words of each live object, by its address. -/
abbrev Arrays := Nat → Option (List Nat)

/-- **What a call may do to the arrays**, and what is recorded about it. -/
inductive Arrays.Step (c : Arrays) : Op → Option Event → Arrays → Prop where
  /-- An array of zeros, long enough for the request, where there was none. -/
  | made {addr size words : Nat} (type : ObjectType) (rooted : Bool) (hfresh : c addr = none)
      (hsize : size ≤ wordSize * words) :
      Step c (.alloc size type rooted) (some (.made addr size))
        (Function.update c addr (some (List.replicate words 0)))
  /-- One word of one array. -/
  | stored {op : Op} {addr index value : Nat} {words : List Nat}
      (hop : op.store? = some (addr, index, value)) (hlive : c addr = some words)
      (hindex : index < words.length) :
      Step c op (some (.stored addr index value))
        (Function.update c addr (some (words.set index value)))
  /-- Some arrays go and the others stay as they are. -/
  | swept {op : Op} (hop : op.collects = true) (keep : Nat → Bool) :
      Step c op none fun a => if keep a then c a else none
  | same (op : Op) : Step c op none c

/-- The value that was last stored in a word since its object was made, or zero. -/
def lastStored : List Event → Nat → Nat → Nat
  | [], _, _ => 0
  | .made addr' _ :: log, addr, index => if addr' = addr then 0 else lastStored log addr index
  | .stored addr' index' value :: log, addr, index =>
    if addr' = addr ∧ index' = index then value else lastStored log addr index

/-- The arrays hold what was last stored. -/
def Arrays.Recorded (log : List Event) (c : Arrays) : Prop :=
  ∀ a words, c a = some words → ∀ i, i < words.length → words[i]? = some (lastStored log a i)

theorem Arrays.Step.recorded {log : List Event} {c c' : Arrays} {op : Op} {event : Option Event}
    (step : c.Step op event c') (hc : c.Recorded log) : c'.Recorded (event.toList ++ log) := by
  cases step with
  | @made addr size words type rooted hfresh hsize =>
    intro a ws hws i hi
    show ws[i]? = some (if addr = a then 0 else lastStored log a i)
    by_cases ha : a = addr
    · subst ha
      rw [Function.update_self] at hws
      obtain rfl := Option.some.inj hws
      rw [List.length_replicate] at hi
      rw [if_pos rfl, List.getElem?_replicate_of_lt hi]
    · rw [Function.update_of_ne ha] at hws
      rw [if_neg (Ne.symm ha)]
      exact hc a ws hws i hi
  | @stored _ addr index value words hop hlive hindex =>
    intro a ws hws i hi
    show ws[i]? = some (if addr = a ∧ index = i then value else lastStored log a i)
    by_cases ha : a = addr
    · subst ha
      rw [Function.update_self] at hws
      obtain rfl := Option.some.inj hws
      rw [List.length_set] at hi
      rw [List.getElem?_set]
      by_cases hij : index = i
      · rw [if_pos hij, if_pos hindex, if_pos ⟨rfl, hij⟩]
      · rw [if_neg hij, if_neg fun hboth => hij hboth.2]
        exact hc a words hlive i hi
    · rw [Function.update_of_ne ha] at hws
      rw [if_neg fun hboth => ha hboth.1.symm]
      exact hc a ws hws i hi
  | swept hop keep =>
    intro a ws hws i hi
    dsimp only at hws
    split_ifs at hws
    exact hc a ws hws i hi
  | same => exact hc

/-! ### The contents of a heap -/

/-- The words of the object, in order. -/
def payload (h : Heap) (o : Object) : List Nat :=
  (List.range o.words).map fun i => h.words.get (wordAddr o i)

/-- The arrays that the heap holds. -/
def contents (h : Heap) : Arrays := fun a => (h.find? a).map h.payload

theorem contents_of_find? {h : Heap} {a : Nat} {o : Object} (ho : h.find? a = some o) :
    h.contents a = some (h.payload o) := by
  unfold contents
  rw [ho]
  rfl

theorem length_payload (h : Heap) (o : Object) : (h.payload o).length = o.words := by
  rw [payload, List.length_map, List.length_range]

theorem payload_getElem? (h : Heap) (o : Object) {i : Nat} (hi : i < o.words) :
    (h.payload o)[i]? = some (h.words.get (wordAddr o i)) := by
  rw [payload, List.getElem?_map, List.getElem?_range hi]
  rfl

theorem payload_congr {h h' : Heap} {o : Object}
    (hwords : ∀ i, i < o.words → h'.words.get (wordAddr o i) = h.words.get (wordAddr o i)) :
    h'.payload o = h.payload o := by
  apply List.map_congr_left
  intro i hi
  exact hwords i (List.mem_range.mp hi)

/-- A sweep takes arrays away and leaves the others as they are. -/
theorem contents_reclaim (h : Heap) (keep : Nat → Bool) :
    (h.reclaim keep).contents = fun a => if keep a then h.contents a else none := by
  funext a
  have hfind : (h.reclaim keep).find? a = if keep a then h.find? a else none := by
    unfold find? reclaim
    rw [List.find?_filter]
    split_ifs with hkeep
    · congr 1
      funext o
      by_cases ho : o.addr = a
      · simp [ho, hkeep]
      · simp [ho]
    · refine List.find?_eq_none.mpr fun o _ => ?_
      by_cases ho : o.addr = a
      · simp [ho, hkeep]
      · simp [ho]
  unfold contents
  rw [hfind]
  split_ifs
  · rfl
  · rfl

/-- A store changes one word of one array. -/
theorem contents_store {h : Heap} (t : Tiled h.arenas h.blocks) {addr index : Nat} {o : Object}
    (hlive : h.find? addr = some o) (hindex : index < o.words) (value : Nat) :
    ({ h with words := h.words.set (wordAddr o index) value } : Heap).contents =
      Function.update h.contents addr (some ((h.payload o).set index value)) := by
  funext a
  show (h.find? a).map _ = _
  by_cases ha : a = addr
  · subst ha
    rw [Function.update_self, hlive, Option.map_some]
    congr 1
    apply List.ext_getElem?
    intro i
    rw [List.getElem?_set, length_payload]
    by_cases hi : i < o.words
    · rw [payload_getElem? _ _ hi, payload_getElem? _ _ hi]
      dsimp only
      rw [Store.get_set]
      by_cases hij : index = i
      · rw [if_pos hij, if_pos hindex, if_pos (by rw [hij])]
      · rw [if_neg hij, if_neg fun heq => hij ?_]
        exact (wordAddr_inj t (find?_mem hlive) (find?_mem hlive) hindex hi heq.symm).2
    · have hij : index ≠ i := by omega
      rw [if_neg hij, List.getElem?_eq_none (by rw [length_payload]; omega),
        List.getElem?_eq_none (by rw [length_payload]; omega)]
  · rw [Function.update_of_ne ha]
    unfold contents
    cases hp : h.find? a with
    | none => rfl
    | some p =>
      rw [Option.map_some, Option.map_some]
      congr 1
      refine payload_congr fun i hi => ?_
      dsimp only
      rw [Store.get_set]
      -- the word that was written is no word of another object
      refine if_neg fun heq => ha ?_
      obtain ⟨rfl, -⟩ := wordAddr_inj t (find?_mem hp) (find?_mem hlive) hi hindex heq
      rw [← find?_addr hp, ← find?_addr hlive]

/-! ### Words that nothing was stored in -/

/-- All words beyond the cursors of the arenas are zero. -/
def Untouched (arenas : List Arena) (words : Store) : Prop :=
  ∀ a ∈ arenas, ∀ x, a.base + a.cursor ≤ x → x < a.base + a.capacity → words.get x = 0

theorem Untouched.clear {arenas : List Arena} {words : Store} (hu : Untouched arenas words)
    (lo hi : Nat) : Untouched arenas (words.clear lo hi) := by
  intro a ha x hlo hhi
  rw [Store.get_clear]
  split_ifs
  · rfl
  · exact hu a ha x hlo hhi

/-- **The block for a new object is zero**, and nothing was stored beyond the cursors. -/
theorem Obtains.zero {sys : System} (sound : sys.Sound) {h h' : Heap} {size : Nat} {b : FreeBlock}
    (hb : Obtains sys h size b h') (t : Tiled h.arenas h.blocks)
    (hu : Untouched h.arenas h.words) :
    (∀ x, b.addr ≤ x → x < b.addr + b.capacity → h'.words.get x = 0) ∧
      Untouched h'.arenas h'.words := by
  cases hb with
  | reused hfree hfit =>
    refine ⟨?_, hu.clear _ _⟩
    intro x hlo hhi
    rw [Store.get_clear, if_pos ⟨hlo, hhi⟩]
  | @carved start a a' before after harenas hbump =>
    rw [harenas] at t hu
    have hmem : a ∈ before ++ a :: after := List.mem_append_right _ List.mem_cons_self
    obtain ⟨rfl, rfl, hroom⟩ :=
      Arena.bump_of_aligned (Nat.dvd_add (t.base a hmem) (t.cursor a hmem)) hbump
    refine ⟨?_, ?_⟩
    · -- the block lies between the old cursor and the end of the arena
      intro x hlo hhi
      refine hu a hmem x ?_ ?_
      · dsimp only at hlo
        omega
      · dsimp only at hhi
        omega
    · intro a₂ ha₂ x hlo hhi
      rcases mem_replaced (a := a) ha₂ with rfl | ha₂
      · refine hu a hmem x ?_ hhi
        dsimp only at hlo
        omega
      · exact hu a₂ ha₂ x hlo hhi
  | @grown start a a' hreserve hbump =>
    obtain ⟨ha, -, -, -⟩ := Arena.reserve_eq_ok hreserve
    have haligned : arenaAlign ∣ a.base + a.cursor := by
      rw [ha]
      exact sound.aligned _ _
    obtain ⟨rfl, rfl, hroom⟩ := Arena.bump_of_aligned haligned hbump
    refine ⟨?_, ?_⟩
    · -- the whole arena was cleared
      intro x hlo hhi
      dsimp only at hlo hhi
      rw [Store.get_clear, if_pos ⟨by dsimp only; omega, by dsimp only; omega⟩]
    · intro a₂ ha₂ x hlo hhi
      rcases List.mem_append.mp ha₂ with ha₂ | ha₂
      · exact hu.clear _ _ a₂ ha₂ x hlo hhi
      · obtain rfl := List.mem_singleton.mp ha₂
        rw [Store.get_clear, if_pos ⟨(Nat.le_add_right _ _).trans hlo, hhi⟩]

theorem Effect.untouched {sys : System} (sound : sys.Sound) {h h' : Heap} {op : Op}
    {event : Option Event} (eff : Effect sys h op event h') (r : h.AtRest)
    (t : Tiled h.arenas h.blocks) (hu : Untouched h.arenas h.words) :
    Untouched h'.arenas h'.words := by
  cases eff with
  | nothing => exact hu
  | made type rooted hrounded hblock => exact (hblock.zero sound t hu).2
  | @stored _ addr index value o hop hlive hindex =>
    intro a ha x hlo hhi
    have hmem := find?_mem hlive
    -- the word lies in a block, hence below the cursor of its arena
    have hne : x ≠ wordAddr o index := by
      rintro rfl
      exact t.not_holds (toFree_mem_blocks hmem) ha hlo hhi (wordAddr_holds t hmem hindex)
    rw [Store.get_set, if_neg hne]
    exact hu a ha x hlo hhi
  | rooted op roots => exact hu
  | collected hop root final =>
    obtain ⟨keep, -, heq⟩ := r.cycle_eq root final
    rw [heq]
    exact hu
  | tuned op enabled trigger growthRatio => exact hu

theorem History.untouched {sys : System} (sound : sys.Sound) {log : List Event} {h : Heap}
    (hist : History sys log h) : Untouched h.arenas h.words := by
  induction hist with
  | start config order => exact fun a ha => absurd ha List.not_mem_nil
  | step past op hu => exact (past.effect op).untouched sound past.atRest (past.tiled sound) hu

/-! ### Every call is a step on the arrays -/

/-- A new object is one more array, all zero, and leaves the others alone. -/
theorem Obtains.contents_occupy {sys : System} (sound : sys.Sound) {h h' : Heap} {size : Nat}
    {b : FreeBlock} (hb : Obtains sys h size b h') (hsize : arenaAlign ∣ size)
    (t : Tiled h.arenas h.blocks) (hu : Untouched h.arenas h.words) (type : ObjectType)
    (rooted : Bool) :
    (h'.occupy b type rooted).contents =
      Function.update h.contents b.addr (some (List.replicate (b.capacity / wordSize) 0)) := by
  funext a
  by_cases ha : a = b.addr
  · subst ha
    rw [Function.update_self]
    have hfind : (h'.occupy b type rooted).find? b.addr =
        some ⟨b.addr, b.capacity, type, if h'.phase = .marking then .black else .white⟩ :=
      List.find?_cons_of_pos (by simp)
    rw [contents_of_find? hfind]
    congr 1
    refine List.eq_replicate_iff.mpr ⟨length_payload _ _, ?_⟩
    intro w hw
    obtain ⟨i, hi, rfl⟩ := List.mem_map.mp hw
    have hlt : i < b.capacity / wordSize := List.mem_range.mp hi
    refine (hb.zero sound t hu).1 _ ?_ ?_
    · exact Nat.le_add_right _ _
    · unfold wordSize at hlt
      unfold wordAddr wordSize
      dsimp only
      omega
  · rw [Function.update_of_ne ha]
    unfold contents
    rw [find?_occupy _ _ _ _ (Ne.symm ha), find?_congr hb.objects_eq]
    cases hp : h.find? a with
    | none => rfl
    | some p =>
      rw [Option.map_some, Option.map_some]
      congr 1
      exact payload_congr fun i hi => hb.words_get sound hsize t (find?_mem hp) hi

/-- **Every call on a heap is a step on its arrays.** -/
theorem Effect.simulates {sys : System} (sound : sys.Sound) {h h' : Heap} {op : Op}
    {event : Option Event} (eff : Effect sys h op event h') (r : h.AtRest)
    (t : Tiled h.arenas h.blocks) (hu : Untouched h.arenas h.words) :
    h.contents.Step op event h'.contents := by
  cases eff with
  | nothing => exact .same op
  | @made size rounded b h₁ type rooted hrounded hblock =>
    obtain ⟨hdvd, hle, -⟩ := Size.alignUp_arenaAlign hrounded
    rw [hblock.contents_occupy sound hdvd t hu]
    refine .made type rooted ?_ ?_
    · have hnone : h.find? b.addr = none := by
        refine List.find?_eq_none.mpr fun o ho => ?_
        simpa using hblock.ne_addr sound hdvd t o ho
      unfold contents
      rw [hnone]
      rfl
    · -- the capacity is a whole number of words, and no less than the request
      obtain ⟨n, hn⟩ := (hblock.tiled sound hdvd t).capacity b List.mem_cons_self
      have hcapacity := ((Nat.le_max_left size 1).trans hle).trans hblock.le_capacity
      rw [hn] at hcapacity ⊢
      unfold arenaAlign at hcapacity ⊢
      unfold wordSize
      omega
  | @stored _ addr index value o hop hlive hindex =>
    rw [contents_store t hlive hindex]
    refine .stored hop (contents_of_find? hlive) ?_
    rw [length_payload]
    exact hindex
  | rooted op roots => exact .same op
  | collected hop root final =>
    obtain ⟨keep, -, heq⟩ := r.cycle_eq root final
    rw [heq]
    have hcontents : ((h.reclaim keep).closeCycle root final).contents =
        (h.reclaim keep).contents := rfl
    rw [hcontents, contents_reclaim]
    exact .swept hop keep
  | tuned op enabled trigger growthRatio => exact .same op

theorem History.simulates {sys : System} (sound : sys.Sound) {log : List Event} {h : Heap}
    (hist : History sys log h) (op : Op) :
    h.contents.Step op (h.perform sys op).1 (h.perform sys op).2.contents :=
  (hist.effect op).simulates sound hist.atRest (hist.tiled sound) (hist.untouched sound)

theorem History.recorded {sys : System} (sound : sys.Sound) {log : List Event} {h : Heap}
    (hist : History sys log h) : h.contents.Recorded log := by
  induction hist with
  | start config order =>
    exact fun a words hwords => absurd hwords (by simp [contents, find?, ofConfig])
  | step past op hc => exact (past.simulates sound op).recorded hc

/-! ### Access -/

section Access

variable {h : Heap} {addr : Nat} {o : Object}

theorem readWord_of_lt (ho : h.find? addr = some o) {i : Nat} (hi : i < o.words) :
    h.readWord addr i = .ok (h.words.get (wordAddr o i)) := by
  unfold readWord
  rw [live_eq_ok.mpr ho]
  exact if_pos hi

theorem writeWord_of_lt (ho : h.find? addr = some o) {i : Nat} (hi : i < o.words) (value : Nat) :
    h.writeWord addr i value = .ok { h with words := h.words.set (wordAddr o i) value } := by
  unfold writeWord
  rw [live_eq_ok.mpr ho]
  exact if_pos hi

theorem loadWord_of_le {i : Nat} (hi : o.words ≤ i) :
    h.loadWord o i = .error (.wordBounds i o.words) :=
  if_neg (Nat.not_lt_of_le hi)

theorem storeWord_of_le {i : Nat} (hi : o.words ≤ i) (value : Nat) :
    h.storeWord o i value = .error (.wordBounds i o.words) :=
  if_neg (Nat.not_lt_of_le hi)

/-- **Beyond the payload every access is a fault.**  A reference that is to be stored must go to a
declared pointer first of all. -/
theorem access_of_le (ho : h.find? addr = some o) {i : Nat} (hi : o.words ≤ i) :
    h.readWord addr i = .error (.wordBounds i o.words) ∧
      h.readPointer addr i = .error (.wordBounds i o.words) ∧
      (∀ value, h.writeWord addr i value = .error (.wordBounds i o.words)) ∧
      ∀ target, h.writePointer addr i target =
        .error (if o.type.isPointer i then .wordBounds i o.words else .notPointer) := by
  have hlive := live_eq_ok.mpr ho
  refine ⟨?_, ?_, ?_, ?_⟩
  · unfold readWord
    rw [hlive]
    exact loadWord_of_le hi
  · unfold readPointer
    rw [hlive]
    simp only [bind, Except.bind, loadWord_of_le hi]
  · intro value
    unfold writeWord
    rw [hlive]
    exact storeWord_of_le hi value
  · intro target
    unfold writePointer
    rw [hlive]
    simp only [bind, Except.bind]
    split_ifs
    · exact storeWord_of_le hi _
    · rfl

/-- A store beyond the payload changes nothing. -/
theorem perform_store_of_le (sys : System) (ho : h.find? addr = some o) {i : Nat}
    (hi : o.words ≤ i) {op : Op} {value : Nat} (hop : op.store? = some (addr, i, value)) :
    h.perform sys op = (none, h) := by
  obtain ⟨-, -, hword, hpointer⟩ := access_of_le ho hi
  cases op with
  | writeWord addr' index value' =>
    obtain ⟨rfl, hrest⟩ := Prod.mk.inj (Option.some.inj hop)
    obtain ⟨rfl, rfl⟩ := Prod.mk.inj hrest
    simp only [perform, hword]
  | writePointer addr' field target =>
    obtain ⟨rfl, hrest⟩ := Prod.mk.inj (Option.some.inj hop)
    obtain ⟨rfl, -⟩ := Prod.mk.inj hrest
    simp only [perform, hpointer]
  | alloc | addRoot | removeRoot | collect | monitor | setEnabled | setTrigger | setPercent =>
    cases hop

end Access

/-- **A heap refines a collection of arrays**, whatever its history.  Every call is a step on the
arrays; each live object has one array, which holds what was last stored in each of its words since
the object was made; and an access beyond the array is a fault that changes nothing. -/
theorem History.refines_arrays {sys : System} (sound : sys.Sound) {log : List Event} {h : Heap}
    (hist : History sys log h) :
    (∀ op, h.contents.Step op (h.perform sys op).1 (h.perform sys op).2.contents) ∧
      (∀ a, (h.contents a).isSome = h.isLive a) ∧
      ∀ o ∈ h.objects,
        h.contents o.addr =
            some ((List.range (o.capacity / wordSize)).map (lastStored log o.addr)) ∧
          (∀ i, i < o.capacity / wordSize → h.readWord o.addr i = .ok (lastStored log o.addr i) ∧
            ∀ value, (h.perform sys (.writeWord o.addr i value)).1 =
              some (.stored o.addr i value)) ∧
          ∀ i, o.capacity / wordSize ≤ i →
            h.readWord o.addr i = .error (.wordBounds i o.words) ∧
              h.readPointer o.addr i = .error (.wordBounds i o.words) ∧
              (∀ value, h.writeWord o.addr i value = .error (.wordBounds i o.words)) ∧
              (∀ target, h.writePointer o.addr i target =
                .error (if o.type.isPointer i then .wordBounds i o.words else .notPointer)) ∧
              ∀ op value, op.store? = some (o.addr, i, value) → h.perform sys op = (none, h) := by
  refine ⟨hist.simulates sound, ?_, ?_⟩
  · intro a
    unfold contents isLive
    rw [Option.isSome_map]
  · intro o ho
    have hfind := find?_of_mem (hist.tiled sound) ho
    have hcontents := contents_of_find? hfind
    -- the arrays and the store of the heap hold the same words
    have hlast : ∀ i, i < o.words → h.words.get (wordAddr o i) = lastStored log o.addr i := by
      intro i hi
      have hword := hist.recorded sound _ _ hcontents i (by rw [length_payload]; exact hi)
      rw [payload_getElem? h o hi] at hword
      exact Option.some.inj hword
    refine ⟨?_, ?_, ?_⟩
    · rw [hcontents]
      congr 1
      apply List.map_congr_left
      intro i hi
      exact hlast i (List.mem_range.mp hi)
    · intro i hi
      refine ⟨?_, fun value => ?_⟩
      · rw [readWord_of_lt hfind hi, hlast i hi]
      · simp only [perform, writeWord_of_lt hfind hi]
    · intro i hi
      obtain ⟨hread, hreadPointer, hwrite, hwritePointer⟩ := access_of_le hfind hi
      exact ⟨hread, hreadPointer, hwrite, hwritePointer,
        fun op value hop => perform_store_of_le sys hfind hi hop⟩

/-- A heap that has freed an object in which something was stored, and used its block again. -/
def rewritten : Heap :=
  let plain := ObjectType.plain "plain" 0
  (ofConfig {}).run .sequential
    [.alloc 16 plain true, .alloc 16 plain false, .writeWord 65568 1 7, .writeWord 65616 0 9,
      .collect .zero .zero, .alloc 8 plain true]

theorem rewritten_refines_arrays :
    rewritten.contents 65568 = some [0, 7] ∧ rewritten.contents 65616 = some [0, 0] ∧
      rewritten.readWord 65616 2 = .error (.wordBounds 2 2) ∧
      ∃ log, ∀ o ∈ rewritten.objects, rewritten.contents o.addr =
        some ((List.range (o.capacity / wordSize)).map (lastStored log o.addr)) := by
  have sound : System.sequential.Sound := System.sequential_sound _ _
  obtain ⟨log, hist⟩ : ∃ log, History .sequential log rewritten := (History.start {} .listed).run _
  obtain ⟨-, -, hobjects⟩ := hist.refines_arrays sound
  refine ⟨by decide, by decide, ?_, log, fun o ho => (hobjects o ho).1⟩
  have hnew : ⟨65616, 16, .plain "plain" 0, .white⟩ ∈ rewritten.objects := by decide
  exact ((hobjects _ hnew).2.2 2 (by decide)).1

end Heap

end ManagedHost
