import ManagedHost.Channel.Basic
import Mathlib.Data.List.Basic
import Mathlib.Tactic.SplitIfs

/-!
# Who waits at a channel

Any number of parties make calls on a channel, each an atomic step; a call that blocks parks, and
what becomes of it is seen in its slot.  So a state of the channel is reached by a list of calls
(`run`), whoever made them.

* `Queued`: a queue holds exactly the waiters whose slots are open, oldest first.  Parking, serving
  the oldest and clearing the queue keep it so, on either side of the channel.
* `Orderly`: the invariant of a channel.  Nobody waits for what is there.
* `Effect` says once and for all what a call can do to an orderly channel: `perform_effect`.

The main result is `run_consistent`.
-/

namespace ManagedHost

/-- Whether the parked send is still waiting. -/
def SendSlot.IsOpen {α : Type} (s : SendSlot α) : Prop := ∃ value, s = .pending value

/-- Whether the parked receive is still waiting. -/
def RecvSlot.IsOpen {α : Type} (s : RecvSlot α) : Prop := s = .waiting

theorem SendSlot.isOpen_pending {α : Type} (value : α) : (SendSlot.pending value).IsOpen :=
  ⟨value, rfl⟩

theorem SendSlot.not_isOpen_taken {α : Type} : ¬ (SendSlot.taken : SendSlot α).IsOpen := by
  rintro ⟨_, h⟩
  cases h

theorem SendSlot.not_isOpen_closed {α : Type} : ¬ (SendSlot.closed : SendSlot α).IsOpen := by
  rintro ⟨_, h⟩
  cases h

/-! ### Queues of waiters -/

/-- Put the same thing into the slots of all the waiters. -/
theorem getElem?_foldl_set {σ : Type} (s : σ) (queue : List Nat) (slots : List σ) (w : Nat) :
    (queue.foldl (fun slots w => slots.set w s) slots)[w]? =
      if w ∈ queue then slots[w]?.map fun _ => s else slots[w]? := by
  induction queue generalizing slots with
  | nil => simp
  | cons v rest ih =>
    rw [List.foldl_cons, ih]
    by_cases hv : v = w
    · subst hv
      rw [if_pos List.mem_cons_self, List.getElem?_set_self']
      split_ifs
      · exact Option.map_map _ _ _
      · rfl
    · have hmem : w ∈ v :: rest ↔ w ∈ rest := by
        rw [List.mem_cons]
        exact ⟨fun h => h.resolve_left (Ne.symm hv), Or.inr⟩
      rw [List.getElem?_set_ne hv]
      simp only [hmem]

/-- **The queue holds exactly the waiters whose slots are open**, oldest first. -/
structure Queued {σ : Type} (isOpen : σ → Prop) (slots : List σ) (queue : List Nat) : Prop where
  sorted : queue.Pairwise (· < ·)
  mem_iff : ∀ w, w ∈ queue ↔ ∃ s, slots[w]? = some s ∧ isOpen s

namespace Queued

variable {σ : Type} {isOpen : σ → Prop} {slots : List σ} {queue rest : List Nat} {s : σ} {w : Nat}

theorem lt_length (q : Queued isOpen slots queue) (hw : w ∈ queue) : w < slots.length := by
  obtain ⟨s, hs, -⟩ := (q.mem_iff w).mp hw
  exact (List.getElem?_eq_some_iff.mp hs).1

/-- Another waiter joins the queue. -/
theorem park (q : Queued isOpen slots queue) (hs : isOpen s) :
    Queued isOpen (slots ++ [s]) (queue ++ [slots.length]) where
  sorted := by
    refine List.pairwise_append.mpr ⟨q.sorted, List.pairwise_singleton _ _, ?_⟩
    intro v hv w hw
    rw [List.mem_singleton.mp hw]
    exact q.lt_length hv
  mem_iff v := by
    rw [List.mem_append, List.mem_singleton]
    rcases Nat.lt_trichotomy v slots.length with hlt | rfl | hgt
    · rw [List.getElem?_append_left hlt, q.mem_iff]
      exact ⟨fun h => h.resolve_right (Nat.ne_of_lt hlt), Or.inl⟩
    · rw [List.getElem?_concat_length]
      exact ⟨fun _ => ⟨s, rfl, hs⟩, fun _ => Or.inr rfl⟩
    · constructor
      · rintro (hv | hv)
        · exact absurd (q.lt_length hv) (Nat.not_lt_of_gt hgt)
        · exact absurd hv (Nat.ne_of_gt hgt)
      · rintro ⟨t, ht, -⟩
        have hlt := (List.getElem?_eq_some_iff.mp ht).1
        rw [List.length_append, List.length_singleton] at hlt
        omega

/-- The oldest waiter is served. -/
theorem serve (q : Queued isOpen slots (w :: rest)) (hs : ¬ isOpen s) :
    Queued isOpen (slots.set w s) rest where
  sorted := (List.pairwise_cons.mp q.sorted).2
  mem_iff v := by
    have hafter := (List.pairwise_cons.mp q.sorted).1
    by_cases hv : w = v
    · subst hv
      rw [List.getElem?_set_self (q.lt_length List.mem_cons_self)]
      constructor
      · intro hmem
        exact absurd (hafter w hmem) (Nat.lt_irrefl w)
      · rintro ⟨t, ht, hopen⟩
        obtain rfl := Option.some.inj ht
        exact absurd hopen hs
    · rw [List.getElem?_set_ne hv, ← q.mem_iff, List.mem_cons]
      exact ⟨Or.inr, fun h => h.resolve_left (Ne.symm hv)⟩

/-- All waiters are served. -/
theorem clear (q : Queued isOpen slots queue) (hs : ¬ isOpen s) :
    Queued isOpen (queue.foldl (fun slots w => slots.set w s) slots) [] := by
  induction queue generalizing slots with
  | nil => exact q
  | cons w rest ih => exact ih (q.serve hs)

end Queued

namespace Channel

variable {α : Type}

/-! ### Calls -/

/-- A call on a channel. -/
inductive Call (α : Type) where
  | send (value : α)
  | trySend (value : α)
  | receive
  | tryReceive
  | close

/-- The value that the call offers, if it does. -/
def Call.value? : Call α → Option α
  | send value => some value
  | trySend value => some value
  | _ => none

/-- What a call is answered at once. -/
inductive Answer (α : Type) where
  | sent (result : SendResult)
  | tried (result : Except (TrySendError α) Unit)
  | received (result : RecvResult α)
  | polled (result : Except TryRecvError α)
  | none

/-- The answer to a call that offered a value. -/
def Answer.reply? : Answer α → Option SendResult
  | sent result => some result
  | tried (.ok _) => some .sent
  | tried (.error _) => some .refused
  | _ => .none

/-- The value that the answer hands over, if it does. -/
def Answer.value? : Answer α → Option α
  | received (.got value) => some value
  | polled (.ok value) => some value
  | _ => .none

theorem Answer.value?_of_reply? {answer : Answer α} {r : SendResult}
    (h : answer.reply? = some r) : answer.value? = .none := by
  cases answer with
  | sent => rfl
  | tried => rfl
  | received => cases h
  | polled => cases h
  | none => cases h

theorem Answer.reply?_of_value? {answer : Answer α} {v : α} (h : answer.value? = some v) :
    answer.reply? = .none := by
  cases answer with
  | sent => cases h
  | tried => cases h
  | received => rfl
  | polled => rfl
  | none => cases h

/-- Make a call. -/
def perform (c : Channel α) : Call α → Answer α × Channel α
  | .send value => (.sent (c.send value).1, (c.send value).2)
  | .trySend value => (.tried (c.trySend value).1, (c.trySend value).2)
  | .receive => (.received c.receive.1, c.receive.2)
  | .tryReceive => (.polled c.tryReceive.1, c.tryReceive.2)
  | .close => (.none, c.close)

/-- Make calls one after the other. -/
def run (c : Channel α) (calls : List (Call α)) : Channel α :=
  calls.foldl (fun c call => (c.perform call).2) c

/-! ### The invariant -/

/-- Whether the waiter, a parked receiver, was handed a value. -/
def HasServed (c : Channel α) (w : Nat) : Prop := ∃ value, c.recvSlots[w]? = some (.ready value)

/-- **A channel in order.** -/
structure Orderly (c : Channel α) : Prop where
  fits : c.buffer.length ≤ c.capacity
  /-- Nobody waits for a value while there is one. -/
  receiving : c.receivers ≠ [] → c.buffer = [] ∧ c.senders = []
  /-- Nobody waits for room while there is some. -/
  sending : c.senders ≠ [] → c.buffer.length = c.capacity
  /-- Nobody waits at a closed channel. -/
  closing : c.closed = true → c.receivers = [] ∧ c.senders = []
  sendQueue : Queued SendSlot.IsOpen c.sendSlots c.senders
  recvQueue : Queued RecvSlot.IsOpen c.recvSlots c.receivers
  /-- As long as the channel is open no receiver sees the end of the stream. -/
  ended : c.closed = false → .closed ∉ c.recvSlots
  /-- Receivers that park are served in the order of their parking. -/
  served : ∀ i j, i < j → c.HasServed j → c.HasServed i

theorem orderly_ofCapacity (capacity : Nat) : (ofCapacity capacity : Channel α).Orderly where
  fits := Nat.zero_le _
  receiving h := absurd rfl h
  sending h := absurd rfl h
  closing _ := ⟨rfl, rfl⟩
  sendQueue := ⟨.nil, by simp [ofCapacity]⟩
  recvQueue := ⟨.nil, by simp [ofCapacity]⟩
  ended _ := List.not_mem_nil
  served := by
    rintro i j - ⟨value, h⟩
    simp [ofCapacity] at h

/-! ### What one call can do -/

/-- The effect of a call on the channel `c`: the answer, and the channel afterwards. -/
inductive Effect (c : Channel α) (call : Call α) (answer : Answer α) : Channel α → Prop where
  /-- The value is not taken. -/
  | refused {v : α} (hcall : call.value? = some v) (hreply : answer.reply? = some .refused) :
      Effect c call answer c
  /-- The value goes to the oldest parked receiver. -/
  | handed {v : α} {w : Nat} {rest : List Nat} (hcall : call.value? = some v)
      (hreply : answer.reply? = some .sent) (hopen : c.closed = false)
      (hreceivers : c.receivers = w :: rest) :
      Effect c call answer
        { c with receivers := rest, recvSlots := c.recvSlots.set w (.ready v) }
  /-- The value goes to the buffer. -/
  | buffered {v : α} (hcall : call.value? = some v) (hreply : answer.reply? = some .sent)
      (hopen : c.closed = false) (hreceivers : c.receivers = [])
      (hroom : c.buffer.length < c.capacity) :
      Effect c call answer { c with buffer := c.buffer ++ [v] }
  /-- The sender parks with its value. -/
  | parked {v : α} (hcall : call.value? = some v)
      (hreply : answer.reply? = some (.parked c.sendSlots.length)) (hopen : c.closed = false)
      (hreceivers : c.receivers = []) (hfull : c.capacity ≤ c.buffer.length) :
      Effect c call answer
        { c with
          senders := c.senders ++ [c.sendSlots.length]
          sendSlots := c.sendSlots ++ [.pending v] }
  /-- The oldest value of the buffer is received. -/
  | took {v : α} {rest : List α} (hvalue : answer.value? = some v) (hbuffer : c.buffer = v :: rest)
      (hsenders : c.senders = []) : Effect c call answer { c with buffer := rest }
  /-- The oldest value of the buffer is received, and the oldest parked sender fills the gap. -/
  | refilled {v u : α} {rest : List α} {w : Nat} {others : List Nat}
      (hvalue : answer.value? = some v) (hbuffer : c.buffer = v :: rest)
      (hsenders : c.senders = w :: others) (hslot : c.sendSlots[w]? = some (.pending u)) :
      Effect c call answer
        { c with
          buffer := rest ++ [u], senders := others, sendSlots := c.sendSlots.set w .taken }
  /-- The value is received straight from the oldest parked sender. -/
  | met {v : α} {w : Nat} {others : List Nat} (hvalue : answer.value? = some v)
      (hbuffer : c.buffer = []) (hsenders : c.senders = w :: others)
      (hslot : c.sendSlots[w]? = some (.pending v)) :
      Effect c call answer { c with senders := others, sendSlots := c.sendSlots.set w .taken }
  /-- There is nothing to receive, or nothing to close. -/
  | nothing (hreply : answer.reply? = .none) (hvalue : answer.value? = .none) :
      Effect c call answer c
  /-- The receiver parks. -/
  | waiting (hreply : answer.reply? = .none) (hvalue : answer.value? = .none)
      (hopen : c.closed = false) (hbuffer : c.buffer = []) (hsenders : c.senders = []) :
      Effect c call answer
        { c with
          receivers := c.receivers ++ [c.recvSlots.length]
          recvSlots := c.recvSlots ++ [.waiting] }
  /-- The channel is closed, and all who are parked are told. -/
  | closing (hreply : answer.reply? = .none) (hvalue : answer.value? = .none)
      (hopen : c.closed = false) : Effect c call answer c.close

theorem offer_eq_none {c : Channel α} {v : α} (h : c.offer v = none) :
    c.receivers = [] ∧ c.capacity ≤ c.buffer.length := by
  unfold offer at h
  split at h
  · cases h
  · next hnil =>
    split_ifs at h with hroom
    exact ⟨hnil, Nat.le_of_not_lt hroom⟩

/-- A value that is not refused or parked goes to a receiver or to the buffer. -/
theorem offer_effect {c c' : Channel α} {v : α} (hoffer : c.offer v = some c')
    (hopen : c.closed = false) {call : Call α} {answer : Answer α} (hcall : call.value? = some v)
    (hreply : answer.reply? = some .sent) : Effect c call answer c' := by
  unfold offer at hoffer
  split at hoffer
  · next w rest hreceivers =>
    obtain rfl := Option.some.inj hoffer
    exact .handed hcall hreply hopen hreceivers
  · next hnil =>
    split_ifs at hoffer with hroom
    obtain rfl := Option.some.inj hoffer
    exact .buffered hcall hreply hopen hnil hroom

theorem takeParked_of_nil {c : Channel α} (h : c.senders = []) : c.takeParked = (none, c) := by
  unfold takeParked
  rw [h, takeFrom, ← h]

/-- In an orderly channel the oldest parked sender has a value to give. -/
theorem Orderly.takeParked_of_cons {c : Channel α} (o : c.Orderly) {w : Nat} {others : List Nat}
    (h : c.senders = w :: others) :
    ∃ v, c.sendSlots[w]? = some (.pending v) ∧
      c.takeParked =
        (some v, { c with senders := others, sendSlots := c.sendSlots.set w .taken }) := by
  have hw : w ∈ c.senders := by
    rw [h]
    exact List.mem_cons_self
  obtain ⟨_, hslot, v, rfl⟩ := (o.sendQueue.mem_iff w).mp hw
  refine ⟨v, hslot, ?_⟩
  unfold takeParked
  rw [h, takeFrom, hslot]

/-- What taking a value does: there is none, or it comes from the buffer or from a sender. -/
theorem Orderly.dequeue_effect {c : Channel α} (o : c.Orderly) :
    (c.dequeue = (none, c) ∧ c.buffer = [] ∧ c.senders = []) ∨
      ∃ v, c.dequeue.1 = some v ∧ ∀ (call : Call α) (answer : Answer α),
        answer.value? = some v → Effect c call answer c.dequeue.2 := by
  unfold dequeue
  cases hbuffer : c.buffer with
  | nil =>
    cases hsenders : c.senders with
    | nil => exact Or.inl ⟨takeParked_of_nil hsenders, rfl, rfl⟩
    | cons w others =>
      obtain ⟨v, hslot, htake⟩ := o.takeParked_of_cons hsenders
      dsimp only
      rw [htake]
      exact Or.inr ⟨v, rfl, fun _ _ hvalue => .met hvalue hbuffer hsenders hslot⟩
  | cons v rest =>
    right
    dsimp only
    cases hsenders : c.senders with
    | nil =>
      have htake := takeParked_of_nil (c := { c with buffer := rest }) hsenders
      rw [← hsenders, htake]
      exact ⟨v, rfl, fun _ _ hvalue => .took hvalue hbuffer hsenders⟩
    | cons w others =>
      obtain ⟨u, hslot, -⟩ := o.takeParked_of_cons hsenders
      have htake : ({ c with buffer := rest } : Channel α).takeParked =
          (some u, { c with
            buffer := rest, senders := others, sendSlots := c.sendSlots.set w .taken }) := by
        unfold takeParked
        dsimp only
        rw [hsenders, takeFrom, hslot]
      rw [← hsenders, htake]
      exact ⟨v, rfl, fun _ _ hvalue => .refilled hvalue hbuffer hsenders hslot⟩

/-- **Inversion of `perform`.** -/
theorem Orderly.perform_effect {c : Channel α} (o : c.Orderly) (call : Call α) :
    Effect c call (c.perform call).1 (c.perform call).2 := by
  cases call with
  | send v =>
    by_cases hclosed : c.closed = true
    · simp only [perform, send, if_pos hclosed]
      exact .refused rfl rfl
    · have hopen : c.closed = false := Bool.eq_false_iff.mpr hclosed
      simp only [perform, send, if_neg hclosed]
      cases hoffer : c.offer v with
      | some c' => exact offer_effect hoffer hopen rfl rfl
      | none =>
        obtain ⟨hreceivers, hfull⟩ := offer_eq_none hoffer
        exact .parked rfl rfl hopen hreceivers hfull
  | trySend v =>
    by_cases hclosed : c.closed = true
    · simp only [perform, trySend, if_pos hclosed]
      exact .refused rfl rfl
    · simp only [perform, trySend, if_neg hclosed]
      cases hoffer : c.offer v with
      | some c' => exact offer_effect hoffer (Bool.eq_false_iff.mpr hclosed) rfl rfl
      | none => exact .refused rfl rfl
  | receive =>
    rcases o.dequeue_effect with ⟨hnone, hbuffer, hsenders⟩ | ⟨v, hsome, heffect⟩
    · simp only [perform, receive, hnone]
      split_ifs with hclosed
      · exact .nothing rfl rfl
      · exact .waiting rfl rfl (Bool.eq_false_iff.mpr hclosed) hbuffer hsenders
    · have hreceive : c.receive = (.got v, c.dequeue.2) := by
        unfold receive
        rw [← Prod.eta c.dequeue, hsome]
      simp only [perform, hreceive]
      exact heffect _ _ rfl
  | tryReceive =>
    rcases o.dequeue_effect with ⟨hnone, hbuffer, hsenders⟩ | ⟨v, hsome, heffect⟩
    · simp only [perform, tryReceive, hnone]
      exact .nothing rfl rfl
    · have hreceive : c.tryReceive = (.ok v, c.dequeue.2) := by
        unfold tryReceive
        rw [← Prod.eta c.dequeue, hsome]
      simp only [perform, hreceive]
      exact heffect _ _ rfl
  | close =>
    by_cases hclosed : c.closed = true
    · simp only [perform, close, if_pos hclosed]
      exact .nothing rfl rfl
    · exact .closing rfl rfl (Bool.eq_false_iff.mpr hclosed)

/-! ### Calls keep the order -/

/-- The waiters before the oldest one in the queue were all handed a value. -/
theorem Orderly.hasServed_of_lt {c : Channel α} (o : c.Orderly) (hopen : c.closed = false)
    {w : Nat} {rest : List Nat} (hreceivers : c.receivers = w :: rest) {i : Nat} (hi : i < w) :
    c.HasServed i := by
  have q := o.recvQueue
  rw [hreceivers] at q
  have hlt : i < c.recvSlots.length := Nat.lt_trans hi (q.lt_length List.mem_cons_self)
  have hslot : c.recvSlots[i]? = some c.recvSlots[i] := List.getElem?_eq_getElem hlt
  -- the waiter is not in the queue any more, and no end of the stream was seen yet
  have hnot : i ∉ w :: rest := by
    intro hmem
    rcases List.mem_cons.mp hmem with rfl | hmem
    · exact Nat.lt_irrefl _ hi
    · exact Nat.lt_asymm hi ((List.pairwise_cons.mp q.sorted).1 i hmem)
  cases hcase : c.recvSlots[i] with
  | waiting =>
    rw [hcase] at hslot
    exact absurd ((q.mem_iff i).mpr ⟨_, hslot, rfl⟩) hnot
  | ready value =>
    rw [hcase] at hslot
    exact ⟨value, hslot⟩
  | closed => exact absurd (hcase ▸ List.getElem_mem hlt) (o.ended hopen)

theorem hasServed_set {c c' : Channel α} {w : Nat} {v : α}
    (hslots : c'.recvSlots = c.recvSlots.set w (.ready v)) (hw : w < c.recvSlots.length) (i : Nat) :
    c'.HasServed i ↔ i = w ∨ c.HasServed i := by
  unfold HasServed
  rw [hslots]
  by_cases hi : w = i
  · subst hi
    rw [List.getElem?_set_self hw]
    exact ⟨fun _ => Or.inl rfl, fun _ => ⟨v, rfl⟩⟩
  · rw [List.getElem?_set_ne hi]
    exact ⟨Or.inr, fun h => h.resolve_left (Ne.symm hi)⟩

/-- A receiver that has just parked was not served. -/
theorem hasServed_append {c c' : Channel α}
    (hslots : c'.recvSlots = c.recvSlots ++ [RecvSlot.waiting]) (i : Nat) :
    c'.HasServed i ↔ c.HasServed i := by
  unfold HasServed
  rw [hslots]
  rcases Nat.lt_or_ge i c.recvSlots.length with hlt | hge
  · rw [List.getElem?_append_left hlt]
  · rw [List.getElem?_append_right hge, List.getElem?_eq_none hge]
    constructor
    · rintro ⟨value, h⟩
      cases List.mem_singleton.mp (List.mem_of_getElem? h)
    · rintro ⟨value, h⟩
      cases h

/-- Closing ends the calls of those who wait, and of nobody who was served. -/
theorem Orderly.hasServed_close {c : Channel α} (o : c.Orderly) (i : Nat) :
    c.close.HasServed i ↔ c.HasServed i := by
  unfold close
  split_ifs
  · exact Iff.rfl
  · unfold HasServed
    dsimp only
    rw [getElem?_foldl_set]
    split_ifs with hmem
    · obtain ⟨s, hslot, rfl⟩ := (o.recvQueue.mem_iff i).mp hmem
      rw [hslot]
      simp
    · exact Iff.rfl

theorem Orderly.handed {c : Channel α} (o : c.Orderly) {v : α} {w : Nat} {rest : List Nat}
    (hopen : c.closed = false) (hreceivers : c.receivers = w :: rest) :
    Orderly { c with receivers := rest, recvSlots := c.recvSlots.set w (.ready v) } := by
  have hidle := o.receiving (by rw [hreceivers]; exact List.cons_ne_nil _ _)
  have q := o.recvQueue
  rw [hreceivers] at q
  have hw := q.lt_length List.mem_cons_self
  refine
    { fits := o.fits, receiving := fun _ => hidle, sending := o.sending, closing := ?closing,
      sendQueue := o.sendQueue, recvQueue := q.serve ?recvQueue, ended := ?ended,
      served := ?served }
  case closing =>
    intro hclosed
    exact absurd (hopen.symm.trans hclosed) Bool.false_ne_true
  case recvQueue =>
    intro hready
    cases hready
  case ended =>
    intro _ hmem
    rcases List.mem_or_eq_of_mem_set hmem with hmem | heq
    · exact o.ended hopen hmem
    · cases heq
  case served =>
    intro i j hij hj
    rw [hasServed_set rfl hw] at hj ⊢
    rcases hj with rfl | hj
    · exact Or.inr (o.hasServed_of_lt hopen hreceivers hij)
    · exact Or.inr (o.served i j hij hj)

theorem Orderly.buffered {c : Channel α} (o : c.Orderly) {v : α} (hreceivers : c.receivers = [])
    (hroom : c.buffer.length < c.capacity) : Orderly { c with buffer := c.buffer ++ [v] } where
  fits := by
    rw [List.length_append, List.length_singleton]
    exact hroom
  receiving h := absurd hreceivers h
  sending h := absurd (o.sending h) (Nat.ne_of_lt hroom)
  closing := o.closing
  sendQueue := o.sendQueue
  recvQueue := o.recvQueue
  ended := o.ended
  served := o.served

theorem Orderly.parked {c : Channel α} (o : c.Orderly) {v : α} (hopen : c.closed = false)
    (hreceivers : c.receivers = []) (hfull : c.capacity ≤ c.buffer.length) :
    Orderly { c with
      senders := c.senders ++ [c.sendSlots.length]
      sendSlots := c.sendSlots ++ [.pending v] } where
  fits := o.fits
  receiving h := absurd hreceivers h
  sending _ := Nat.le_antisymm o.fits hfull
  closing hclosed := absurd (hopen.symm.trans hclosed) Bool.false_ne_true
  sendQueue := o.sendQueue.park (SendSlot.isOpen_pending v)
  recvQueue := o.recvQueue
  ended := o.ended
  served := o.served

theorem Orderly.took {c : Channel α} (o : c.Orderly) {v : α} {rest : List α}
    (hbuffer : c.buffer = v :: rest) (hsenders : c.senders = []) :
    Orderly { c with buffer := rest } where
  fits := by
    have hfits := o.fits
    rw [hbuffer] at hfits
    exact Nat.le_of_succ_le hfits
  receiving h := by
    rw [(o.receiving h).1] at hbuffer
    cases hbuffer
  sending h := absurd hsenders h
  closing := o.closing
  sendQueue := o.sendQueue
  recvQueue := o.recvQueue
  ended := o.ended
  served := o.served

/-- The oldest parked sender gives its value away.  Nobody can be waiting to receive then. -/
theorem Orderly.gave {c : Channel α} (o : c.Orderly) {buffer : List α} {w : Nat}
    {others : List Nat} (hsenders : c.senders = w :: others)
    (hlength : buffer.length = c.buffer.length) :
    Orderly { c with buffer, senders := others, sendSlots := c.sendSlots.set w .taken } := by
  have hfull := o.sending (by rw [hsenders]; exact List.cons_ne_nil _ _)
  have hnone : c.receivers = [] := by
    by_contra hsome
    rw [(o.receiving hsome).2] at hsenders
    cases hsenders
  have q := o.sendQueue
  rw [hsenders] at q
  refine
    { fits := ?fits, receiving := ?receiving, sending := ?sending, closing := ?closing,
      sendQueue := q.serve SendSlot.not_isOpen_taken, recvQueue := o.recvQueue, ended := o.ended,
      served := o.served }
  case fits =>
    dsimp only
    rw [hlength]
    exact o.fits
  case receiving =>
    intro hsome
    exact absurd hnone hsome
  case sending =>
    intro _
    dsimp only
    rw [hlength]
    exact hfull
  case closing =>
    intro hclosed
    rw [(o.closing hclosed).2] at hsenders
    cases hsenders

theorem Orderly.waiting {c : Channel α} (o : c.Orderly) (hopen : c.closed = false)
    (hbuffer : c.buffer = []) (hsenders : c.senders = []) :
    Orderly { c with
      receivers := c.receivers ++ [c.recvSlots.length]
      recvSlots := c.recvSlots ++ [.waiting] } := by
  refine
    { fits := o.fits, receiving := fun _ => ⟨hbuffer, hsenders⟩, sending := o.sending,
      closing := ?closing, sendQueue := o.sendQueue, recvQueue := o.recvQueue.park rfl,
      ended := ?ended, served := ?served }
  case closing =>
    intro hclosed
    exact absurd (hopen.symm.trans hclosed) Bool.false_ne_true
  case ended =>
    intro _ hmem
    rcases List.mem_append.mp hmem with hmem | hmem
    · exact o.ended hopen hmem
    · cases List.mem_singleton.mp hmem
  case served =>
    intro i j hij hj
    rw [hasServed_append rfl] at hj ⊢
    exact o.served i j hij hj

theorem close_of_open {c : Channel α} (hopen : c.closed = false) :
    c.close = { c with
      closed := true
      receivers := []
      senders := []
      recvSlots := c.receivers.foldl (fun slots w => slots.set w .closed) c.recvSlots
      sendSlots := c.senders.foldl (fun slots w => slots.set w .closed) c.sendSlots } :=
  if_neg (Bool.eq_false_iff.mp hopen)

theorem Orderly.close {c : Channel α} (o : c.Orderly) (hopen : c.closed = false) :
    c.close.Orderly := by
  have hserved := o.hasServed_close
  rw [close_of_open hopen] at hserved ⊢
  refine
    { fits := o.fits, receiving := fun h => absurd rfl h, sending := fun h => absurd rfl h,
      closing := fun _ => ⟨rfl, rfl⟩, sendQueue := o.sendQueue.clear SendSlot.not_isOpen_closed,
      recvQueue := o.recvQueue.clear ?recvQueue, ended := ?ended, served := ?served }
  case recvQueue =>
    intro hclosed
    cases hclosed
  case ended =>
    intro hfalse
    cases hfalse
  case served =>
    intro i j hij hj
    exact (hserved i).mpr (o.served i j hij ((hserved j).mp hj))

theorem Effect.orderly {c c' : Channel α} {call : Call α} {answer : Answer α}
    (eff : Effect c call answer c') (o : c.Orderly) : c'.Orderly := by
  cases eff with
  | refused => exact o
  | handed _ _ hopen hreceivers => exact o.handed hopen hreceivers
  | buffered _ _ _ hreceivers hroom => exact o.buffered hreceivers hroom
  | parked _ _ hopen hreceivers hfull => exact o.parked hopen hreceivers hfull
  | took _ hbuffer hsenders => exact o.took hbuffer hsenders
  | refilled _ hbuffer hsenders _ =>
    refine o.gave hsenders ?_
    rw [hbuffer, List.length_append, List.length_singleton, List.length_cons]
  | met _ _ hsenders _ => exact o.gave hsenders rfl
  | nothing => exact o
  | waiting _ _ hopen hbuffer hsenders => exact o.waiting hopen hbuffer hsenders
  | closing _ _ hopen => exact o.close hopen

theorem Orderly.run {c : Channel α} (o : c.Orderly) (calls : List (Call α)) :
    (c.run calls).Orderly := by
  induction calls generalizing c with
  | nil => exact o
  | cons call rest ih => exact ih ((o.perform_effect call).orderly o)

theorem Effect.capacity_eq {c c' : Channel α} {call : Call α} {answer : Answer α}
    (eff : Effect c call answer c') : c'.capacity = c.capacity := by
  cases eff with
  | closing _ _ hopen => rw [close_of_open hopen]
  | _ => rfl

theorem Orderly.capacity_run {c : Channel α} (o : c.Orderly) (calls : List (Call α)) :
    (c.run calls).capacity = c.capacity := by
  induction calls generalizing c with
  | nil => rfl
  | cons call rest ih =>
    have eff := o.perform_effect call
    exact (ih (eff.orderly o)).trans eff.capacity_eq

/-! ### Who is served -/

/-- **Only the oldest parked receiver is served.** -/
theorem Effect.receivers_eq_of_served {c c' : Channel α} {call : Call α} {answer : Answer α}
    (eff : Effect c call answer c') (o : c.Orderly) {j : Nat} (hbefore : ¬ c.HasServed j)
    (hafter : c'.HasServed j) : c.closed = false ∧ ∃ rest, c.receivers = j :: rest := by
  cases eff with
  | @handed v w rest _ _ hopen hreceivers =>
    have hw := o.recvQueue.lt_length (w := w) (by rw [hreceivers]; exact List.mem_cons_self)
    rcases (hasServed_set rfl hw j).mp hafter with rfl | hserved
    · exact ⟨hopen, rest, hreceivers⟩
    · exact absurd hserved hbefore
  | waiting => exact absurd ((hasServed_append rfl j).mp hafter) hbefore
  | closing => exact absurd ((o.hasServed_close j).mp hafter) hbefore
  | refused => exact absurd hafter hbefore
  | buffered => exact absurd hafter hbefore
  | parked => exact absurd hafter hbefore
  | took => exact absurd hafter hbefore
  | refilled => exact absurd hafter hbefore
  | met => exact absurd hafter hbefore
  | nothing => exact absurd hafter hbefore

theorem Orderly.open_of_receivers {c : Channel α} (o : c.Orderly) (h : c.receivers ≠ []) :
    c.closed = false :=
  Bool.eq_false_iff.mpr fun hclosed => h (o.closing hclosed).1

theorem Orderly.open_of_senders {c : Channel α} (o : c.Orderly) (h : c.senders ≠ []) :
    c.closed = false :=
  Bool.eq_false_iff.mpr fun hclosed => h (o.closing hclosed).2

/-- While a receiver is parked there is nothing to receive. -/
theorem Orderly.tryReceive_of_receivers {c : Channel α} (o : c.Orderly) (h : c.receivers ≠ []) :
    c.tryReceive = (.error .empty, c) := by
  obtain ⟨hbuffer, hsenders⟩ := o.receiving h
  have hdequeue : c.dequeue = (none, c) := by
    unfold dequeue
    rw [hbuffer]
    exact takeParked_of_nil hsenders
  unfold tryReceive
  rw [hdequeue]
  dsimp only
  rw [o.open_of_receivers h]
  rfl

/-- While a sender is parked there is neither a receiver nor room. -/
theorem Orderly.trySend_of_senders {c : Channel α} (o : c.Orderly) (h : c.senders ≠ []) (v : α) :
    c.trySend v = (.error (.full v), c) := by
  have hreceivers : c.receivers = [] := by
    by_contra hsome
    exact h (o.receiving hsome).2
  have hoffer : c.offer v = none := by
    unfold offer
    rw [hreceivers]
    exact if_neg (Nat.not_lt_of_le (Nat.le_of_eq (o.sending h).symm))
  unfold trySend
  rw [o.open_of_senders h, hoffer]
  rfl

/-- A value that is offered while receivers are parked goes to the oldest of them. -/
theorem Orderly.serves_receiver {c : Channel α} (o : c.Orderly) {w : Nat} {rest : List Nat}
    (hreceivers : c.receivers = w :: rest) {call : Call α} {v : α} (hcall : call.value? = some v) :
    (c.perform call).2.recvOutcome w = some (.got v) ∧ (c.perform call).2.receivers = rest := by
  have hne : c.receivers ≠ [] := by
    rw [hreceivers]
    exact List.cons_ne_nil _ _
  have hw := o.recvQueue.lt_length (w := w) (by rw [hreceivers]; exact List.mem_cons_self)
  have hoffer : c.offer v =
      some { c with receivers := rest, recvSlots := c.recvSlots.set w (.ready v) } := by
    unfold offer
    rw [hreceivers]
  have hnext : (c.perform call).2 =
      { c with receivers := rest, recvSlots := c.recvSlots.set w (.ready v) } := by
    cases call with
    | send v' =>
      obtain rfl := Option.some.inj hcall
      simp only [perform, send, o.open_of_receivers hne, hoffer]
      rfl
    | trySend v' =>
      obtain rfl := Option.some.inj hcall
      simp only [perform, trySend, o.open_of_receivers hne, hoffer]
      rfl
    | receive => cases hcall
    | tryReceive => cases hcall
    | close => cases hcall
  rw [hnext]
  refine ⟨?_, rfl⟩
  unfold recvOutcome
  dsimp only
  rw [List.getElem?_set_self hw]

theorem sendOutcome_set_taken {c c' : Channel α} {w : Nat} {s : SendSlot α}
    (hslots : c'.sendSlots = c.sendSlots.set w .taken) (hslot : c.sendSlots[w]? = some s) :
    c'.sendOutcome w = some .sent := by
  unfold sendOutcome
  rw [hslots, List.getElem?_set_self (List.getElem?_eq_some_iff.mp hslot).1]

/-- A call that hands a value over while senders are parked ends the oldest parked send. -/
theorem Effect.serves_sender {c c' : Channel α} {call : Call α} {answer : Answer α}
    (eff : Effect c call answer c') {w : Nat} {others : List Nat}
    (hsenders : c.senders = w :: others) {v : α} (hvalue : answer.value? = some v) :
    c'.sendOutcome w = some .sent ∧ c'.senders = others := by
  have hreply := Answer.reply?_of_value? hvalue
  cases eff with
  | refilled _ _ hsenders' hslot =>
    obtain ⟨rfl, rfl⟩ := List.cons.inj (hsenders.symm.trans hsenders')
    exact ⟨sendOutcome_set_taken rfl hslot, rfl⟩
  | met _ _ hsenders' hslot =>
    obtain ⟨rfl, rfl⟩ := List.cons.inj (hsenders.symm.trans hsenders')
    exact ⟨sendOutcome_set_taken rfl hslot, rfl⟩
  | took _ _ hsenders' => cases hsenders.symm.trans hsenders'
  | refused _ hreply' => cases hreply.symm.trans hreply'
  | handed _ hreply' => cases hreply.symm.trans hreply'
  | buffered _ hreply' => cases hreply.symm.trans hreply'
  | parked _ hreply' => cases hreply.symm.trans hreply'
  | nothing _ hvalue' => cases hvalue.symm.trans hvalue'
  | waiting _ hvalue' => cases hvalue.symm.trans hvalue'
  | closing _ hvalue' => cases hvalue.symm.trans hvalue'

/-- While a sender is parked every receive gets a value. -/
theorem Orderly.value?_of_senders {c : Channel α} (o : c.Orderly) (h : c.senders ≠ []) :
    ∃ v, (c.perform .receive).1.value? = some v ∧ (c.perform .tryReceive).1.value? = some v := by
  rcases o.dequeue_effect with ⟨-, -, hsenders⟩ | ⟨v, hsome, -⟩
  · exact absurd hsenders h
  · refine ⟨v, ?_, ?_⟩
    · simp only [perform, receive]
      rw [← Prod.eta c.dequeue, hsome]
      rfl
    · simp only [perform, tryReceive]
      rw [← Prod.eta c.dequeue, hsome]
      rfl

/-- Receivers are numbered in the order of their parking. -/
theorem Orderly.parked_receive_eq {c : Channel α} (o : c.Orderly) {w : Nat}
    (hparked : c.receive.1 = .parked w) : w = c.recvSlots.length := by
  unfold receive at hparked
  rcases o.dequeue_effect with ⟨hnone, -, -⟩ | ⟨v, hsome, -⟩
  · rw [hnone] at hparked
    dsimp only at hparked
    split_ifs at hparked
    exact (RecvResult.parked.inj hparked).symm
  · rw [← Prod.eta c.dequeue, hsome] at hparked
    cases hparked

/-- **Nobody waits at a channel for what is there.**  Whatever calls were made on a channel, by
however many parties:

* its buffer keeps to the capacity;
* a receiver is parked only while there is nothing to receive, a sender only while there is no room
  for its value, and nobody once the channel is closed;
* those in the queues are exactly those whose slots are not filled;
* the next value that is offered ends the oldest parked receive, and the next receive ends the
  oldest parked send;
* receivers are numbered in the order of their parking, and none is served before all who parked
  earlier have been. -/
theorem run_consistent (n : Nat) (calls : List (Call α)) :
    let c := (ofCapacity n : Channel α).run calls
    c.buffer.length ≤ n ∧
      (c.receivers ≠ [] → c.buffer = [] ∧ c.senders = []) ∧
      (c.senders ≠ [] → c.buffer.length = n ∧ c.closed = false) ∧
      (c.closed = true → c.receivers = [] ∧ c.senders = []) ∧
      (∀ w, w ∈ c.senders ↔ ∃ value, c.sendSlots[w]? = some (.pending value)) ∧
      (∀ w, w ∈ c.receivers ↔ c.recvSlots[w]? = some .waiting) ∧
      (c.receivers ≠ [] → c.tryReceive = (.error .empty, c)) ∧
      (c.senders ≠ [] → ∀ v, c.trySend v = (.error (.full v), c)) ∧
      (∀ w rest, c.receivers = w :: rest → ∀ call v, call.value? = some v →
        (c.perform call).2.recvOutcome w = some (.got v) ∧ (c.perform call).2.receivers = rest) ∧
      (∀ w others, c.senders = w :: others → ∀ call ∈ [.receive, .tryReceive],
        (c.perform call).2.sendOutcome w = some .sent ∧ (c.perform call).2.senders = others) ∧
      (∀ w, c.receive.1 = .parked w → w = c.recvSlots.length) ∧
      ∀ call i j, i < j → ¬ c.HasServed j → (c.perform call).2.HasServed j → c.HasServed i := by
  intro c
  have o : c.Orderly := (orderly_ofCapacity n).run calls
  have hcapacity : c.capacity = n := (orderly_ofCapacity n).capacity_run calls
  refine ⟨?_, o.receiving, ?_, o.closing, ?_, ?_, o.tryReceive_of_receivers, o.trySend_of_senders,
    ?_, ?_, fun _ hparked => o.parked_receive_eq hparked, ?_⟩
  · rw [← hcapacity]
    exact o.fits
  · intro h
    rw [← hcapacity]
    exact ⟨o.sending h, o.open_of_senders h⟩
  · intro w
    rw [o.sendQueue.mem_iff]
    constructor
    · rintro ⟨_, hslot, v, rfl⟩
      exact ⟨v, hslot⟩
    · rintro ⟨v, hslot⟩
      exact ⟨_, hslot, v, rfl⟩
  · intro w
    rw [o.recvQueue.mem_iff]
    constructor
    · rintro ⟨_, hslot, rfl⟩
      exact hslot
    · intro hslot
      exact ⟨_, hslot, rfl⟩
  · intro w rest hreceivers call v hcall
    exact o.serves_receiver hreceivers hcall
  · intro w others hsenders call hmem
    obtain ⟨v, hreceive, htry⟩ := o.value?_of_senders (by rw [hsenders]; exact List.cons_ne_nil _ _)
    rcases List.mem_cons.mp hmem with rfl | hmem
    · exact (o.perform_effect .receive).serves_sender hsenders hreceive
    · obtain rfl := List.mem_singleton.mp hmem
      exact (o.perform_effect .tryReceive).serves_sender hsenders htry
  · intro call i j hij hbefore hafter
    obtain ⟨hopen, rest, hreceivers⟩ :=
      (o.perform_effect call).receivers_eq_of_served o hbefore hafter
    exact o.hasServed_of_lt hopen hreceivers hij

end Channel

end ManagedHost
