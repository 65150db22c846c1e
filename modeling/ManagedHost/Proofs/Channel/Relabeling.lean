import ManagedHost.Proofs.Channel.Waiting

/-!
# Channels do not look at their values

Replacing every value `v` by `f v`, in the channel and in the calls on it, replaces the values in
the answers and changes nothing else (`perform_map`).  So the values of a run can be marked without
disturbing it, to see what becomes of each of them.
-/

namespace ManagedHost

variable {α β : Type}

/-- Replace the values. -/
def SendSlot.map (f : α → β) : SendSlot α → SendSlot β
  | pending value => pending (f value)
  | taken => taken
  | closed => closed

@[inherit_doc SendSlot.map]
def RecvSlot.map (f : α → β) : RecvSlot α → RecvSlot β
  | waiting => waiting
  | ready value => ready (f value)
  | closed => closed

@[inherit_doc SendSlot.map]
def RecvResult.map (f : α → β) : RecvResult α → RecvResult β
  | got value => got (f value)
  | ended => ended
  | parked w => parked w

@[inherit_doc SendSlot.map]
def TrySendError.map (f : α → β) : TrySendError α → TrySendError β
  | full value => full (f value)
  | closed value => closed (f value)

namespace Channel

@[inherit_doc SendSlot.map]
def Call.map (f : α → β) : Call α → Call β
  | send value => send (f value)
  | trySend value => trySend (f value)
  | receive => receive
  | tryReceive => tryReceive
  | close => close

@[inherit_doc SendSlot.map]
def Answer.map (f : α → β) : Answer α → Answer β
  | sent result => sent result
  | tried result => tried (result.mapError (TrySendError.map f))
  | received result => received (result.map f)
  | polled result => polled (result.map f)
  | none => none

@[inherit_doc SendSlot.map]
def map (f : α → β) (c : Channel α) : Channel β where
  capacity := c.capacity
  buffer := c.buffer.map f
  closed := c.closed
  senders := c.senders
  receivers := c.receivers
  sendSlots := c.sendSlots.map (SendSlot.map f)
  recvSlots := c.recvSlots.map (RecvSlot.map f)

theorem Call.value?_map (f : α → β) (call : Call α) : (call.map f).value? = call.value?.map f := by
  cases call <;> rfl

theorem Answer.reply?_map (f : α → β) (answer : Answer α) :
    (answer.map f).reply? = answer.reply? := by
  rcases answer with r | (r | r) | r | r | _ <;> rfl

theorem Answer.value?_map (f : α → β) (answer : Answer α) :
    (answer.map f).value? = answer.value?.map f := by
  rcases answer with r | r | (r | r | r) | (r | r) | _ <;> rfl

theorem map_foldl_set {σ τ : Type} (g : σ → τ) (s : σ) (queue : List Nat) (slots : List σ) :
    (queue.foldl (fun slots w => slots.set w s) slots).map g =
      queue.foldl (fun slots w => slots.set w (g s)) (slots.map g) := by
  induction queue generalizing slots with
  | nil => rfl
  | cons w rest ih => rw [List.foldl_cons, List.foldl_cons, ih, List.map_set]

variable (f : α → β) (c : Channel α)

theorem offer_map (v : α) : (c.map f).offer (f v) = (c.offer v).map (map f) := by
  have hsame : (c.map f).receivers = c.receivers := rfl
  unfold offer
  rw [hsame]
  cases hreceivers : c.receivers with
  | cons w rest => simp [map, List.map_set, RecvSlot.map]
  | nil =>
    have hlength : (c.map f).buffer.length = c.buffer.length := List.length_map _
    rw [hlength]
    by_cases hroom : c.buffer.length < c.capacity
    · rw [if_pos hroom, if_pos (show c.buffer.length < (c.map f).capacity from hroom)]
      simp [map, hreceivers]
    · rw [if_neg hroom, if_neg (show ¬ c.buffer.length < (c.map f).capacity from hroom)]
      rfl

theorem send_map (v : α) : (c.map f).send (f v) = ((c.send v).1, (c.send v).2.map f) := by
  unfold send
  rw [offer_map]
  show (if c.closed = true then _ else _) = _
  split_ifs
  · rfl
  · cases c.offer v with
    | some c' => rfl
    | none => simp [map, SendSlot.map]

theorem trySend_map (v : α) :
    (c.map f).trySend (f v) =
      ((c.trySend v).1.mapError (TrySendError.map f), (c.trySend v).2.map f) := by
  unfold trySend
  rw [offer_map]
  show (if c.closed = true then _ else _) = _
  split_ifs
  · rfl
  · cases c.offer v <;> rfl

theorem takeFrom_map (queue : List Nat) :
    (c.map f).takeFrom queue = ((c.takeFrom queue).1.map f, (c.takeFrom queue).2.map f) := by
  induction queue with
  | nil => rfl
  | cons w rest ih =>
    rw [takeFrom, takeFrom]
    have hslot : (c.map f).sendSlots[w]? = c.sendSlots[w]?.map (SendSlot.map f) :=
      List.getElem?_map
    rw [hslot]
    rcases c.sendSlots[w]? with _ | _ | _ | _
    · exact ih
    · simp [map, List.map_set, SendSlot.map]
    · exact ih
    · exact ih

theorem dequeue_map :
    (c.map f).dequeue = (c.dequeue.1.map f, c.dequeue.2.map f) := by
  unfold dequeue takeParked
  cases hbuffer : c.buffer with
  | nil =>
    have hmap : (c.map f).buffer = [] := by simp [map, hbuffer]
    rw [hmap]
    exact takeFrom_map f c c.senders
  | cons v rest =>
    have hmap : (c.map f).buffer = f v :: rest.map f := by simp [map, hbuffer]
    have hrest : ({ c.map f with buffer := rest.map f } : Channel β) =
        map f { c with buffer := rest } := rfl
    rw [hmap]
    dsimp only
    rw [hrest, takeFrom_map]
    cases htake : ({ c with buffer := rest } : Channel α).takeFrom c.senders with
    | mk refill c' =>
      have htake' : ({ c with buffer := rest } : Channel α).takeFrom (c.map f).senders =
          (refill, c') := htake
      rw [htake']
      cases refill with
      | none => rfl
      | some u => simp [map]

theorem receive_map : (c.map f).receive = (c.receive.1.map f, c.receive.2.map f) := by
  unfold receive
  rw [dequeue_map]
  rcases c.dequeue with ⟨_ | v, c'⟩
  · dsimp only [Option.map_none]
    show (if c'.closed = true then _ else _) = _
    split_ifs
    · rfl
    · simp [map, RecvSlot.map, RecvResult.map]
  · rfl

theorem tryReceive_map : (c.map f).tryReceive = (c.tryReceive.1.map f, c.tryReceive.2.map f) := by
  unfold tryReceive
  rw [dequeue_map]
  rcases c.dequeue with ⟨_ | v, c'⟩ <;> rfl

theorem close_map : (c.map f).close = c.close.map f := by
  unfold close
  show (if c.closed = true then _ else _) = _
  split_ifs
  · rfl
  · simp [map, map_foldl_set, SendSlot.map, RecvSlot.map]

/-- **Replacing the values replaces them in the answers**, and that is all. -/
theorem perform_map (call : Call α) :
    (c.map f).perform (call.map f) =
      ((c.perform call).1.map f, (c.perform call).2.map f) := by
  cases call with
  | send v =>
    show (Answer.sent ((c.map f).send (f v)).1, ((c.map f).send (f v)).2) = _
    rw [send_map]
    rfl
  | trySend v =>
    show (Answer.tried ((c.map f).trySend (f v)).1, ((c.map f).trySend (f v)).2) = _
    rw [trySend_map]
    rfl
  | receive =>
    show (Answer.received (c.map f).receive.1, (c.map f).receive.2) = _
    rw [receive_map]
    rfl
  | tryReceive =>
    show (Answer.polled (c.map f).tryReceive.1, (c.map f).tryReceive.2) = _
    rw [tryReceive_map]
    rfl
  | close =>
    show (Answer.none, (c.map f).close) = _
    rw [close_map]
    rfl

end Channel

end ManagedHost
