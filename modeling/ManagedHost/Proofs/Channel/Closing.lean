import ManagedHost.Proofs.Channel.Waiting

/-!
# Channels after their close

A channel that was closed is a list of values that receivers take from the front.  Nobody is parked
at it, nothing comes into it, and how a call is answered depends on that list alone:
`Call.afterClose` says how, and `Shut.perform_eq` that nothing else changes.  What any number of
calls do after a close is read off from that (`Shut.run_eq`).

The main result is `run_close_final`.
-/

namespace ManagedHost

namespace Channel

variable {α : Type}

/-! ### Answers -/

/-- What calls made one after the other are answered. -/
def answers (c : Channel α) : List (Call α) → List (Answer α)
  | [] => []
  | call :: rest => (c.perform call).1 :: (c.perform call).2.answers rest

/-- Whether the answer tells a receiver that there is nothing left to come. -/
def Answer.isEnd : Answer α → Bool
  | received .ended => true
  | polled (.error .closed) => true
  | _ => false

/-! ### A closed channel -/

/-- The channel is closed and nobody is parked at it. -/
structure Shut (c : Channel α) : Prop where
  closed : c.closed = true
  receivers : c.receivers = []
  senders : c.senders = []

theorem Orderly.shut_close {c : Channel α} (o : c.Orderly) :
    c.close.Shut ∧ c.close.buffer = c.buffer := by
  by_cases hclosed : c.closed = true
  · obtain ⟨hreceivers, hsenders⟩ := o.closing hclosed
    have hsame : c.close = c := if_pos hclosed
    rw [hsame]
    exact ⟨⟨hclosed, hreceivers, hsenders⟩, rfl⟩
  · rw [close_of_open (Bool.eq_false_iff.mpr hclosed)]
    exact ⟨⟨rfl, rfl, rfl⟩, rfl⟩

/-- How a closed channel that still holds `values` answers a call, and what it holds then. -/
def Call.afterClose : Call α → List α → Answer α × List α
  | send _, values => (.sent .refused, values)
  | trySend v, values => (.tried (.error (.closed v)), values)
  | receive, v :: rest => (.received (.got v), rest)
  | receive, [] => (.received .ended, [])
  | tryReceive, v :: rest => (.polled (.ok v), rest)
  | tryReceive, [] => (.polled (.error .closed), [])
  | close, values => (.none, values)

/-- What is handed over comes from the front. -/
theorem Call.afterClose_flow (call : Call α) (values : List α) :
    (call.afterClose values).1.value?.toList ++ (call.afterClose values).2 = values := by
  cases call with
  | send v => rfl
  | trySend v => rfl
  | receive => cases values <;> rfl
  | tryReceive => cases values <;> rfl
  | close => rfl

/-- The end of the stream is reported only when nothing is left. -/
theorem Call.afterClose_end {call : Call α} {values : List α}
    (h : (call.afterClose values).1.isEnd = true) : values = [] := by
  cases values with
  | nil => rfl
  | cons v rest => cases call <;> cases h

namespace Shut

variable {c : Channel α}

theorem dequeue_eq (s : c.Shut) :
    c.dequeue = (c.buffer.head?, { c with buffer := c.buffer.tail }) := by
  unfold dequeue
  cases hbuffer : c.buffer with
  | nil =>
    dsimp only
    rw [takeParked_of_nil s.senders, List.head?_nil, List.tail_nil, ← hbuffer]
  | cons v rest =>
    -- nobody is parked who could fill the gap
    have htake := takeParked_of_nil (c := { c with buffer := rest }) s.senders
    dsimp only
    rw [htake]
    rfl

/-- **A call on a closed channel** takes the next value, or changes nothing. -/
theorem perform_eq (s : c.Shut) (call : Call α) :
    c.perform call =
      ((call.afterClose c.buffer).1, { c with buffer := (call.afterClose c.buffer).2 }) := by
  have hdequeue := s.dequeue_eq
  cases call with
  | send v =>
    simp only [perform, Channel.send, if_pos s.closed]
    rfl
  | trySend v =>
    simp only [perform, Channel.trySend, if_pos s.closed]
    rfl
  | receive =>
    cases hbuffer : c.buffer with
    | nil =>
      rw [hbuffer, List.head?_nil] at hdequeue
      simp only [perform, Channel.receive, hdequeue, if_pos s.closed]
      rfl
    | cons v rest =>
      rw [hbuffer, List.head?_cons] at hdequeue
      simp only [perform, Channel.receive, hdequeue]
      rfl
  | tryReceive =>
    cases hbuffer : c.buffer with
    | nil =>
      rw [hbuffer, List.head?_nil] at hdequeue
      simp only [perform, Channel.tryReceive, hdequeue, if_pos s.closed]
      rfl
    | cons v rest =>
      rw [hbuffer, List.head?_cons] at hdequeue
      simp only [perform, Channel.tryReceive, hdequeue]
      rfl
  | close =>
    simp only [perform, Channel.close, if_pos s.closed]
    rfl

theorem withBuffer (s : c.Shut) (values : List α) : Shut { c with buffer := values } :=
  ⟨s.closed, s.receivers, s.senders⟩

/-- **Calls on a closed channel** hand over what it holds, from the front, and change nothing
else. -/
theorem run_eq (s : c.Shut) (calls : List (Call α)) :
    ∃ left, c.run calls = { c with buffer := left } ∧
      (c.answers calls).filterMap Answer.value? ++ left = c.buffer := by
  induction calls generalizing c with
  | nil => exact ⟨c.buffer, rfl, rfl⟩
  | cons call rest ih =>
    have hperform := s.perform_eq call
    obtain ⟨left, hrun, hflow⟩ := ih (s.withBuffer (call.afterClose c.buffer).2)
    refine ⟨left, ?_, ?_⟩
    · show (c.perform call).2.run rest = _
      rw [hperform]
      exact hrun
    · show ((c.perform call).1 :: (c.perform call).2.answers rest).filterMap Answer.value? ++ left =
        c.buffer
      rw [hperform]
      dsimp only
      have hcall := call.afterClose_flow c.buffer
      rw [List.filterMap_cons]
      cases hvalue : (call.afterClose c.buffer).1.value? with
      | none =>
        rw [hvalue] at hcall
        exact hflow.trans hcall
      | some v =>
        rw [hvalue] at hcall
        exact (congrArg (v :: ·) hflow).trans hcall

theorem receive_of_cons (s : c.Shut) {v : α} {rest : List α} (hbuffer : c.buffer = v :: rest) :
    c.receive = (.got v, { c with buffer := rest }) ∧
      c.tryReceive = (.ok v, { c with buffer := rest }) := by
  have hdequeue := s.dequeue_eq
  rw [hbuffer, List.head?_cons] at hdequeue
  unfold receive tryReceive
  rw [hdequeue]
  exact ⟨rfl, rfl⟩

theorem receive_of_nil (s : c.Shut) (hbuffer : c.buffer = []) :
    c.receive = (.ended, c) ∧ c.tryReceive = (.error .closed, c) := by
  have hdequeue : c.dequeue = (none, c) := by
    rw [s.dequeue_eq, hbuffer, List.head?_nil, List.tail_nil, ← hbuffer]
  unfold receive tryReceive
  rw [hdequeue]
  dsimp only
  rw [if_pos s.closed, if_pos s.closed]
  exact ⟨rfl, rfl⟩

end Shut

/-! ### Those who are parked when the channel is closed -/

theorem Orderly.recvOutcome_close {c : Channel α} (o : c.Orderly) {w : Nat}
    (hw : w ∈ c.receivers) : c.close.recvOutcome w = some .ended := by
  have hne : c.receivers ≠ [] := List.ne_nil_of_mem hw
  obtain ⟨s, hslot, -⟩ := (o.recvQueue.mem_iff w).mp hw
  rw [close_of_open (o.open_of_receivers hne)]
  unfold recvOutcome
  dsimp only
  rw [getElem?_foldl_set, if_pos hw, hslot]
  rfl

theorem Orderly.sendOutcome_close {c : Channel α} (o : c.Orderly) {w : Nat}
    (hw : w ∈ c.senders) : c.close.sendOutcome w = some .refused := by
  have hne : c.senders ≠ [] := List.ne_nil_of_mem hw
  obtain ⟨s, hslot, -⟩ := (o.sendQueue.mem_iff w).mp hw
  rw [close_of_open (o.open_of_senders hne)]
  unfold sendOutcome
  dsimp only
  rw [getElem?_foldl_set, if_pos hw, hslot]
  rfl

/-- **Closing a channel is final.**  Whatever calls were made on a channel before it is closed, and
whatever calls are made afterwards, by however many parties:

* the channel stays closed, nobody is parked at it any more, and closing it again does nothing;
* every receiver that was parked has seen the end of the stream, and every parked sender was
  refused;
* every send is refused, and one that does not wait hands its value back;
* the values that were received since, followed by those still in the buffer, are the values that
  were in the buffer when the channel was closed;
* as long as one of these is left the next receive gets it, and once none is left every receive
  sees the end of the stream;
* after the first answer that tells the end of the stream no receive is answered otherwise, whatever
  happens. -/
theorem run_close_final (n : Nat) (before after : List (Call α)) :
    let c := (ofCapacity n : Channel α).run before
    let d := c.close.run after
    d.closed = true ∧ d.receivers = [] ∧ d.senders = [] ∧ d.close = d ∧
      (∀ w ∈ c.receivers,
        c.close.recvOutcome w = some .ended ∧ d.recvOutcome w = some .ended) ∧
      (∀ w ∈ c.senders,
        c.close.sendOutcome w = some .refused ∧ d.sendOutcome w = some .refused) ∧
      (∀ v, d.send v = (.refused, d) ∧ d.trySend v = (.error (.closed v), d)) ∧
      (c.close.answers after).filterMap Answer.value? ++ d.buffer = c.buffer ∧
      (∀ v rest, d.buffer = v :: rest →
        d.receive = (.got v, { d with buffer := rest }) ∧
          d.tryReceive = (.ok v, { d with buffer := rest })) ∧
      (d.buffer = [] → d.receive = (.ended, d) ∧ d.tryReceive = (.error .closed, d)) ∧
      ∀ call, (d.perform call).1.isEnd = true → ∀ more,
        let e := (d.perform call).2.run more
        e.receive = (.ended, e) ∧ e.tryReceive = (.error .closed, e) := by
  intro c d
  have o : c.Orderly := (orderly_ofCapacity n).run before
  obtain ⟨s, hbuffer⟩ := o.shut_close
  obtain ⟨left, hrun, hflow⟩ := s.run_eq after
  have hd : d = { c.close with buffer := left } := hrun
  have sd : d.Shut := by
    rw [hd]
    exact s.withBuffer left
  refine ⟨sd.closed, sd.receivers, sd.senders, if_pos sd.closed, ?_, ?_, ?_, ?_,
    fun v rest hcons => sd.receive_of_cons hcons, sd.receive_of_nil, ?_⟩
  · intro w hw
    refine ⟨o.recvOutcome_close hw, ?_⟩
    -- no later call looks at the slots
    rw [hd]
    exact o.recvOutcome_close hw
  · intro w hw
    refine ⟨o.sendOutcome_close hw, ?_⟩
    rw [hd]
    exact o.sendOutcome_close hw
  · intro v
    exact ⟨if_pos sd.closed, if_pos sd.closed⟩
  · rw [← hbuffer, ← hflow, hd]
  · intro call hend more e
    have hperform := sd.perform_eq call
    rw [hperform] at hend
    have hempty : d.buffer = [] := Call.afterClose_end hend
    have se : (d.perform call).2.Shut := by
      rw [hperform]
      exact sd.withBuffer _
    obtain ⟨left', hrun', hflow'⟩ := se.run_eq more
    have he : e = { (d.perform call).2 with buffer := left' } := hrun'
    have hnone : e.buffer = [] := by
      have hafter : (d.perform call).2.buffer = [] := by
        have hcall := call.afterClose_flow d.buffer
        rw [hempty] at hcall
        rw [hperform, hempty]
        exact (List.append_eq_nil_iff.mp hcall).2
      rw [hafter] at hflow'
      rw [he]
      exact (List.append_eq_nil_iff.mp hflow').2
    have sfinal : e.Shut := by
      rw [he]
      exact se.withBuffer left'
    exact sfinal.receive_of_nil hnone

end Channel

end ManagedHost
