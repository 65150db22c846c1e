import ManagedHost.Actor
import ManagedHost.Proofs.Channel.Order
import Mathlib.Data.List.Infix

/-!
# What an actor handles

Any number of parties send to an actor, start it and stop it, while its worker takes one message
after the other; a handler call ends when it likes.  A `Session` is an actor together with the
sends, as they were answered, and the messages whose handler calls have ended.

The worker is the only one who receives from the mailbox.  So what the channel has handed over are
the messages given to the handler, and at most one more that the worker was handed while it was
parked and has not picked up yet (`inHand`).  `Fits` says how the place of the worker goes with the
state of the mailbox, and every move is then a run of calls on the mailbox (`Sound.step`), about
which all is known.

The main result is `Session.run_handles_accepted`.
-/

namespace ManagedHost

/-! ### Accepted sends -/

namespace Channel

variable {α : Type}

/-- The values of the sends that are reported as such, in the order of the calls. -/
def sentValues (c : Channel α) (offers : List (α × SendResult)) : List α :=
  (offers.filter fun offer => c.sendStands offer.2 = .sent).map Prod.fst

theorem sentValues_eq_standing (c : Channel α) (offers : List (α × SendResult)) :
    c.sentValues offers =
      ((c.standing offers).filter fun offer => offer.2 = .sent).map Prod.fst := by
  unfold sentValues standing
  induction offers with
  | nil => rfl
  | cons offer rest ih =>
    obtain ⟨v, r⟩ := offer
    rw [List.filter_cons, List.filterMap_cons]
    cases hstands : c.sendStands r with
    | sent => simpa [hstands, unlessRefused.eq_def (v, SendResult.sent)] using ih
    | refused => simpa [hstands, unlessRefused.eq_def (v, SendResult.refused)] using ih
    | parked w => simpa [hstands, unlessRefused.eq_def (v, SendResult.parked w)] using ih

/-- **The accepted sends** are those whose values were handed over, and those whose values are in
the buffer. -/
theorem Trace.Kept.sentValues_eq {t : Trace α} (k : t.Kept) :
    t.channel.sentValues t.offers = t.handed ++ t.channel.buffer := by
  have hsent : ∀ values : List α,
      ((values.map (·, SendResult.sent)).filter fun offer => offer.2 = .sent).map Prod.fst =
        values := by
    intro values
    rw [List.filter_map, List.map_map]
    simp [Function.comp_def]
  have hparked : t.channel.parkedSends.filter (fun offer => offer.2 = .sent) = [] := by
    refine List.filter_eq_nil_iff.mpr ?_
    rintro ⟨x, s⟩ hmem
    obtain ⟨w, -, -, rfl⟩ := mem_parkedSends.mp hmem
    simp
  rw [sentValues_eq_standing, k.ledger, List.filter_append, hparked, List.append_nil, hsent]

/-- **A value that enters the channel comes behind all others.** -/
theorem Effect.flow {c c' : Channel α} {call : Call α} {answer : Answer α}
    (eff : Effect c call answer c') (o : c.Orderly) :
    c.buffer <+: answer.value?.toList ++ handedOver c c' ++ c'.buffer := by
  have hquiet : c'.recvSlots = c.recvSlots → handedOver c c' = [] := o.handedOver_of_same
  cases eff with
  | refused hcall hreply =>
    rw [Answer.value?_of_reply? hreply, hquiet rfl]
    exact List.prefix_rfl
  | handed hcall hreply hopen hreceivers =>
    obtain ⟨hbuffer, -⟩ := o.receiving (by rw [hreceivers]; exact List.cons_ne_nil _ _)
    rw [hbuffer]
    exact List.nil_prefix
  | buffered hcall hreply hopen hreceivers hroom =>
    rw [Answer.value?_of_reply? hreply, hquiet rfl]
    exact List.prefix_append _ _
  | parked hcall hreply hopen hreceivers hfull =>
    rw [Answer.value?_of_reply? hreply, hquiet rfl]
    exact List.prefix_rfl
  | took hvalue hbuffer hsenders =>
    rw [hvalue, hquiet rfl, hbuffer]
    exact List.prefix_rfl
  | refilled hvalue hbuffer hsenders hslot =>
    rw [hvalue, hquiet rfl, hbuffer]
    exact List.prefix_append (_ :: _) _
  | met hvalue hbuffer hsenders hslot =>
    rw [hbuffer]
    exact List.nil_prefix
  | nothing hreply hvalue =>
    rw [hvalue, hquiet rfl]
    exact List.prefix_rfl
  | waiting hreply hvalue hopen hbuffer hsenders =>
    rw [hbuffer]
    exact List.nil_prefix
  | closing hreply hvalue hopen =>
    rw [hvalue, o.handedOver_eq_nil fun j => (o.hasServed_close j).mp, close_of_open hopen]
    exact List.prefix_rfl

/-- Sends are accepted one after the other: the list of those accepted only grows at its end. -/
theorem Trace.Kept.sentValues_run {t : Trace α} (k : t.Kept) (calls : List (Call α)) :
    t.channel.sentValues t.offers <+: (t.run calls).channel.sentValues (t.run calls).offers := by
  induction calls generalizing t with
  | nil => exact List.prefix_rfl
  | cons call rest ih =>
    refine List.IsPrefix.trans ?_ (ih (k.step call))
    have hflow := (k.orderly.perform_effect call).flow k.orderly
    rw [k.sentValues_eq, (k.step call).sentValues_eq]
    show t.handed ++ t.channel.buffer <+: t.handed ++ _ ++ (t.channel.perform call).2.buffer
    rw [List.append_assoc]
    exact (List.prefix_append_right_inj _).mpr hflow

/-- What a receive finds: a value, the end of the stream, or nothing yet. -/
theorem Orderly.receive_cases {c : Channel α} (o : c.Orderly) :
    (∃ v c', c.receive = (.got v, c') ∧ c'.receivers = c.receivers) ∨
      (c.receive = (.ended, c) ∧ c.closed = true ∧ c.buffer = []) ∨
      c.receive = (.parked c.recvSlots.length, { c with
        receivers := c.receivers ++ [c.recvSlots.length]
        recvSlots := c.recvSlots ++ [.waiting] }) := by
  rcases o.dequeue_effect with ⟨hnone, hbuffer, -⟩ | ⟨v, hsome, heffect⟩
  · unfold receive
    rw [hnone]
    dsimp only
    split_ifs with hclosed
    · exact Or.inr (Or.inl ⟨rfl, hclosed, hbuffer⟩)
    · exact Or.inr (Or.inr rfl)
  · have hreceive : c.receive = (.got v, c.dequeue.2) := by
      unfold receive
      rw [← Prod.eta c.dequeue, hsome]
    refine Or.inl ⟨v, c.dequeue.2, hreceive, ?_⟩
    have eff := heffect .receive (.received (.got v)) rfl
    generalize hnext : c.dequeue.2 = c' at eff
    cases eff with
    | took => rfl
    | refilled => rfl
    | met => rfl
    | refused _ hreply => cases hreply
    | handed _ hreply => cases hreply
    | buffered _ hreply => cases hreply
    | parked _ hreply => cases hreply
    | nothing _ hvalue => cases hvalue
    | waiting _ hvalue => cases hvalue
    | closing _ hvalue => cases hvalue

end Channel

namespace Actor

variable {μ ν : Type}

/-! ### Sessions -/

/-- Something that happens to an actor. -/
inductive Move (μ : Type) where
  | start
  /-- Somebody sends a message, and parks while the mailbox is full. -/
  | send (message : μ)
  | trySend (message : μ)
  | stop
  /-- The worker takes a step; `held` tells whether the handler, if it is running, goes on. -/
  | advance (held : Bool)
  /-- The handler call ends that was held. -/
  | release

/-- The message that the handler is running on. -/
def handling? (a : Actor μ) : Option μ :=
  match a.worker with
  | .handling message => some message
  | _ => none

/-- An actor and what is known of its messages. -/
structure Session (μ : Type) where
  actor : Actor μ
  /-- The sends, oldest first, with how they were answered at once. -/
  offers : List (μ × SendResult) := []
  /-- The messages whose handler calls have ended, by returning or by a panic, oldest first. -/
  ended : List μ := []

namespace Session

/-- An actor that has not been started. -/
def begin (id : String) (capacity : Nat) : Session μ := { actor := .ofMailbox id capacity }

/-- Somebody makes a call on the mailbox. -/
def deliver (s : Session μ) (call : Channel.Call μ) : Session μ :=
  { s with
    actor := { s.actor with mailbox := (s.actor.mailbox.perform call).2 }
    offers := s.offers ++ (Channel.offered call (s.actor.mailbox.perform call).1).toList }

/-- The worker has gone on.  Where it is in the handler no longer, a handler call has ended. -/
def become (s : Session μ) (a : Actor μ) : Session μ :=
  { s with
    actor := a
    ended := s.ended ++ (if a.isHeld then none else s.actor.handling?).toList }

/-- The session after one more move.  Each call of start and of stop is one move, so calls of these
do not overlap. -/
def step (s : Session μ) : Move μ → Session μ
  | .start => { s with actor := s.actor.start }
  | .send message => s.deliver (.send message)
  | .trySend message => s.deliver (.trySend message)
  | .stop => { s with actor := s.actor.stop }
  | .advance held => s.become ((s.actor.advance? fun _ => held).getD s.actor)
  | .release => s.become s.actor.release.2

/-- Moves one after the other. -/
def run (s : Session μ) (moves : List (Move μ)) : Session μ := moves.foldl step s

theorem run_append (s : Session μ) (moves more : List (Move μ)) :
    s.run (moves ++ more) = (s.run moves).run more := List.foldl_append

/-- The messages of the sends that were accepted, in the order of the calls. -/
def accepted (s : Session μ) : List μ := s.actor.mailbox.sentValues s.offers

end Session

/-! ### The worker and its mailbox -/

/-- The message that the worker was handed while it was parked, and has not picked up yet. -/
def inHand (a : Actor μ) : List μ :=
  match a.worker with
  | .parked w => (a.mailbox.received? w).toList
  | _ => []

/-- **The worker is the only receiver**, and it is parked, or has exited, only for a reason. -/
def Fits (a : Actor μ) : Prop :=
  match a.worker with
  | .parked w =>
    (a.mailbox.receivers = [w] ∧ a.mailbox.recvSlots[w]? = some .waiting) ∨
      (a.mailbox.receivers = [] ∧ ∃ m, a.mailbox.recvSlots[w]? = some (.ready m)) ∨
      (a.mailbox.receivers = [] ∧ a.mailbox.recvSlots[w]? = some .closed ∧
        a.mailbox.closed = true ∧ a.mailbox.buffer = [])
  | .exited =>
    a.mailbox.receivers = [] ∧ a.mailbox.closed = true ∧ a.mailbox.buffer = []
  | _ => a.mailbox.receivers = []

namespace Session

/-- The mailbox with what it has handed to the worker. -/
def trace (s : Session μ) : Channel.Trace μ where
  channel := s.actor.mailbox
  handed := s.actor.seen ++ s.actor.inHand
  offers := s.offers

/-- **What every move keeps true of a session.** -/
structure Sound (s : Session μ) : Prop where
  kept : s.trace.Kept
  fits : s.actor.Fits
  seen : s.actor.seen = s.ended ++ s.actor.handling?.toList
  processed : s.actor.processed = s.ended.length

theorem sound_begin (id : String) (capacity : Nat) : (begin id capacity : Session μ).Sound :=
  ⟨Channel.Trace.kept_start capacity, rfl, rfl, rfl⟩

/-- The mailbox of the second session is that of the first after some calls. -/
def Follows (s s' : Session μ) : Prop := ∃ calls, s'.trace = s.trace.run calls

theorem Follows.of_trace_eq {s s' : Session μ} (h : s'.trace = s.trace) : s.Follows s' := ⟨[], h⟩

theorem Follows.trans {s s' s'' : Session μ} (h : s.Follows s') (h' : s'.Follows s'') :
    s.Follows s'' := by
  obtain ⟨calls, heq⟩ := h
  obtain ⟨more, heq'⟩ := h'
  exact ⟨calls ++ more, by rw [heq', heq, Channel.Trace.run_append]⟩

/-- What has been shown of a session that follows another is enough for it to be sound. -/
theorem Follows.sound {s s' : Session μ} (h : s.Follows s') (k : s.trace.Kept)
    (fits : s'.actor.Fits) (seen : s'.actor.seen = s'.ended ++ s'.actor.handling?.toList)
    (processed : s'.actor.processed = s'.ended.length) : s'.Sound := by
  obtain ⟨calls, heq⟩ := h
  exact ⟨heq ▸ k.run calls, fits, seen, processed⟩

end Session

/-! ### Calls on the mailbox -/

/-- Whoever is parked to receive is the worker. -/
theorem Fits.parked_of_receivers {a : Actor μ} (fits : a.Fits) {w : Nat} {rest : List Nat}
    (hreceivers : a.mailbox.receivers = w :: rest) :
    a.worker = .parked w ∧ rest = [] ∧ a.mailbox.recvSlots[w]? = some .waiting := by
  unfold Fits at fits
  split at fits
  · next v hworker =>
    rcases fits with ⟨hv, hslot⟩ | ⟨hv, -⟩ | ⟨hv, -⟩
    · obtain ⟨rfl, rfl⟩ := List.cons.inj (hreceivers.symm.trans hv)
      exact ⟨hworker, rfl, hslot⟩
    · exact absurd (hreceivers.symm.trans hv) (List.cons_ne_nil _ _)
    · exact absurd (hreceivers.symm.trans hv) (List.cons_ne_nil _ _)
  · exact absurd (hreceivers.symm.trans fits.1) (List.cons_ne_nil _ _)
  · exact absurd (hreceivers.symm.trans fits) (List.cons_ne_nil _ _)

/-- A mailbox whose receivers and slots are as before goes with the worker as before, as long as it
is open or nothing has come into it. -/
theorem Fits.of_same {a : Actor μ} (fits : a.Fits) {c : Channel μ}
    (hreceivers : c.receivers = a.mailbox.receivers) (hslots : c.recvSlots = a.mailbox.recvSlots)
    (hclosed : a.mailbox.closed = true → c.closed = true ∧ c.buffer = a.mailbox.buffer) :
    Fits { a with mailbox := c } := by
  unfold Fits at fits ⊢
  dsimp only
  rw [hreceivers, hslots]
  split at fits
  · refine fits.imp_right (Or.imp_right ?_)
    rintro ⟨hnone, hslot, hend, hbuffer⟩
    obtain ⟨hend', hbuffer'⟩ := hclosed hend
    exact ⟨hnone, hslot, hend', hbuffer'.trans hbuffer⟩
  · obtain ⟨hnone, hend, hbuffer⟩ := fits
    obtain ⟨hend', hbuffer'⟩ := hclosed hend
    exact ⟨hnone, hend', hbuffer'.trans hbuffer⟩
  · exact fits

theorem inHand_of_same {a : Actor μ} {c : Channel μ} (hslots : c.recvSlots = a.mailbox.recvSlots) :
    inHand { a with mailbox := c } = a.inHand := by
  unfold inHand Channel.received?
  dsimp only
  rw [hslots]

/-- **A message that is offered** goes to the worker if it is parked. -/
theorem Fits.offer {a : Actor μ} (fits : a.Fits) (o : a.mailbox.Orderly) {call : Channel.Call μ}
    {answer : Channel.Answer μ} {c : Channel μ} (eff : Channel.Effect a.mailbox call answer c)
    {r : SendResult} (hreply : answer.reply? = some r) :
    Fits { a with mailbox := c } ∧
      inHand { a with mailbox := c } = a.inHand ++ Channel.handedOver a.mailbox c := by
  have hopen' : a.mailbox.closed = false → ¬ a.mailbox.closed = true := Bool.eq_false_iff.mp
  -- where the worker is not served, nothing is handed over
  have hquiet : c.recvSlots = a.mailbox.recvSlots →
      inHand { a with mailbox := c } = a.inHand ++ Channel.handedOver a.mailbox c := by
    intro hslots
    rw [o.handedOver_of_same hslots, List.append_nil, inHand_of_same hslots]
  cases eff with
  | refused => exact ⟨fits, hquiet rfl⟩
  | @handed v w rest _ _ _ hreceivers =>
    obtain ⟨hworker, rfl, hslot⟩ := fits.parked_of_receivers hreceivers
    have hset : (a.mailbox.recvSlots.set w (.ready v))[w]? = some (.ready v) :=
      List.getElem?_set_self (List.getElem?_eq_some_iff.mp hslot).1
    rw [o.handedOver_set hreceivers rfl]
    unfold Fits inHand Channel.received?
    simp [hworker, hslot, hset]
  | buffered _ _ hopen => exact ⟨fits.of_same rfl rfl fun h => absurd h (hopen' hopen), hquiet rfl⟩
  | parked _ _ hopen => exact ⟨fits.of_same rfl rfl fun h => absurd h (hopen' hopen), hquiet rfl⟩
  | took hvalue => exact absurd (hreply.symm.trans (Channel.Answer.reply?_of_value? hvalue)) nofun
  | refilled hvalue =>
    exact absurd (hreply.symm.trans (Channel.Answer.reply?_of_value? hvalue)) nofun
  | met hvalue => exact absurd (hreply.symm.trans (Channel.Answer.reply?_of_value? hvalue)) nofun
  | nothing hnone => exact absurd (hreply.symm.trans hnone) nofun
  | waiting hnone => exact absurd (hreply.symm.trans hnone) nofun
  | closing hnone => exact absurd (hreply.symm.trans hnone) nofun

/-- **A close wakes the worker** if it is parked. -/
theorem Fits.close {a : Actor μ} (fits : a.Fits) (o : a.mailbox.Orderly) :
    Fits { a with mailbox := a.mailbox.close } ∧
      inHand { a with mailbox := a.mailbox.close } = a.inHand := by
  by_cases hclosed : a.mailbox.closed = true
  · have hsame : a.mailbox.close = a.mailbox := if_pos hclosed
    rw [hsame]
    exact ⟨fits, rfl⟩
  rw [Channel.close_of_open (Bool.eq_false_iff.mpr hclosed)]
  cases hreceivers : a.mailbox.receivers with
  | nil => exact ⟨fits.of_same hreceivers.symm rfl fun h => absurd h hclosed, inHand_of_same rfl⟩
  | cons w rest =>
    obtain ⟨hworker, rfl, hslot⟩ := fits.parked_of_receivers hreceivers
    obtain ⟨hbuffer, -⟩ := o.receiving (by rw [hreceivers]; exact List.cons_ne_nil _ _)
    have hset : (a.mailbox.recvSlots.set w .closed)[w]? = some .closed :=
      List.getElem?_set_self (List.getElem?_eq_some_iff.mp hslot).1
    unfold Fits inHand Channel.received?
    simp [hworker, hslot, hset, hbuffer]

namespace Session

variable {s : Session μ}

theorem Sound.deliver (h : s.Sound) {call : Channel.Call μ} {v : μ} (hcall : call.value? = some v) :
    (s.deliver call).Sound ∧ s.Follows (s.deliver call) := by
  have o : s.actor.mailbox.Orderly := h.kept.orderly
  have eff := o.perform_effect call
  -- a call that offers a message is answered how it went, and brings no message
  obtain ⟨r, hreply⟩ : ∃ r, (s.actor.mailbox.perform call).1.reply? = some r := by
    have hoffered := Channel.offered_perform s.actor.mailbox call
    rw [hcall] at hoffered
    unfold Channel.offered at hoffered
    rw [hcall] at hoffered
    cases hreply : (s.actor.mailbox.perform call).1.reply? with
    | none => rw [hreply] at hoffered; exact absurd hoffered nofun
    | some r => exact ⟨r, rfl⟩
  obtain ⟨fits, hand⟩ := h.fits.offer o eff hreply
  have hfollows : s.Follows (s.deliver call) := by
    refine ⟨[call], ?_⟩
    show (s.deliver call).trace = s.trace.step call
    unfold trace Channel.Trace.step Session.deliver
    dsimp only
    rw [Channel.Answer.value?_of_reply? hreply, hand, ← List.append_assoc]
    rfl
  exact ⟨hfollows.sound h.kept fits h.seen h.processed, hfollows⟩

theorem Sound.stop (h : s.Sound) :
    (s.step .stop).Sound ∧ s.Follows (s.step .stop) := by
  have hstep : s.step .stop = { s with actor := s.actor.stop } := rfl
  rw [hstep]
  unfold Actor.stop
  split_ifs
  · obtain ⟨fits, hand⟩ := h.fits.close h.kept.orderly
    have hfollows : s.Follows { s with
        actor := { s.actor with running := false, mailbox := s.actor.mailbox.close } } := by
      refine ⟨[.close], ?_⟩
      have hover : Channel.handedOver s.actor.mailbox s.actor.mailbox.close = [] :=
        h.kept.orderly.handedOver_eq_nil fun j => (h.kept.orderly.hasServed_close j).mp
      show trace _ = s.trace.step .close
      unfold trace Channel.Trace.step
      have hhand : inHand { s.actor with running := false, mailbox := s.actor.mailbox.close } =
          s.actor.inHand := hand
      have hclose : s.actor.mailbox.perform .close = (.none, s.actor.mailbox.close) := rfl
      dsimp only
      rw [hhand, hclose, hover, Channel.offered_of_none _ rfl]
      simp [Channel.Answer.value?]
    exact ⟨hfollows.sound h.kept fits h.seen h.processed, hfollows⟩
  · exact ⟨h, .of_trace_eq rfl⟩

theorem Sound.start (h : s.Sound) :
    (s.step .start).Sound ∧ s.Follows (s.step .start) := by
  have hstep : s.step .start = { s with actor := s.actor.start } := rfl
  rw [hstep]
  unfold Actor.start
  split
  · next hworker =>
    have hfits := h.fits
    have hseen := h.seen
    unfold Fits at hfits
    rw [hworker] at hfits
    unfold handling? at hseen
    rw [hworker] at hseen
    have hfollows : s.Follows
        { s with actor := { s.actor with running := true, worker := .ready } } := by
      refine .of_trace_eq ?_
      unfold trace inHand
      rw [hworker]
    exact ⟨hfollows.sound h.kept hfits hseen h.processed, hfollows⟩
  · exact ⟨h, .of_trace_eq rfl⟩

/-! ### Steps of the worker -/

theorem become_self (s : Session μ) : s.become s.actor = s := by
  unfold become isHeld handling?
  cases s.actor.worker <;> simp

theorem become_of_idle {a : Actor μ} (hidle : s.actor.handling? = none) :
    s.become a = { s with actor := a } := by
  unfold become
  rw [hidle, ite_self, Option.toList_none, List.append_nil]

/-- **A handler call ends**, and is counted. -/
theorem Sound.finish (h : s.Sound) :
    (s.become s.actor.finishHandling).Sound ∧ s.Follows (s.become s.actor.finishHandling) := by
  unfold finishHandling
  split
  · next m hworker =>
    have hfits := h.fits
    have hseen := h.seen
    unfold Fits at hfits
    unfold handling? at hseen
    rw [hworker] at hfits hseen
    set a : Actor μ := { s.actor with worker := .ready, processed := s.actor.processed + 1 }
    have hended : (s.become a).ended = s.ended ++ [m] := by
      unfold become handling?
      rw [hworker]
      rfl
    have hfollows : s.Follows (s.become a) := by
      refine .of_trace_eq ?_
      unfold trace inHand become
      rw [hworker]
    refine ⟨hfollows.sound h.kept hfits ?_ ?_, hfollows⟩
    · rw [hended]
      exact hseen.trans (List.append_nil _).symm
    · rw [hended, List.length_append, ← h.processed]
      rfl
  · rw [become_self]
    exact ⟨h, .of_trace_eq rfl⟩

/-- **The worker looks into the mailbox**: it takes a message, sees the end, or parks. -/
theorem Sound.receive (h : s.Sound) (hworker : s.actor.worker = .ready) (held : Bool) :
    (s.step (.advance held)).Sound ∧ s.Follows (s.step (.advance held)) := by
  have hfits : s.actor.mailbox.receivers = [] := by
    have hfits := h.fits
    unfold Fits at hfits
    rwa [hworker] at hfits
  have hhand : s.actor.inHand = [] := by
    unfold inHand
    rw [hworker]
  have hidle : s.actor.handling? = none := by
    unfold handling?
    rw [hworker]
  have hseen : s.actor.seen = s.ended := by
    rw [h.seen, hidle]
    exact List.append_nil _
  -- the worker is the only receiver, and it is not parked, so nothing is handed over beside it
  have htrace : ∀ {answer : RecvResult μ} {c : Channel μ},
      s.actor.mailbox.receive = (answer, c) →
      s.trace.step .receive =
        ⟨c, s.actor.seen ++ (Channel.Answer.received answer).value?.toList, s.offers⟩ := by
    intro answer c hanswer
    have hover : Channel.handedOver s.actor.mailbox c = [] := by
      unfold Channel.handedOver
      rw [hfits]
      rfl
    have hperform : s.actor.mailbox.perform .receive = (.received answer, c) := by
      unfold Channel.perform
      rw [hanswer]
    unfold Channel.Trace.step trace
    dsimp only
    rw [hperform, hover, hhand, Channel.offered_of_none _ rfl, List.append_nil]
    simp
  -- so it is enough to say where the worker goes and what it has seen then
  have hnext : ∀ {answer : RecvResult μ} {c : Channel μ} {a : Actor μ},
      s.actor.mailbox.receive = (answer, c) → s.actor.advance? (fun _ => held) = some a →
      a.mailbox = c → a.processed = s.actor.processed →
      a.seen ++ a.inHand = s.actor.seen ++ (Channel.Answer.received answer).value?.toList →
      a.seen = s.ended ++ a.handling?.toList → a.Fits →
      (s.step (.advance held)).Sound ∧ s.Follows (s.step (.advance held)) := by
    rintro answer c a hanswer hadvance rfl hprocessed hflow hseen' fits
    have hstep : s.step (.advance held) = { s with actor := a } := by
      have hbecome : s.step (.advance held) =
          s.become ((s.actor.advance? fun _ => held).getD s.actor) := rfl
      rw [hbecome, hadvance]
      exact become_of_idle hidle
    rw [hstep]
    have hfollows : s.Follows { s with actor := a } := by
      refine ⟨[.receive], ?_⟩
      show trace _ = s.trace.step .receive
      rw [htrace hanswer, ← hflow]
      rfl
    exact ⟨hfollows.sound h.kept fits hseen' (hprocessed.trans h.processed), hfollows⟩
  have o : s.actor.mailbox.Orderly := h.kept.orderly
  rcases o.receive_cases with ⟨v, c, hgot, hreceivers⟩ | ⟨hended, hclosed, hbuffer⟩ | hparked
  · refine hnext (a := { s.actor with
      mailbox := c, worker := .handling v, seen := s.actor.seen ++ [v] }) hgot ?_ rfl rfl ?_ ?_
      (hreceivers.trans hfits)
    · unfold advance?
      rw [hworker]
      dsimp only
      rw [hgot]
      rfl
    · exact List.append_nil _
    · exact congrArg (· ++ [v]) hseen
  · refine hnext (a := { s.actor with worker := .exited }) hended ?_ rfl rfl rfl ?_
      ⟨hfits, hclosed, hbuffer⟩
    · unfold advance?
      rw [hworker]
      dsimp only
      rw [hended]
    · exact hseen.trans (List.append_nil _).symm
  · set w := s.actor.mailbox.recvSlots.length with hw
    have hslot : (s.actor.mailbox.recvSlots ++ [RecvSlot.waiting])[w]? = some RecvSlot.waiting :=
      List.getElem?_concat_length ..
    refine hnext (a := { s.actor with
      worker := .parked w
      mailbox := { s.actor.mailbox with
        receivers := s.actor.mailbox.receivers ++ [w]
        recvSlots := s.actor.mailbox.recvSlots ++ [.waiting] } }) hparked ?_ rfl rfl ?_ ?_
      (Or.inl ⟨?_, hslot⟩)
    · unfold advance?
      rw [hworker]
      dsimp only
      rw [hparked]
    · unfold inHand Channel.received?
      dsimp only
      rw [hslot]
      rfl
    · exact hseen.trans (List.append_nil _).symm
    · exact congrArg (· ++ [w]) hfits

/-- **A parked worker wakes up** when it was handed a message or the mailbox was closed. -/
theorem Sound.wake (h : s.Sound) {w : Nat} (hworker : s.actor.worker = .parked w) (held : Bool) :
    (s.step (.advance held)).Sound ∧ s.Follows (s.step (.advance held)) := by
  have hfits := h.fits
  unfold Fits at hfits
  rw [hworker] at hfits
  have hidle : s.actor.handling? = none := by
    unfold handling?
    rw [hworker]
  have hseen : s.actor.seen = s.ended := by
    rw [h.seen, hidle]
    exact List.append_nil _
  have hbecome : s.step (.advance held) =
      { s with actor := (s.actor.advance? fun _ => held).getD s.actor } := become_of_idle hidle
  rw [hbecome]
  unfold advance? Channel.recvOutcome
  rw [hworker]
  dsimp only
  rcases hfits with ⟨-, hslot⟩ | ⟨hreceivers, m, hslot⟩ | ⟨hreceivers, hslot, hclosed, hbuffer⟩
  · rw [hslot]
    exact ⟨h, .of_trace_eq rfl⟩
  · rw [hslot]
    have hfollows : s.Follows { s with actor := s.actor.handle m } := by
      refine .of_trace_eq ?_
      unfold trace inHand handle Channel.received?
      rw [hworker]
      dsimp only
      rw [hslot]
      simp
    exact ⟨hfollows.sound h.kept hreceivers (congrArg (· ++ [m]) hseen) h.processed, hfollows⟩
  · rw [hslot]
    have hfollows : s.Follows { s with actor := { s.actor with worker := .exited } } := by
      refine .of_trace_eq ?_
      unfold trace inHand Channel.received?
      rw [hworker]
      dsimp only
      rw [hslot]
      rfl
    refine ⟨hfollows.sound h.kept ⟨hreceivers, hclosed, hbuffer⟩ ?_ h.processed, hfollows⟩
    exact hseen.trans (List.append_nil _).symm

/-- **Every move keeps a session sound**, and to the mailbox it is some calls. -/
theorem Sound.step (h : s.Sound) (move : Move μ) :
    (s.step move).Sound ∧ s.Follows (s.step move) := by
  cases move with
  | start => exact h.start
  | send m => exact h.deliver rfl
  | trySend m => exact h.deliver rfl
  | stop => exact h.stop
  | release => exact h.finish
  | advance held =>
    have hstay : s.actor.advance? (fun _ => held) = none →
        (s.step (.advance held)).Sound ∧ s.Follows (s.step (.advance held)) := by
      intro hnone
      have hstep : s.step (.advance held) = s := by
        have hbecome : s.step (.advance held) =
            s.become ((s.actor.advance? fun _ => held).getD s.actor) := rfl
        rw [hbecome, hnone]
        exact s.become_self
      rw [hstep]
      exact ⟨h, .of_trace_eq rfl⟩
    cases hworker : s.actor.worker with
    | ready => exact h.receive hworker held
    | parked w => exact h.wake hworker held
    | unborn =>
      refine hstay ?_
      unfold advance?
      rw [hworker]
    | exited =>
      refine hstay ?_
      unfold advance?
      rw [hworker]
    | handling m =>
      cases held with
      | true =>
        refine hstay ?_
        unfold advance?
        rw [hworker]
        rfl
      | false =>
        have hadvance : s.actor.advance? (fun _ => false) = some s.actor.finishHandling := by
          unfold advance?
          rw [hworker]
          rfl
        have hstep : s.step (.advance false) = s.become s.actor.finishHandling := by
          have hbecome : s.step (.advance false) =
              s.become ((s.actor.advance? fun _ => false).getD s.actor) := rfl
          rw [hbecome, hadvance]
          rfl
        rw [hstep]
        exact h.finish

theorem Sound.run (h : s.Sound) (moves : List (Move μ)) :
    (s.run moves).Sound ∧ s.Follows (s.run moves) := by
  induction moves generalizing s with
  | nil => exact ⟨h, .of_trace_eq rfl⟩
  | cons move rest ih =>
    obtain ⟨h₁, hfollows⟩ := h.step move
    obtain ⟨h₂, hrest⟩ := ih h₁
    exact ⟨h₂, hfollows.trans hrest⟩

/-! ### Consequences -/

theorem Sound.accepted_eq (h : s.Sound) :
    s.accepted = s.actor.seen ++ s.actor.inHand ++ s.actor.mailbox.buffer :=
  h.kept.sentValues_eq

/-- Sends are accepted one after the other. -/
theorem Sound.accepted_run (h : s.Sound) (moves : List (Move μ)) :
    s.accepted <+: (s.run moves).accepted := by
  obtain ⟨-, calls, htrace⟩ := h.run moves
  have hprefix := h.kept.sentValues_run calls
  rw [← htrace] at hprefix
  exact hprefix

/-- **A worker that can do nothing has nothing to do.** -/
theorem Sound.idle (h : s.Sound) {holds : μ → Bool} (hstarted : s.actor.started = true)
    (hheld : s.actor.isHeld = false) (hrest : s.actor.advance? holds = none) :
    s.actor.inHand = [] ∧ s.actor.mailbox.buffer = [] ∧ s.actor.mailbox.senders = [] := by
  have o : s.actor.mailbox.Orderly := h.kept.orderly
  have hfits := h.fits
  unfold Fits at hfits
  unfold started at hstarted
  unfold isHeld at hheld
  unfold advance? at hrest
  unfold inHand
  cases hworker : s.actor.worker with
  | unborn => rw [hworker] at hstarted; exact absurd hstarted nofun
  | handling m => rw [hworker] at hheld; exact absurd hheld nofun
  | ready =>
    -- whatever the mailbox answers, the worker goes on
    rw [hworker] at hrest
    dsimp only at hrest
    split at hrest <;> exact absurd hrest nofun
  | parked w =>
    rw [hworker] at hfits hrest
    unfold Channel.recvOutcome at hrest
    unfold Channel.received?
    dsimp only at hrest
    rcases hfits with ⟨hreceivers, hslot⟩ | ⟨-, m, hslot⟩ | ⟨-, hslot, -⟩
    · obtain ⟨hbuffer, hsenders⟩ := o.receiving (by rw [hreceivers]; exact List.cons_ne_nil _ _)
      dsimp only
      rw [hslot]
      exact ⟨rfl, hbuffer, hsenders⟩
    · rw [hslot] at hrest
      exact absurd hrest nofun
    · rw [hslot] at hrest
      exact absurd hrest nofun
  | exited =>
    rw [hworker] at hfits
    obtain ⟨-, hclosed, hbuffer⟩ := hfits
    exact ⟨rfl, hbuffer, (o.closing hclosed).2⟩

end Session

/-! ### Marked messages -/

end Actor

/-- Replace the messages. -/
def ActorWorker.map {μ ν : Type} (f : μ → ν) : ActorWorker μ → ActorWorker ν
  | unborn => unborn
  | ready => ready
  | parked w => parked w
  | handling message => handling (f message)
  | exited => exited

namespace Actor

@[inherit_doc ActorWorker.map]
def map (f : μ → ν) (a : Actor μ) : Actor ν where
  id := a.id
  mailbox := a.mailbox.map f
  running := a.running
  processed := a.processed
  worker := a.worker.map f
  seen := a.seen.map f

@[inherit_doc ActorWorker.map]
def Move.map (f : μ → ν) : Move μ → Move ν
  | start => start
  | send message => send (f message)
  | trySend message => trySend (f message)
  | stop => stop
  | advance held => advance held
  | release => release

/-- The message that the move offers, if it does. -/
def Move.message? : Move μ → Option μ
  | send message => some message
  | trySend message => some message
  | _ => none

section Relabeling

variable (f : μ → ν) (a : Actor μ)

theorem start_map : (a.map f).start = a.start.map f := by
  obtain ⟨id, mailbox, running, processed, worker, seen⟩ := a
  cases worker <;> rfl

theorem stop_map : (a.map f).stop = a.stop.map f := by
  have hrunning : (a.map f).running = a.running := rfl
  unfold stop
  rw [hrunning]
  split_ifs
  · have hclose : (a.map f).mailbox.close = a.mailbox.close.map f := Channel.close_map f a.mailbox
    rw [hclose]
    rfl
  · rfl

theorem handle_map (m : μ) : (a.map f).handle (f m) = (a.handle m).map f := by
  simp [handle, map, ActorWorker.map]

theorem finishHandling_map : (a.map f).finishHandling = a.finishHandling.map f := by
  obtain ⟨id, mailbox, running, processed, worker, seen⟩ := a
  cases worker <;> rfl

theorem isHeld_map : (a.map f).isHeld = a.isHeld := by
  obtain ⟨id, mailbox, running, processed, worker, seen⟩ := a
  cases worker <;> rfl

theorem handling?_map : (a.map f).handling? = a.handling?.map f := by
  obtain ⟨id, mailbox, running, processed, worker, seen⟩ := a
  cases worker <;> rfl

theorem recvOutcome_map (c : Channel μ) (w : Nat) :
    (c.map f).recvOutcome w = (c.recvOutcome w).map (RecvResult.map f) := by
  have hslot : (c.map f).recvSlots[w]? = c.recvSlots[w]?.map (RecvSlot.map f) := List.getElem?_map
  unfold Channel.recvOutcome
  rw [hslot]
  rcases c.recvSlots[w]? with _ | _ | _ | _ <;> rfl

/-- The worker does not look at the messages. -/
theorem advance?_map (held : Bool) :
    (a.map f).advance? (fun _ => held) = (a.advance? fun _ => held).map (map f) := by
  have hworker : (a.map f).worker = a.worker.map f := rfl
  have hmailbox : (a.map f).mailbox = a.mailbox.map f := rfl
  unfold advance?
  rw [hworker, hmailbox]
  cases hcase : a.worker with
  | unborn => rfl
  | exited => rfl
  | ready =>
    dsimp only [ActorWorker.map]
    rw [Channel.receive_map]
    rcases a.mailbox.receive with ⟨m | _ | w, c⟩
    · exact congrArg some (handle_map f { a with mailbox := c } m)
    · rfl
    · rfl
  | parked w =>
    dsimp only [ActorWorker.map]
    rw [recvOutcome_map]
    rcases a.mailbox.recvOutcome w with _ | m | _ | v
    · rfl
    · exact congrArg some (handle_map f a m)
    · rfl
    · rfl
  | handling m =>
    dsimp only [ActorWorker.map]
    cases held with
    | true => rfl
    | false => exact congrArg some (finishHandling_map f a)

end Relabeling

namespace Session

@[inherit_doc ActorWorker.map]
def map (f : μ → ν) (s : Session μ) : Session ν where
  actor := s.actor.map f
  offers := s.offers.map fun (message, answer) => (f message, answer)
  ended := s.ended.map f

theorem deliver_map (f : μ → ν) (s : Session μ) (call : Channel.Call μ) :
    (s.map f).deliver (call.map f) = (s.deliver call).map f := by
  have hperform : (s.map f).actor.mailbox.perform (call.map f) =
      ((s.actor.mailbox.perform call).1.map f, (s.actor.mailbox.perform call).2.map f) :=
    Channel.perform_map f s.actor.mailbox call
  unfold deliver
  rw [hperform]
  dsimp only
  rw [Channel.offered_map]
  simp [map, Actor.map, Option.toList_map, Prod.map]

theorem become_map (f : μ → ν) (s : Session μ) (a : Actor μ) :
    (s.map f).become (a.map f) = (s.become a).map f := by
  have hhandling : (s.map f).actor.handling? = s.actor.handling?.map f := handling?_map f s.actor
  unfold become
  rw [isHeld_map, hhandling]
  cases a.isHeld <;> simp [map, Option.toList_map]

theorem step_map (f : μ → ν) (s : Session μ) (move : Move μ) :
    (s.map f).step (move.map f) = (s.step move).map f := by
  cases move with
  | start => exact congrArg (fun a => { s.map f with actor := a }) (start_map f s.actor)
  | send m => exact deliver_map f s (.send m)
  | trySend m => exact deliver_map f s (.trySend m)
  | stop => exact congrArg (fun a => { s.map f with actor := a }) (stop_map f s.actor)
  | advance held =>
    have hadvance : (s.map f).actor.advance? (fun _ => held) =
        (s.actor.advance? fun _ => held).map (Actor.map f) := advance?_map f s.actor held
    show (s.map f).become (((s.map f).actor.advance? fun _ => held).getD (s.map f).actor) = _
    rw [hadvance]
    have hnext : ((s.actor.advance? fun _ => held).map (Actor.map f)).getD (s.map f).actor =
        ((s.actor.advance? fun _ => held).getD s.actor).map f := by
      cases s.actor.advance? fun _ => held <;> rfl
    rw [hnext]
    exact become_map f s _
  | release =>
    show (s.map f).become (s.map f).actor.finishHandling = _
    have hfinish : (s.map f).actor.finishHandling = s.actor.finishHandling.map f :=
      finishHandling_map f s.actor
    rw [hfinish]
    exact become_map f s _

theorem run_map (f : μ → ν) (s : Session μ) (moves : List (Move μ)) :
    (s.map f).run (moves.map (Move.map f)) = (s.run moves).map f := by
  induction moves generalizing s with
  | nil => rfl
  | cons move rest ih =>
    show ((s.map f).step (move.map f)).run (rest.map (Move.map f)) = _
    rw [step_map, ih]
    rfl

/-- Mark the message of each move with the number of the move. -/
def number (moves : List (Move μ)) : List (Move (Nat × μ)) :=
  moves.zipIdx.map fun (move, i) => move.map (i, ·)

theorem number_append (moves more : List (Move μ)) :
    ∃ rest, number (moves ++ more) = number moves ++ rest := by
  unfold number
  rw [List.zipIdx_append, List.map_append]
  exact ⟨_, rfl⟩

theorem map_number (moves : List (Move μ)) :
    (number moves).map (Move.map Prod.snd) = moves := by
  unfold number
  rw [List.map_map]
  refine Eq.trans (List.map_congr_left ?_) (List.zipIdx_map_fst 0 moves)
  rintro ⟨move, i⟩ -
  cases move <;> rfl

/-- No two marked messages are the same. -/
theorem nodup_number (moves : List (Move μ)) :
    ((number moves).filterMap Move.message?).Nodup := by
  have hpairwise : moves.zipIdx.Pairwise fun x y => x.2 < y.2 := by
    refine List.pairwise_map.mp ?_
    rw [List.zipIdx_map_snd]
    exact List.pairwise_lt_range'
  unfold number
  rw [List.filterMap_map]
  refine List.Pairwise.filterMap _ ?_ hpairwise
  rintro ⟨move, i⟩ ⟨move', i'⟩ hlt x hx y hy rfl
  -- the mark of a message is the number of its move
  have hmark : ∀ {move : Move μ} {i : Nat} {x : Nat × μ},
      (move.map (i, ·)).message? = some x → x.1 = i := by
    intro move i x hx
    cases move with
    | send m => obtain rfl := Option.some.inj hx; rfl
    | trySend m => obtain rfl := Option.some.inj hx; rfl
    | start => exact absurd hx nofun
    | stop => exact absurd hx nofun
    | advance held => exact absurd hx nofun
    | release => exact absurd hx nofun
  exact hlt.ne ((hmark hx).symm.trans (hmark hy))

theorem offers_run (s : Session μ) (moves : List (Move μ)) :
    (s.run moves).offers.map Prod.fst =
      s.offers.map Prod.fst ++ moves.filterMap Move.message? := by
  induction moves generalizing s with
  | nil => exact (List.append_nil _).symm
  | cons move rest ih =>
    have hstep : (s.step move).offers.map Prod.fst =
        s.offers.map Prod.fst ++ move.message?.toList := by
      have hdeliver : ∀ call : Channel.Call μ, (s.deliver call).offers.map Prod.fst =
          s.offers.map Prod.fst ++ call.value?.toList := by
        intro call
        have hoffered := Channel.offered_perform s.actor.mailbox call
        unfold deliver
        rw [List.map_append, ← hoffered]
        cases Channel.offered call (s.actor.mailbox.perform call).1 <;> rfl
      cases move with
      | send m => exact hdeliver (.send m)
      | trySend m => exact hdeliver (.trySend m)
      | start => exact (List.append_nil _).symm
      | stop => exact (List.append_nil _).symm
      | advance held => exact (List.append_nil _).symm
      | release => exact (List.append_nil _).symm
    show ((s.step move).run rest).offers.map Prod.fst = _
    rw [ih, hstep, List.append_assoc, List.filterMap_cons]
    cases move.message? <;> rfl

/-- **An actor handles what it has accepted, in order.**  Whatever moves an actor goes through:

* the messages given to the handler are the first of those whose sends were accepted, and the list
  of these only grows at its end, so that its order is the order in which they were accepted;
* of the messages given to the handler all but at most the last have been handled to the end, and
  as many are counted as processed;
* marking the messages with the numbers of the moves changes nothing, and shows that no message is
  handled twice, and that the message of a send that was refused is never handled;
* once the actor was started, and its worker can do nothing and is not held, every message that was
  accepted has been handled, and nobody is waiting to send. -/
theorem run_handles_accepted (id : String) (capacity : Nat) (moves : List (Move μ)) :
    let s : Session μ := (begin id capacity).run moves
    let marked : Session (Nat × μ) := (begin id capacity).run (number moves)
    s.actor.seen <+: s.accepted ∧
      (∀ more, s.accepted <+: (s.run more).accepted) ∧
      s.actor.seen = s.ended ++ s.actor.handling?.toList ∧
      s.actor.processed = s.ended.length ∧
      marked.map Prod.snd = s ∧
      marked.actor.seen.Nodup ∧
      (∀ x r, (x, r) ∈ marked.offers → marked.actor.mailbox.sendStands r = .refused → ∀ more,
        x ∉ ((begin id capacity).run (number (moves ++ more)) : Session (Nat × μ)).actor.seen) ∧
      ∀ holds, s.actor.started = true → s.actor.isHeld = false → s.actor.advance? holds = none →
        s.actor.seen = s.accepted ∧ s.actor.processed = s.accepted.length ∧
          s.actor.mailbox.senders = [] := by
  intro s marked
  have h : s.Sound := ((sound_begin id capacity).run moves).1
  have hm : marked.Sound := ((sound_begin id capacity).run (number moves)).1
  have hnodup : ∀ moves : List (Move μ),
      (((begin id capacity).run (number moves) : Session (Nat × μ)).offers.map Prod.fst).Nodup := by
    intro moves
    rw [offers_run]
    exact nodup_number moves
  refine ⟨?_, h.accepted_run, h.seen, h.processed, ?_, ?_, ?_, ?_⟩
  · rw [h.accepted_eq, List.append_assoc]
    exact List.prefix_append _ _
  · have hmap := run_map Prod.snd (begin id capacity : Session (Nat × μ)) (number moves)
    rw [map_number] at hmap
    exact hmap.symm
  · -- what was handled was accepted, and no message was offered twice
    have haccepted : marked.accepted.Nodup :=
      (hnodup moves).sublist (List.Sublist.map _ List.filter_sublist)
    rw [hm.accepted_eq, List.append_assoc] at haccepted
    exact List.Nodup.of_append_left haccepted
  · intro x r hoffer hrefused more
    have hlater := hnodup (moves ++ more)
    obtain ⟨rest, hrest⟩ := number_append moves more
    rw [hrest, run_append] at hlater ⊢
    obtain ⟨-, calls, htrace⟩ := hm.run rest
    have hoffers : ((marked.trace.run calls).offers.map Prod.fst).Nodup := by rwa [← htrace]
    have hnot := hm.kept.not_mem_handed_run hoffer hrefused hoffers
    rw [← htrace] at hnot
    exact fun hseen => hnot (List.mem_append_left _ hseen)
  · intro holds hstarted hheld hrest
    obtain ⟨hhand, hbuffer, hsenders⟩ := h.idle hstarted hheld hrest
    have hseen : s.actor.seen = s.accepted := by
      rw [h.accepted_eq, hhand, hbuffer, List.append_nil, List.append_nil]
    refine ⟨hseen, ?_, hsenders⟩
    have hidle : s.actor.handling? = none := by
      unfold isHeld at hheld
      unfold handling?
      cases hworker : s.actor.worker with
      | handling m => rw [hworker] at hheld; exact absurd hheld nofun
      | _ => rfl
    rw [← hseen, h.seen, hidle, h.processed]
    simp

end Session

end Actor

end ManagedHost
