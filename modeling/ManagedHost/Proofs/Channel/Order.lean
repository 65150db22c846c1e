import ManagedHost.Proofs.Channel.Relabeling
import Mathlib.Data.List.Nodup

/-!
# The order of values in a channel

A `Trace` is a channel together with what its callers have seen: the values that were handed to
receivers, in the order in which that happened, and the calls that offered a value, with how they
were answered.

`Ledger` is the invariant: the offers that were not refused are, in the order of the calls, those
whose values were handed over, those whose values are in the buffer, and those who are parked.  The
first two kinds are answered that they were sent, the last are not answered yet.

Values can be equal, so the fate of a value is followed by numbering the calls (`number`).  A
channel does not look at the values that it carries, hence the numbers change nothing (`run_map`).

The main result is `Trace.run_conserves`.
-/

namespace ManagedHost

namespace Channel

variable {α β : Type}

/-! ### What the callers see -/

/-- The value that the parked receiver was handed, if it was. -/
def received? (c : Channel α) (w : Nat) : Option α :=
  match c.recvSlots[w]? with
  | some (.ready value) => some value
  | _ => none

/-- The value that the parked sender offers, if it still does. -/
def pending? (c : Channel α) (w : Nat) : Option α :=
  match c.sendSlots[w]? with
  | some (.pending value) => some value
  | _ => none

/-- The values that parked receivers were handed between two states of a channel. -/
def handedOver (before after : Channel α) : List α := before.receivers.filterMap after.received?

/-- The values of the parked senders, oldest first. -/
def parkedValues (c : Channel α) : List α := c.senders.filterMap c.pending?

/-- The values of the parked senders with how their sends stand. -/
def parkedSends (c : Channel α) : List (α × SendResult) :=
  c.senders.filterMap fun w => (c.pending? w).map (·, .parked w)

/-- The offer that a call made, with how it was answered. -/
def offered (call : Call α) (answer : Answer α) : Option (α × SendResult) :=
  call.value?.bind fun v => answer.reply?.map (v, ·)

/-- A channel and what its callers have seen. -/
structure Trace (α : Type) where
  channel : Channel α
  /-- The values that were handed to receivers, in the order in which that happened. -/
  handed : List α := []
  /-- The calls that offered a value, oldest first, with how they were answered at once. -/
  offers : List (α × SendResult) := []

namespace Trace

/-- A new channel. -/
def start (capacity : Nat) : Trace α := { channel := .ofCapacity capacity }

/-- Make one more call. -/
def step (t : Trace α) (call : Call α) : Trace α :=
  let answer := (t.channel.perform call).1
  let channel := (t.channel.perform call).2
  { channel
    handed := t.handed ++ (answer.value?.toList ++ handedOver t.channel channel)
    offers := t.offers ++ (offered call answer).toList }

/-- Make calls one after the other. -/
def run (t : Trace α) (calls : List (Call α)) : Trace α := calls.foldl step t

theorem run_append (t : Trace α) (calls more : List (Call α)) :
    t.run (calls ++ more) = (t.run calls).run more :=
  List.foldl_append

theorem channel_run (t : Trace α) (calls : List (Call α)) :
    (t.run calls).channel = t.channel.run calls := by
  induction calls generalizing t with
  | nil => rfl
  | cons call rest ih => exact ih (t.step call)

end Trace

/-- The offer, unless it is refused. -/
def unlessRefused (offer : α × SendResult) : Option (α × SendResult) :=
  if offer.2 = .refused then none else some offer

/-- The offers that are not refused, with how they stand now. -/
def standing (c : Channel α) (offers : List (α × SendResult)) : List (α × SendResult) :=
  offers.filterMap fun (v, r) => unlessRefused (v, c.sendStands r)

/-- The values of the calls that were not refused, in the order of the calls. -/
def Trace.accepted (t : Trace α) : List α := (t.channel.standing t.offers).map Prod.fst

/-! ### How sends stand -/

theorem standing_append (c : Channel α) (offers more : List (α × SendResult)) :
    c.standing (offers ++ more) = c.standing offers ++ c.standing more :=
  List.filterMap_append

theorem standing_congr {c c' : Channel α} (h : ∀ r, c'.sendStands r = c.sendStands r)
    (offers : List (α × SendResult)) : c'.standing offers = c.standing offers := by
  unfold standing
  simp only [h]

/-- Where sends come to stand differently, those that are refused now are left out as well. -/
theorem standing_relabel {c c' : Channel α} {f : SendResult → SendResult}
    (h : ∀ r, c'.sendStands r = f (c.sendStands r)) (hrefused : f .refused = .refused)
    (offers : List (α × SendResult)) :
    c'.standing offers = (c.standing offers).filterMap fun (v, r) => unlessRefused (v, f r) := by
  unfold standing
  rw [List.filterMap_filterMap]
  congr 1
  funext ⟨v, r⟩
  dsimp only
  rw [h]
  by_cases hr : c.sendStands r = .refused
  · simp [unlessRefused, hr, hrefused]
  · simp [unlessRefused, hr]

/-- How a parked send stands, by its slot. -/
theorem sendStands_parked (c : Channel α) (w : Nat) :
    c.sendStands (.parked w) =
      match c.sendSlots[w]? with
      | some .taken => .sent
      | some .closed => .refused
      | _ => .parked w := by
  show (c.sendOutcome w).getD (.parked w) = _
  unfold sendOutcome
  rcases c.sendSlots[w]? with _ | _ | _ | _ <;> rfl

theorem sendStands_congr {c c' : Channel α} (h : c'.sendSlots = c.sendSlots) (r : SendResult) :
    c'.sendStands r = c.sendStands r := by
  cases r with
  | parked w => rw [sendStands_parked, sendStands_parked, h]
  | sent => rfl
  | refused => rfl

/-- That another sender parks changes nothing for the others. -/
theorem sendStands_append {c c' : Channel α} {v : α}
    (h : c'.sendSlots = c.sendSlots ++ [SendSlot.pending v]) (r : SendResult) :
    c'.sendStands r = c.sendStands r := by
  cases r with
  | parked w =>
    rw [sendStands_parked, sendStands_parked, h]
    rcases Nat.lt_trichotomy w c.sendSlots.length with hlt | rfl | hgt
    · rw [List.getElem?_append_left hlt]
    · rw [List.getElem?_concat_length, List.getElem?_eq_none (Nat.le_refl _)]
    · rw [List.getElem?_eq_none (Nat.le_of_lt hgt), List.getElem?_eq_none]
      rw [List.length_append, List.length_singleton]
      exact hgt
  | sent => rfl
  | refused => rfl

/-- How a send stands after the value of the parked sender `w` was taken. -/
def reportSent (w : Nat) (r : SendResult) : SendResult := if r = .parked w then .sent else r

/-- A parked send whose value is taken has succeeded; all others stand as before. -/
theorem sendStands_set_taken {c c' : Channel α} {w : Nat} {v : α}
    (hslots : c'.sendSlots = c.sendSlots.set w .taken) (hslot : c.sendSlots[w]? = some (.pending v))
    (r : SendResult) : c'.sendStands r = reportSent w (c.sendStands r) := by
  unfold reportSent
  cases r with
  | sent => rfl
  | refused => rfl
  | parked i =>
    rw [sendStands_parked, sendStands_parked, hslots]
    by_cases hi : w = i
    · subst hi
      rw [List.getElem?_set_self (List.getElem?_eq_some_iff.mp hslot).1, hslot]
      exact (if_pos rfl).symm
    · rw [List.getElem?_set_ne hi, if_neg]
      -- the send has ended, or is parked with another waiter
      split
      · exact SendResult.noConfusion
      · exact SendResult.noConfusion
      · intro heq
        exact hi (SendResult.parked.inj heq).symm

/-- How a send stands after the queue was cleared by a close. -/
def refuseQueued (queue : List Nat) : SendResult → SendResult
  | .parked w => if w ∈ queue then .refused else .parked w
  | r => r

/-- Closing refuses those who are parked, and nobody else. -/
theorem Orderly.sendStands_close {c : Channel α} (o : c.Orderly) (hopen : c.closed = false)
    (r : SendResult) : c.close.sendStands r = refuseQueued c.senders (c.sendStands r) := by
  cases r with
  | sent => rfl
  | refused => rfl
  | parked w =>
    rw [sendStands_parked, sendStands_parked, close_of_open hopen]
    dsimp only
    rw [getElem?_foldl_set]
    by_cases hmem : w ∈ c.senders
    · obtain ⟨_, hslot, v, rfl⟩ := (o.sendQueue.mem_iff w).mp hmem
      rw [if_pos hmem, hslot]
      exact (if_pos hmem).symm
    · rw [if_neg hmem]
      split
      · rfl
      · rfl
      · exact (if_neg hmem).symm

/-! ### The ledger -/

/-- **What becomes of the values**: those of the offers that are not refused are, in the order of
the calls, the ones that were handed over and the ones in the buffer, which are reported as sent,
and the ones that are parked. -/
def Ledger (c : Channel α) (handed : List α) (offers : List (α × SendResult)) : Prop :=
  c.standing offers = (handed ++ c.buffer).map (·, .sent) ++ c.parkedSends

/-- Sends that are reported as such stay so, whatever becomes of others. -/
theorem filterMap_sent {f : SendResult → SendResult} (hsent : f .sent = .sent) (values : List α) :
    (values.map (·, SendResult.sent)).filterMap (fun (x, r) => unlessRefused (x, f r)) =
      values.map (·, .sent) := by
  rw [List.filterMap_map, ← List.filterMap_eq_map]
  congr 1
  funext v
  simp [hsent, unlessRefused]

namespace Ledger

variable {c c' : Channel α} {handed handed' : List α} {offers : List (α × SendResult)} {v : α}

/-- Values are handed over from the buffer, or nothing happens. -/
theorem same (l : c.Ledger handed offers) (hslots : c'.sendSlots = c.sendSlots)
    (hsenders : c'.senders = c.senders) (hflow : handed' ++ c'.buffer = handed ++ c.buffer) :
    c'.Ledger handed' offers := by
  have hparked : c'.parkedSends = c.parkedSends := by
    unfold parkedSends pending?
    rw [hslots, hsenders]
  unfold Ledger
  rw [standing_congr (sendStands_congr hslots), hflow, hparked]
  exact l

theorem refused (l : c.Ledger handed offers) :
    c.Ledger handed (offers ++ [(v, SendResult.refused)]) := by
  unfold Ledger
  rw [standing_append]
  exact (List.append_nil _).trans l

/-- A value is sent while nobody is parked to send: it comes last. -/
theorem sent (l : c.Ledger handed offers) (hslots : c'.sendSlots = c.sendSlots)
    (hsenders : c.senders = []) (hsenders' : c'.senders = [])
    (hflow : handed' ++ c'.buffer = handed ++ c.buffer ++ [v]) :
    c'.Ledger handed' (offers ++ [(v, SendResult.sent)]) := by
  have hparked : c.parkedSends = [] := by
    unfold parkedSends
    rw [hsenders]
    rfl
  have hparked' : c'.parkedSends = [] := by
    unfold parkedSends
    rw [hsenders']
    rfl
  unfold Ledger at l ⊢
  rw [standing_append, standing_congr (sendStands_congr hslots), l, hflow, hparked, hparked',
    List.map_append]
  simp [standing, sendStands, unlessRefused]

/-- A sender parks: its value comes last. -/
theorem parked (l : c.Ledger handed offers) (o : c.Orderly)
    (hslots : c'.sendSlots = c.sendSlots ++ [SendSlot.pending v])
    (hsenders : c'.senders = c.senders ++ [c.sendSlots.length]) (hbuffer : c'.buffer = c.buffer) :
    c'.Ledger handed (offers ++ [(v, SendResult.parked c.sendSlots.length)]) := by
  have hold : ∀ w ∈ c.senders, c'.pending? w = c.pending? w := by
    intro w hw
    unfold pending?
    rw [hslots, List.getElem?_append_left (o.sendQueue.lt_length hw)]
  have hslot : c'.sendSlots[c.sendSlots.length]? = some (.pending v) := by
    rw [hslots, List.getElem?_concat_length]
  have hparked : c'.parkedSends = c.parkedSends ++ [(v, SendResult.parked c.sendSlots.length)] := by
    unfold parkedSends
    rw [hsenders, List.filterMap_append]
    congr 1
    · apply List.filterMap_congr
      intro w hw
      rw [hold w hw]
    · simp [pending?, hslot]
  have hnew : c'.standing [(v, SendResult.parked c.sendSlots.length)] =
      [(v, SendResult.parked c.sendSlots.length)] := by
    simp [standing, sendStands_parked, hslot, unlessRefused]
  unfold Ledger at l ⊢
  rw [standing_append, standing_congr (sendStands_append hslots), l, hparked, hbuffer, hnew,
    List.append_assoc]

/-- The oldest parked sender gives its value, which moves on to the buffer or to the receiver. -/
theorem gave (l : c.Ledger handed offers) (o : c.Orderly) {w : Nat} {others : List Nat}
    (hsenders : c.senders = w :: others) (hslot : c.sendSlots[w]? = some (.pending v))
    (hslots : c'.sendSlots = c.sendSlots.set w .taken) (hsenders' : c'.senders = others)
    (hflow : handed' ++ c'.buffer = handed ++ c.buffer ++ [v]) : c'.Ledger handed' offers := by
  have hsorted := o.sendQueue.sorted
  rw [hsenders] at hsorted
  have hother : ∀ i ∈ others, w ≠ i := fun i hi =>
    Nat.ne_of_lt ((List.pairwise_cons.mp hsorted).1 i hi)
  have hparked : c.parkedSends = (v, .parked w) :: c'.parkedSends := by
    have hv : (c.pending? w).map (·, SendResult.parked w) = some (v, .parked w) := by
      unfold pending?
      rw [hslot]
      rfl
    unfold parkedSends
    rw [hsenders, hsenders', List.filterMap_cons, hv]
    dsimp only
    congr 1
    apply List.filterMap_congr
    intro i hi
    unfold pending?
    rw [hslots, List.getElem?_set_ne (hother i hi)]
  -- the others stay parked
  have hstay : c'.parkedSends.filterMap (fun (x, r) => unlessRefused (x, reportSent w r)) =
      c'.parkedSends := by
    refine (List.filterMap_congr ?_).trans List.filterMap_some
    intro ⟨x, r⟩ hx
    unfold parkedSends at hx
    obtain ⟨i, hi, hpair⟩ := List.mem_filterMap.mp hx
    obtain ⟨y, -, hxr⟩ := Option.map_eq_some_iff.mp hpair
    obtain ⟨rfl, rfl⟩ := Prod.mk.inj hxr
    rw [hsenders'] at hi
    have hne : SendResult.parked i ≠ .parked w := fun heq =>
      hother i hi (SendResult.parked.inj heq).symm
    simp [unlessRefused, reportSent, hne]
  have hgiven : unlessRefused (v, reportSent w (.parked w)) = some (v, .sent) := by
    simp [unlessRefused, reportSent]
  unfold Ledger at l ⊢
  rw [standing_relabel (sendStands_set_taken hslots hslot) rfl, l, hparked, List.filterMap_append,
    filterMap_sent rfl, List.filterMap_cons]
  dsimp only
  rw [hgiven, hstay, hflow]
  simp

/-- Closing takes away exactly the values that are parked. -/
theorem close (l : c.Ledger handed offers) (o : c.Orderly) (hopen : c.closed = false) :
    c.close.Ledger handed offers := by
  have hbuffer : c.close.buffer = c.buffer := by rw [close_of_open hopen]
  have hparked : c.close.parkedSends = [] := by
    unfold parkedSends
    rw [close_of_open hopen]
    rfl
  have hgone : c.parkedSends.filterMap (fun (x, r) => unlessRefused (x, refuseQueued c.senders r)) =
      [] := by
    refine List.filterMap_eq_nil_iff.mpr ?_
    intro ⟨x, r⟩ hx
    unfold parkedSends at hx
    obtain ⟨i, hi, hpair⟩ := List.mem_filterMap.mp hx
    obtain ⟨y, -, hxr⟩ := Option.map_eq_some_iff.mp hpair
    obtain ⟨rfl, rfl⟩ := Prod.mk.inj hxr
    simp [unlessRefused, refuseQueued, hi]
  unfold Ledger at l ⊢
  rw [standing_relabel (o.sendStands_close hopen) rfl, l, List.filterMap_append, hgone, hbuffer,
    hparked, filterMap_sent rfl]

end Ledger

theorem received?_eq_some {c : Channel α} {w : Nat} {v : α} (h : c.received? w = some v) :
    c.HasServed w := by
  unfold received? at h
  split at h
  · next value hslot => exact ⟨value, hslot⟩
  · cases h

/-- Where no waiter is served, nothing is handed over. -/
theorem Orderly.handedOver_eq_nil {c c' : Channel α} (o : c.Orderly)
    (h : ∀ j, c'.HasServed j → c.HasServed j) : handedOver c c' = [] := by
  refine List.filterMap_eq_nil_iff.mpr ?_
  intro w hw
  obtain ⟨_, hslot, rfl⟩ := (o.recvQueue.mem_iff w).mp hw
  cases hreceived : c'.received? w with
  | none => rfl
  | some v =>
    obtain ⟨value, hready⟩ := h w (received?_eq_some hreceived)
    cases hslot.symm.trans hready

theorem Orderly.handedOver_of_same {c c' : Channel α} (o : c.Orderly)
    (hslots : c'.recvSlots = c.recvSlots) : handedOver c c' = [] := by
  refine o.handedOver_eq_nil fun j hj => ?_
  unfold HasServed at hj ⊢
  rwa [hslots] at hj

/-- The oldest waiter, and no other, is handed the value. -/
theorem Orderly.handedOver_set {c c' : Channel α} (o : c.Orderly) {w : Nat} {rest : List Nat}
    {v : α} (hreceivers : c.receivers = w :: rest)
    (hslots : c'.recvSlots = c.recvSlots.set w (.ready v)) : handedOver c c' = [v] := by
  have q := o.recvQueue
  rw [hreceivers] at q
  have hw := q.lt_length List.mem_cons_self
  have hfirst : c'.received? w = some v := by
    unfold received?
    rw [hslots, List.getElem?_set_self hw]
  have hrest : rest.filterMap c'.received? = [] := by
    refine List.filterMap_eq_nil_iff.mpr ?_
    intro i hi
    obtain ⟨_, hslot, rfl⟩ := (q.mem_iff i).mp (List.mem_cons_of_mem _ hi)
    have hne : w ≠ i := Nat.ne_of_lt ((List.pairwise_cons.mp q.sorted).1 i hi)
    unfold received?
    rw [hslots, List.getElem?_set_ne hne, hslot]
  unfold handedOver
  rw [hreceivers, List.filterMap_cons, hfirst, hrest]

theorem offered_of_reply {call : Call α} {answer : Answer α} {v : α} {r : SendResult}
    (hcall : call.value? = some v) (hreply : answer.reply? = some r) :
    offered call answer = some (v, r) := by
  unfold offered
  rw [hcall, hreply]
  rfl

theorem offered_of_none (call : Call α) {answer : Answer α} (hreply : answer.reply? = none) :
    offered call answer = none := by
  unfold offered
  rw [hreply]
  cases call.value? <;> rfl

/-- **Every call keeps the ledger.** -/
theorem Effect.ledger {c c' : Channel α} {call : Call α} {answer : Answer α}
    (eff : Effect c call answer c') (o : c.Orderly) {handed : List α}
    {offers : List (α × SendResult)} (l : c.Ledger handed offers) :
    c'.Ledger (handed ++ (answer.value?.toList ++ handedOver c c'))
      (offers ++ (offered call answer).toList) := by
  have hquiet : c'.recvSlots = c.recvSlots → handedOver c c' = [] := o.handedOver_of_same
  cases eff with
  | refused hcall hreply =>
    rw [offered_of_reply hcall hreply, Answer.value?_of_reply? hreply, hquiet rfl]
    simpa using l.refused
  | handed hcall hreply hopen hreceivers =>
    obtain ⟨hbuffer, hsenders⟩ := o.receiving (by rw [hreceivers]; exact List.cons_ne_nil _ _)
    rw [offered_of_reply hcall hreply, Answer.value?_of_reply? hreply,
      o.handedOver_set hreceivers rfl]
    exact l.sent rfl hsenders hsenders (by simp [hbuffer])
  | buffered hcall hreply hopen hreceivers hroom =>
    have hsenders : c.senders = [] := by
      by_contra hsome
      exact Nat.ne_of_lt hroom (o.sending hsome)
    rw [offered_of_reply hcall hreply, Answer.value?_of_reply? hreply, hquiet rfl]
    exact l.sent rfl hsenders hsenders (by simp)
  | parked hcall hreply hopen hreceivers hfull =>
    rw [offered_of_reply hcall hreply, Answer.value?_of_reply? hreply, hquiet rfl]
    simp only [Option.toList_none, List.append_nil]
    exact l.parked o rfl rfl rfl
  | took hvalue hbuffer hsenders =>
    rw [offered_of_none call (Answer.reply?_of_value? hvalue), hvalue, hquiet rfl]
    simp only [Option.toList_none, List.append_nil]
    refine l.same rfl rfl ?_
    simp [hbuffer]
  | refilled hvalue hbuffer hsenders hslot =>
    rw [offered_of_none call (Answer.reply?_of_value? hvalue), hvalue, hquiet rfl]
    simp only [Option.toList_none, List.append_nil]
    refine l.gave o hsenders hslot rfl rfl ?_
    simp [hbuffer]
  | met hvalue hbuffer hsenders hslot =>
    rw [offered_of_none call (Answer.reply?_of_value? hvalue), hvalue, hquiet rfl]
    simp only [Option.toList_none, List.append_nil]
    refine l.gave o hsenders hslot rfl rfl ?_
    simp [hbuffer]
  | nothing hreply hvalue =>
    rw [offered_of_none call hreply, hvalue, hquiet rfl]
    simpa using l
  | waiting hreply hvalue hopen hbuffer hsenders =>
    rw [offered_of_none call hreply, hvalue,
      o.handedOver_eq_nil fun j => (hasServed_append rfl j).mp]
    simp only [Option.toList_none, List.append_nil]
    exact l.same rfl rfl rfl
  | closing hreply hvalue hopen =>
    rw [offered_of_none call hreply, hvalue, o.handedOver_eq_nil fun j => (o.hasServed_close j).mp]
    simpa using l.close o hopen

/-- The channel of a trace is in order, and its ledger is kept. -/
structure Trace.Kept (t : Trace α) : Prop where
  orderly : t.channel.Orderly
  ledger : t.channel.Ledger t.handed t.offers

theorem Trace.kept_start (capacity : Nat) : (start capacity : Trace α).Kept :=
  ⟨orderly_ofCapacity capacity, rfl⟩

theorem Trace.Kept.step {t : Trace α} (k : t.Kept) (call : Call α) : (t.step call).Kept := by
  have eff := k.orderly.perform_effect call
  exact ⟨eff.orderly k.orderly, eff.ledger k.orderly k.ledger⟩

theorem Trace.Kept.run {t : Trace α} (k : t.Kept) (calls : List (Call α)) : (t.run calls).Kept := by
  induction calls generalizing t with
  | nil => exact k
  | cons call rest ih => exact ih (k.step call)

/-! ### Answers are final -/

/-- **A send that has ended stays as it ended.** -/
theorem Effect.sendStands_eq {c c' : Channel α} {call : Call α} {answer : Answer α}
    (eff : Effect c call answer c') (o : c.Orderly) {r : SendResult}
    (hended : ∀ w, c.sendStands r ≠ .parked w) : c'.sendStands r = c.sendStands r := by
  cases eff with
  | parked => exact sendStands_append rfl r
  | refilled _ _ _ hslot =>
    rw [sendStands_set_taken rfl hslot]
    exact if_neg (hended _)
  | met _ _ _ hslot =>
    rw [sendStands_set_taken rfl hslot]
    exact if_neg (hended _)
  | closing _ _ hopen =>
    rw [o.sendStands_close hopen]
    cases hstands : c.sendStands r with
    | parked w => exact absurd hstands (hended w)
    | sent => rfl
    | refused => rfl
  | refused => rfl
  | handed => exact sendStands_congr rfl r
  | buffered => exact sendStands_congr rfl r
  | took => exact sendStands_congr rfl r
  | nothing => rfl
  | waiting => exact sendStands_congr rfl r

theorem Trace.Kept.refused_run {t : Trace α} (k : t.Kept) {r : SendResult}
    (hrefused : t.channel.sendStands r = .refused) (calls : List (Call α)) :
    (t.run calls).channel.sendStands r = .refused := by
  induction calls generalizing t with
  | nil => exact hrefused
  | cons call rest ih =>
    refine ih (k.step call) ?_
    have heq := (k.orderly.perform_effect call).sendStands_eq k.orderly (r := r) fun w hparked => by
      cases hrefused.symm.trans hparked
    exact heq.trans hrefused

/-! ### Offers -/

/-- Every call that offers a value is entered, with its value. -/
theorem offered_perform (c : Channel α) (call : Call α) :
    (offered call (c.perform call).1).map Prod.fst = call.value? := by
  cases call with
  | send v => rfl
  | trySend v =>
    show (offered _ (Answer.tried (c.trySend v).1)).map Prod.fst = some v
    cases (c.trySend v).1 <;> rfl
  | receive => rfl
  | tryReceive => rfl
  | close => rfl

theorem Trace.offers_run (t : Trace α) (calls : List (Call α)) :
    ∃ more, (t.run calls).offers = t.offers ++ more ∧
      more.map Prod.fst = calls.filterMap Call.value? := by
  induction calls generalizing t with
  | nil => exact ⟨[], (List.append_nil _).symm, rfl⟩
  | cons call rest ih =>
    obtain ⟨more, heq, hvalues⟩ := ih (t.step call)
    refine ⟨(offered call (t.channel.perform call).1).toList ++ more, ?_, ?_⟩
    · rw [← List.append_assoc]
      exact heq
    · have hfirst := offered_perform t.channel call
      rw [List.map_append, hvalues, List.filterMap_cons, ← hfirst]
      cases offered call (t.channel.perform call).1 <;> rfl

theorem Trace.values_offers_run (n : Nat) (calls : List (Call α)) :
    ((start n).run calls : Trace α).offers.map Prod.fst = calls.filterMap Call.value? := by
  obtain ⟨more, hoffers, hvalues⟩ := (start n : Trace α).offers_run calls
  rw [← hvalues]
  exact congrArg (List.map Prod.fst) hoffers

theorem mem_standing {c : Channel α} {offers : List (α × SendResult)} {x : α} {s : SendResult} :
    (x, s) ∈ c.standing offers ↔ s ≠ .refused ∧ ∃ r, (x, r) ∈ offers ∧ c.sendStands r = s := by
  unfold standing
  rw [List.mem_filterMap]
  constructor
  · rintro ⟨⟨y, r⟩, hmem, hsome⟩
    unfold unlessRefused at hsome
    dsimp only at hsome
    split_ifs at hsome with hrefused
    obtain ⟨rfl, rfl⟩ := Prod.mk.inj (Option.some.inj hsome)
    exact ⟨hrefused, r, hmem, rfl⟩
  · rintro ⟨hne, r, hmem, rfl⟩
    exact ⟨(x, r), hmem, if_neg hne⟩

theorem mem_parkedSends {c : Channel α} {x : α} {s : SendResult} :
    (x, s) ∈ c.parkedSends ↔ ∃ w ∈ c.senders, c.pending? w = some x ∧ s = .parked w := by
  unfold parkedSends
  rw [List.mem_filterMap]
  constructor
  · rintro ⟨w, hw, hmap⟩
    obtain ⟨y, hy, hpair⟩ := Option.map_eq_some_iff.mp hmap
    obtain ⟨rfl, rfl⟩ := Prod.mk.inj hpair
    exact ⟨w, hw, hy, rfl⟩
  · rintro ⟨w, hw, hx, rfl⟩
    refine ⟨w, hw, ?_⟩
    rw [hx]
    rfl

theorem map_fst_parkedSends (c : Channel α) : c.parkedSends.map Prod.fst = c.parkedValues := by
  unfold parkedSends parkedValues
  rw [List.map_filterMap]
  congr 1
  funext w
  cases c.pending? w <;> rfl

theorem Trace.Kept.accepted_eq {t : Trace α} (k : t.Kept) :
    t.accepted = t.handed ++ t.channel.buffer ++ t.channel.parkedValues := by
  unfold Trace.accepted
  rw [k.ledger, List.map_append, map_fst_parkedSends, List.map_map]
  congr 1
  exact List.map_id'' (fun _ => rfl) _

/-- **A close refuses those who are parked.** -/
theorem Trace.Kept.accepted_close {t : Trace α} (k : t.Kept) :
    (t.step .close).accepted ++ t.channel.parkedValues = t.accepted := by
  have hhanded : (t.step .close).handed = t.handed := by
    have hover : handedOver t.channel t.channel.close = [] :=
      k.orderly.handedOver_eq_nil fun j => (k.orderly.hasServed_close j).mp
    show t.handed ++ ([] ++ handedOver t.channel t.channel.close) = t.handed
    rw [hover]
    exact List.append_nil _
  have hafter : t.channel.close.buffer = t.channel.buffer ∧ t.channel.close.senders = [] := by
    by_cases hclosed : t.channel.closed = true
    · have hsame : t.channel.close = t.channel := if_pos hclosed
      rw [hsame]
      exact ⟨rfl, (k.orderly.closing hclosed).2⟩
    · rw [close_of_open (Bool.eq_false_iff.mpr hclosed)]
      exact ⟨rfl, rfl⟩
  have hparked : t.channel.close.parkedValues = [] := by
    unfold parkedValues
    rw [hafter.2]
    rfl
  calc (t.step .close).accepted ++ t.channel.parkedValues
      = (t.step .close).handed ++ t.channel.close.buffer ++ t.channel.close.parkedValues ++
          t.channel.parkedValues := by rw [(k.step .close).accepted_eq]; rfl
    _ = t.handed ++ t.channel.buffer ++ t.channel.parkedValues := by
          rw [hhanded, hafter.1, hparked, List.append_nil]
    _ = t.accepted := k.accepted_eq.symm

/-! ### The fate of a value -/

section Fate

variable {t : Trace α} {x : α} {r : SendResult}

/-- Where no value is offered twice, an offer is known by its value. -/
theorem reply_unique {offers : List (α × SendResult)} (hnodup : (offers.map Prod.fst).Nodup)
    {r' : SendResult} (h : (x, r) ∈ offers) (h' : (x, r') ∈ offers) : r = r' :=
  (Prod.mk.inj (List.inj_on_of_nodup_map hnodup h h' rfl)).2

theorem Trace.Kept.sent_iff (k : t.Kept) (hnodup : (t.offers.map Prod.fst).Nodup)
    (hoffer : (x, r) ∈ t.offers) :
    t.channel.sendStands r = .sent ↔ x ∈ t.handed ∨ x ∈ t.channel.buffer := by
  rw [← List.mem_append]
  constructor
  · intro hsent
    have hmem : (x, SendResult.sent) ∈ t.channel.standing t.offers :=
      mem_standing.mpr ⟨SendResult.noConfusion, r, hoffer, hsent⟩
    rw [k.ledger, List.mem_append] at hmem
    rcases hmem with hmem | hmem
    · obtain ⟨y, hy, hpair⟩ := List.mem_map.mp hmem
      obtain rfl := (Prod.mk.inj hpair).1
      exact hy
    · obtain ⟨w, -, -, hparked⟩ := mem_parkedSends.mp hmem
      cases hparked
  · intro hmem
    have hstanding : (x, SendResult.sent) ∈ t.channel.standing t.offers := by
      rw [k.ledger]
      exact List.mem_append_left _ (List.mem_map.mpr ⟨x, hmem, rfl⟩)
    obtain ⟨-, r', hoffer', hsent⟩ := mem_standing.mp hstanding
    rw [reply_unique hnodup hoffer hoffer']
    exact hsent

theorem Trace.Kept.parked_iff (k : t.Kept) (hnodup : (t.offers.map Prod.fst).Nodup)
    (hoffer : (x, r) ∈ t.offers) :
    (∃ w, t.channel.sendStands r = .parked w) ↔ x ∈ t.channel.parkedValues := by
  rw [← map_fst_parkedSends, List.mem_map]
  constructor
  · rintro ⟨w, hparked⟩
    have hmem : (x, SendResult.parked w) ∈ t.channel.standing t.offers :=
      mem_standing.mpr ⟨SendResult.noConfusion, r, hoffer, hparked⟩
    rw [k.ledger, List.mem_append] at hmem
    rcases hmem with hmem | hmem
    · obtain ⟨y, -, hpair⟩ := List.mem_map.mp hmem
      cases (Prod.mk.inj hpair).2
    · exact ⟨_, hmem, rfl⟩
  · rintro ⟨⟨y, s⟩, hmem, rfl⟩
    obtain ⟨w, -, -, rfl⟩ := mem_parkedSends.mp hmem
    have hstanding : (y, SendResult.parked w) ∈ t.channel.standing t.offers := by
      rw [k.ledger]
      exact List.mem_append_right _ hmem
    obtain ⟨-, r', hoffer', hparked⟩ := mem_standing.mp hstanding
    refine ⟨w, ?_⟩
    rw [reply_unique hnodup hoffer hoffer']
    exact hparked

/-- A refused value is not handed over later either. -/
theorem Trace.Kept.not_mem_handed_run (k : t.Kept) (hoffer : (x, r) ∈ t.offers)
    (hrefused : t.channel.sendStands r = .refused) {calls : List (Call α)}
    (hnodup : ((t.run calls).offers.map Prod.fst).Nodup) : x ∉ (t.run calls).handed := by
  intro hhanded
  obtain ⟨more, hoffers, -⟩ := t.offers_run calls
  have hlater : (x, r) ∈ (t.run calls).offers := by
    rw [hoffers]
    exact List.mem_append_left _ hoffer
  have hsent := ((k.run calls).sent_iff hnodup hlater).mpr (Or.inl hhanded)
  cases (k.refused_run hrefused calls).symm.trans hsent

end Fate

/-- A send that does not wait and fails has done nothing. -/
theorem trySend_eq_error {c : Channel α} {v : α} {e : TrySendError α}
    (h : (c.trySend v).1 = .error e) : e.value = v ∧ (c.trySend v).2 = c := by
  unfold trySend at h ⊢
  split_ifs at h ⊢
  · obtain rfl := Except.error.inj h
    exact ⟨rfl, rfl⟩
  · cases hoffer : c.offer v with
    | some c' =>
      rw [hoffer] at h
      cases h
    | none =>
      rw [hoffer] at h
      obtain rfl := Except.error.inj h
      exact ⟨rfl, rfl⟩

/-! ### Numbered calls -/

/-- Mark the value of each call with the number of the call. -/
def numberFrom : Nat → List (Call α) → List (Call (Nat × α))
  | _, [] => []
  | i, call :: rest => call.map (i, ·) :: numberFrom (i + 1) rest

@[inherit_doc numberFrom]
def number (calls : List (Call α)) : List (Call (Nat × α)) := numberFrom 0 calls

theorem numberFrom_append (i : Nat) (calls more : List (Call α)) :
    numberFrom i (calls ++ more) = numberFrom i calls ++ numberFrom (i + calls.length) more := by
  induction calls generalizing i with
  | nil => rfl
  | cons call rest ih =>
    rw [List.cons_append, numberFrom, numberFrom, ih, List.cons_append, List.length_cons,
      Nat.add_right_comm, Nat.add_assoc]

theorem map_numberFrom (i : Nat) (calls : List (Call α)) :
    (numberFrom i calls).map (Call.map Prod.snd) = calls := by
  induction calls generalizing i with
  | nil => rfl
  | cons call rest ih =>
    rw [numberFrom, List.map_cons, ih]
    cases call <;> rfl

/-- The numbers of the values ascend, so that no two values are the same. -/
theorem numberFrom_ascending (i : Nat) (calls : List (Call α)) :
    ((numberFrom i calls).filterMap Call.value?).Pairwise (fun x y => x.1 < y.1) ∧
      ∀ x ∈ (numberFrom i calls).filterMap Call.value?, i ≤ x.1 := by
  induction calls generalizing i with
  | nil => exact ⟨.nil, fun _ hx => absurd hx List.not_mem_nil⟩
  | cons call rest ih =>
    obtain ⟨hpairwise, hle⟩ := ih (i + 1)
    rw [numberFrom, List.filterMap_cons, Call.value?_map]
    cases call.value? with
    | none => exact ⟨hpairwise, fun x hx => Nat.le_of_succ_le (hle x hx)⟩
    | some v =>
      refine ⟨List.pairwise_cons.mpr ⟨fun x hx => hle x hx, hpairwise⟩, ?_⟩
      intro x hx
      rcases List.mem_cons.mp hx with rfl | hx
      · exact Nat.le_refl i
      · exact Nat.le_of_succ_le (hle x hx)

theorem nodup_number (calls : List (Call α)) :
    ((number calls).filterMap Call.value?).Nodup := by
  refine (numberFrom_ascending 0 calls).1.imp ?_
  rintro x y hlt rfl
  exact Nat.lt_irrefl _ hlt

theorem received?_map (f : α → β) (c : Channel α) (w : Nat) :
    (c.map f).received? w = (c.received? w).map f := by
  have hslot : (c.map f).recvSlots[w]? = c.recvSlots[w]?.map (RecvSlot.map f) := List.getElem?_map
  unfold received?
  rw [hslot]
  rcases c.recvSlots[w]? with _ | _ | _ | _ <;> rfl

theorem handedOver_map (f : α → β) (c c' : Channel α) :
    handedOver (c.map f) (c'.map f) = (handedOver c c').map f := by
  unfold handedOver
  rw [List.map_filterMap]
  congr 1
  funext w
  exact received?_map f c' w

theorem offered_map (f : α → β) (call : Call α) (answer : Answer α) :
    offered (call.map f) (answer.map f) = (offered call answer).map (Prod.map f id) := by
  unfold offered
  rw [Call.value?_map, Answer.reply?_map]
  cases call.value? with
  | none => rfl
  | some v => cases answer.reply? <;> rfl

namespace Trace

/-- Replace the values. -/
def map (f : α → β) (t : Trace α) : Trace β where
  channel := t.channel.map f
  handed := t.handed.map f
  offers := t.offers.map (Prod.map f id)

theorem step_map (f : α → β) (t : Trace α) (call : Call α) :
    (t.map f).step (call.map f) = (t.step call).map f := by
  have hperform : (t.map f).channel.perform (call.map f) =
      ((t.channel.perform call).1.map f, (t.channel.perform call).2.map f) :=
    perform_map f t.channel call
  have hover : handedOver (t.map f).channel ((t.channel.perform call).2.map f) =
      (handedOver t.channel (t.channel.perform call).2).map f := handedOver_map f _ _
  unfold step
  rw [hperform]
  dsimp only
  rw [hover, Answer.value?_map, offered_map]
  simp [map, Option.toList_map]

theorem run_map (f : α → β) (t : Trace α) (calls : List (Call α)) :
    (t.map f).run (calls.map (Call.map f)) = (t.run calls).map f := by
  induction calls generalizing t with
  | nil => rfl
  | cons call rest ih =>
    show ((t.map f).step (call.map f)).run (rest.map (Call.map f)) = _
    rw [step_map, ih]
    rfl

/-- **Channels keep every value and its place.**  Whatever calls are made on a channel of any
capacity, by however many parties:

* the values that were handed to receivers, those in the buffer and those of the parked senders
  are, in this order, the values of the calls that were not refused, in the order of the calls;
* a close refuses exactly the last of them, those of the parked senders;
* marking the values with the numbers of their calls changes nothing, and shows the fate of each:
  a send is reported as sent exactly when its value was handed over or is in the buffer, it is
  parked exactly when its value is, and a value whose send is refused is never handed over;
* a failing send that does not wait hands back its own value and changes nothing. -/
theorem run_conserves (n : Nat) (calls : List (Call α)) :
    let t : Trace α := (start n).run calls
    let marked : Trace (Nat × α) := (start n).run (number calls)
    t.channel = (ofCapacity n).run calls ∧
      t.handed ++ t.channel.buffer ++ t.channel.parkedValues = t.accepted ∧
      (t.step .close).accepted ++ t.channel.parkedValues = t.accepted ∧
      marked.map Prod.snd = t ∧
      marked.offers.map Prod.fst = (number calls).filterMap Call.value? ∧
      (∀ x r, (x, r) ∈ marked.offers →
        (marked.channel.sendStands r = .sent ↔ x ∈ marked.handed ∨ x ∈ marked.channel.buffer) ∧
        ((∃ w, marked.channel.sendStands r = .parked w) ↔ x ∈ marked.channel.parkedValues) ∧
        (marked.channel.sendStands r = .refused →
          ∀ more, x ∉ ((start n).run (number (calls ++ more)) : Trace (Nat × α)).handed)) ∧
      ∀ v e, (t.channel.trySend v).1 = .error e →
        e.value = v ∧ (t.channel.trySend v).2 = t.channel := by
  intro t marked
  have k : t.Kept := (kept_start n).run calls
  have km : marked.Kept := (kept_start n).run (number calls)
  have hvalues := fun calls => values_offers_run n (number calls : List (Call (Nat × α)))
  have hnodup : ∀ calls : List (Call α),
      ((((start n).run (number calls) : Trace (Nat × α)).offers).map Prod.fst).Nodup := by
    intro calls
    rw [hvalues]
    exact nodup_number calls
  refine ⟨channel_run _ calls, k.accepted_eq.symm, k.accepted_close, ?_, hvalues calls, ?_, ?_⟩
  · have hmap := run_map Prod.snd (start n : Trace (Nat × α)) (number calls)
    rw [number, map_numberFrom] at hmap
    exact hmap.symm
  · -- no two marked values are the same, so each shows the fate of one call
    intro x r hoffer
    refine ⟨km.sent_iff (hnodup calls) hoffer, km.parked_iff (hnodup calls) hoffer, ?_⟩
    intro hrefused more
    have hlater := hnodup (calls ++ more)
    rw [number, numberFrom_append, run_append] at hlater ⊢
    exact km.not_mem_handed_run hoffer hrefused hlater
  · intro v e herror
    exact trySend_eq_error herror

end Trace

end Channel

end ManagedHost
