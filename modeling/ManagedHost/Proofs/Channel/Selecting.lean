import ManagedHost.Channel.Select
import ManagedHost.Proofs.Channel.Waiting

/-!
# What a select does

A select tries its cases in order.  An attempt that cannot complete puts everything back, on the
channel and in the case (`Case.tryFire_of_not_ready`); one that can is the call of the case and
nothing else (`Case.tryFire_of_ready`).  Hence an execution is one call, that of the first case
that is ready, or none at all (`fireFirst_spec`).

Between two executions the channels are at anybody's disposal, and the handlers may come to answer
otherwise: `Session` is a select with what happens around it.

The main result is `Session.run_fires_first`.
-/

namespace ManagedHost

/-! ### Attempts on a channel -/

namespace Channel

variable {α : Type} {c : Channel α}

/-- Whether there is a receiver for a value, or room. -/
def HasRoom (c : Channel α) : Prop := c.receivers ≠ [] ∨ c.buffer.length < c.capacity

theorem offer_eq_none_iff {v : α} : c.offer v = none ↔ ¬ c.HasRoom := by
  refine ⟨fun h => ?_, fun h => ?_⟩
  · obtain ⟨hreceivers, hfull⟩ := offer_eq_none h
    rintro (hsome | hlt)
    · exact hsome hreceivers
    · exact Nat.not_lt_of_le hfull hlt
  · obtain ⟨hreceivers, hfull⟩ := not_or.mp h
    unfold offer
    rw [not_not.mp hreceivers]
    exact if_neg hfull

/-- A value can be sent at once to an open channel that has room. -/
theorem trySend_of_hasRoom (hopen : c.closed = false) (hroom : c.HasRoom) (v : α) :
    ∃ c', c.trySend v = (.ok (), c') := by
  unfold trySend
  rw [if_neg (Bool.eq_false_iff.mp hopen)]
  cases hoffer : c.offer v with
  | some c' => exact ⟨c', rfl⟩
  | none => exact absurd hroom (offer_eq_none_iff.mp hoffer)

/-- Otherwise the value is handed back, and the channel stays as it is. -/
theorem trySend_of_not_hasRoom (hnot : ¬ (c.closed = false ∧ c.HasRoom)) (v : α) :
    ∃ e, c.trySend v = (.error e, c) ∧ e.value = v := by
  unfold trySend
  by_cases hclosed : c.closed = true
  · exact ⟨.closed v, if_pos hclosed, rfl⟩
  · have hfull : ¬ c.HasRoom := fun hroom => hnot ⟨Bool.eq_false_iff.mpr hclosed, hroom⟩
    rw [if_neg hclosed, offer_eq_none_iff.mpr hfull]
    exact ⟨.full v, rfl, rfl⟩

/-- Whether there is a value to be received. -/
def HasValue (c : Channel α) : Prop := c.buffer ≠ [] ∨ c.senders ≠ []

/-- A value that is there can be received at once. -/
theorem Orderly.tryReceive_of_hasValue (o : c.Orderly) (hvalue : c.HasValue) :
    ∃ v c', c.tryReceive = (.ok v, c') := by
  rcases o.dequeue_effect with ⟨-, hbuffer, hsenders⟩ | ⟨v, hsome, -⟩
  · rcases hvalue with h | h
    · exact absurd hbuffer h
    · exact absurd hsenders h
  · refine ⟨v, c.dequeue.2, ?_⟩
    unfold tryReceive
    rw [← Prod.eta c.dequeue, hsome]

/-- Otherwise the channel stays as it is. -/
theorem tryReceive_of_not_hasValue (hnot : ¬ c.HasValue) :
    ∃ e, c.tryReceive = (.error e, c) := by
  obtain ⟨hbuffer, hsenders⟩ := not_or.mp hnot
  have hdequeue : c.dequeue = (none, c) := by
    unfold dequeue
    rw [not_not.mp hbuffer]
    exact takeParked_of_nil (not_not.mp hsenders)
  unfold tryReceive
  rw [hdequeue]
  exact ⟨_, rfl⟩

end Channel

namespace Select

variable {α : Type} {channels : List (Channel α)} {cases : List (Case α)} {case : Case α}

/-! ### Attempts of a case -/

/-- **Whether the operation of the case can complete at once.**  A send that has completed is not
done again. -/
def Case.Ready (case : Case α) (channels : List (Channel α)) : Prop :=
  match case.action with
  | .send ch (some _) => ∃ c, channels[ch]? = some c ∧ c.closed = false ∧ c.HasRoom
  | .send _ none => False
  | .recv ch => ∃ c, channels[ch]? = some c ∧ c.HasValue

/-- **The operation of the case, carried out**: the value that is received if there is one, what is
left of the case, and the channels after the one call. -/
inductive Case.Completes (case : Case α) (channels : List (Channel α)) :
    Option α → Case α → List (Channel α) → Prop where
  | sent {ch : Nat} {v : α} {c c' : Channel α} (haction : case.action = .send ch (some v))
      (hc : channels[ch]? = some c) (hsend : c.trySend v = (.ok (), c')) :
      Completes case channels none { case with action := .send ch none } (channels.set ch c')
  | received {ch : Nat} {v : α} {c c' : Channel α} (haction : case.action = .recv ch)
      (hc : channels[ch]? = some c) (hreceive : c.tryReceive = (.ok v, c')) :
      Completes case channels (some v) case (channels.set ch c')

theorem set_self {β : Type} {l : List β} {n : Nat} {x : β} (h : l[n]? = some x) :
    l.set n x = l := by
  obtain ⟨hlt, rfl⟩ := List.getElem?_eq_some_iff.mp h
  exact List.set_getElem_self hlt

/-- **An attempt that can complete** is the operation of the case. -/
theorem Case.tryFire_of_ready (horderly : ∀ c ∈ channels, c.Orderly)
    (hready : case.Ready channels) : ∃ value case' channels',
      case.Completes channels value case' channels' ∧
        case.tryFire channels = (some value, case', channels') := by
  unfold Ready at hready
  split at hready
  · next ch v haction =>
    obtain ⟨c, hc, hopen, hroom⟩ := hready
    obtain ⟨c', hsend⟩ := Channel.trySend_of_hasRoom hopen hroom v
    refine ⟨_, _, _, .sent haction hc hsend, ?_⟩
    simp only [tryFire, haction, Case.trySend, hc, hsend]
  · exact hready.elim
  · next ch haction =>
    obtain ⟨c, hc, hvalue⟩ := hready
    obtain ⟨v, c', hreceive⟩ :=
      (horderly c (List.mem_of_getElem? hc)).tryReceive_of_hasValue hvalue
    refine ⟨_, _, _, .received haction hc hreceive, ?_⟩
    simp only [tryFire, haction, Case.tryReceive, hc, hreceive]

/-- **An attempt that cannot complete leaves no trace.** -/
theorem Case.tryFire_of_not_ready (hready : ¬ case.Ready channels) :
    case.tryFire channels = (none, case, channels) := by
  unfold Ready at hready
  unfold tryFire
  split
  · next ch v haction =>
    rw [haction] at hready
    unfold Case.trySend
    cases hc : channels[ch]? with
    | none => rfl
    | some c =>
      -- the value comes back into the case
      obtain ⟨e, hsend, rfl⟩ :=
        Channel.trySend_of_not_hasRoom (fun h => hready ⟨c, hc, h⟩) v
      simp only [hsend, set_self hc, ← haction]
  · rfl
  · next ch haction =>
    rw [haction] at hready
    unfold Case.tryReceive
    cases hc : channels[ch]? with
    | none => rfl
    | some c =>
      obtain ⟨e, hreceive⟩ :=
        Channel.tryReceive_of_not_hasValue fun h => hready ⟨c, hc, h⟩
      simp only [hreceive, set_self hc]

/-- What is attempted, over the cases from the one with the number `index` on. -/
theorem fireFirst_spec (horderly : ∀ c ∈ channels, c.Orderly) (index : Nat)
    (cases : List (Case α)) :
    (∀ d ∈ cases, ¬ d.Ready channels) ∧ fireFirst index cases channels = (none, cases, channels) ∨
      ∃ before case after value case' channels', cases = before ++ case :: after ∧
        (∀ d ∈ before, ¬ d.Ready channels) ∧ case.Ready channels ∧
        case.Completes channels value case' channels' ∧
        fireFirst index cases channels =
          (some ⟨index + before.length, value, case.failure⟩, before ++ case' :: after,
            channels') := by
  induction cases generalizing index with
  | nil => exact Or.inl ⟨fun _ hd => absurd hd List.not_mem_nil, rfl⟩
  | cons first rest ih =>
    by_cases hready : first.Ready channels
    · obtain ⟨value, case', channels', hcompletes, hfire⟩ :=
        Case.tryFire_of_ready horderly hready
      refine Or.inr ⟨[], first, rest, value, case', channels', rfl,
        fun _ hd => absurd hd List.not_mem_nil, hready, hcompletes, ?_⟩
      have hfailure : case'.failure = first.failure := by
        cases hcompletes <;> rfl
      simp only [fireFirst, hfire, hfailure]
      rfl
    · have hfire := Case.tryFire_of_not_ready hready
      rcases ih (index + 1) with ⟨hnone, hrest⟩ | ⟨before, case, after, value, case', channels',
        rfl, hbefore, hcase, hcompletes, hrest⟩
      · refine Or.inl ⟨List.forall_mem_cons.mpr ⟨hready, hnone⟩, ?_⟩
        simp only [fireFirst, hfire, hrest]
      · refine Or.inr ⟨first :: before, case, after, value, case', channels', rfl,
          List.forall_mem_cons.mpr ⟨hready, hbefore⟩, hcase, hcompletes, ?_⟩
        simp only [fireFirst, hfire, hrest, List.length_cons]
        rw [Nat.add_right_comm, Nat.add_assoc]
        rfl

/-! ### Sessions -/

/-- A select among channels that others use, too. -/
structure Session (α : Type) where
  cases : List (Case α)
  channels : List (Channel α)
  /-- The handlers that were run, oldest first: of which case, with which value, and how they
  answered. -/
  fired : List (Fired α) := []

/-- What happens in a session. -/
inductive Move (α : Type) where
  /-- The select is executed. -/
  | execute
  /-- Somebody makes a call on a channel. -/
  | call (ch : Nat) (call : Channel.Call α)
  /-- From now on the handlers answer otherwise. -/
  | handlers (failure : Nat → Option ErrorChain)

namespace Session

/-- A select among channels of the given capacities, before anything has happened. -/
def start (capacities : List Nat) (cases : List (Case α)) : Session α :=
  { cases, channels := capacities.map Channel.ofCapacity }

/-- Execute the select once. -/
def execute (s : Session α) : Except SelectError (Option Nat) × Session α :=
  let (fired, cases, channels) := Select.execute s.cases s.channels
  (result fired, { cases, channels, fired := s.fired ++ fired.toList })

/-- Let something happen. -/
def step (s : Session α) : Move α → Session α
  | .execute => s.execute.2
  | .call ch call => { s with channels := s.channels.modify ch fun c => (c.perform call).2 }
  | .handlers failure =>
    { s with cases := s.cases.mapIdx fun i case => { case with failure := failure i } }

/-- Let one thing happen after the other. -/
def run (s : Session α) (moves : List (Move α)) : Session α := moves.foldl step s

/-- How often the handler of the case was run. -/
def firings (s : Session α) (i : Nat) : Nat := s.fired.countP (·.index == i)

variable {s : Session α}

/-- **What one execution does**: nothing, if no case is ready, and otherwise the operation and the
handler of the first case that is. -/
theorem execute_spec (horderly : ∀ c ∈ s.channels, c.Orderly) :
    (∀ d ∈ s.cases, ¬ d.Ready s.channels) ∧ s.execute = (.ok none, s) ∨
      ∃ i case value case' channels', s.cases[i]? = some case ∧ case.Ready s.channels ∧
        (∀ j d, j < i → s.cases[j]? = some d → ¬ d.Ready s.channels) ∧
        case.Completes s.channels value case' channels' ∧
        s.execute = (case.failure.elim (.ok (some i)) fun source => .error { index := i, source },
          { cases := s.cases.set i case'
            channels := channels'
            fired := s.fired ++ [⟨i, value, case.failure⟩] }) := by
  rcases fireFirst_spec horderly 0 s.cases with ⟨hnone, hfire⟩ | ⟨before, case, after, value, case',
    channels', hcases, hbefore, hready, hcompletes, hfire⟩
  · refine Or.inl ⟨hnone, ?_⟩
    unfold execute Select.execute
    rw [hfire]
    show (_, ({ s with fired := s.fired ++ [] } : Session α)) = _
    rw [List.append_nil]
    rfl
  · refine Or.inr ⟨before.length, case, value, case', channels', ?_, hready, fun j d hj hd => ?_,
      hcompletes, ?_⟩
    · rw [hcases, List.getElem?_append_right (Nat.le_refl _), Nat.sub_self]
      rfl
    · rw [hcases, List.getElem?_append_left hj] at hd
      exact hbefore d (List.mem_of_getElem? hd)
    · have hset : s.cases.set before.length case' = before ++ case' :: after := by
        rw [hcases, List.set_append_right _ _ (Nat.le_refl _), Nat.sub_self]
        rfl
      unfold execute Select.execute
      rw [hfire, Nat.zero_add, hset]
      cases case.failure <;> rfl

/-! ### What is kept -/

/-- **What is kept throughout a session**, of the cases that it was begun with: the channels are in
order, and a send whose handler was not run still has its value, while it is run only once. -/
structure Kept (cases : List (Case α)) (s : Session α) : Prop where
  orderly : ∀ c ∈ s.channels, c.Orderly
  sends : ∀ i ch v, cases[i]?.map Case.action = some (.send ch (some v)) →
    s.firings i = 0 ∧ s.cases[i]?.map Case.action = some (.send ch (some v)) ∨
      s.firings i = 1 ∧ s.cases[i]?.map Case.action = some (.send ch none)

theorem kept_start (capacities : List Nat) (cases : List (Case α)) :
    Kept cases (start capacities cases) where
  orderly c hc := by
    obtain ⟨n, -, rfl⟩ := List.mem_map.mp hc
    exact Channel.orderly_ofCapacity n
  sends _ _ _ h := Or.inl ⟨rfl, h⟩

/-- A call that completes is a call on one channel. -/
theorem orderly_of_completes {channels channels' : List (Channel α)} {case case' : Case α}
    {value : Option α} (horderly : ∀ c ∈ channels, c.Orderly)
    (h : case.Completes channels value case' channels') : ∀ c ∈ channels', c.Orderly := by
  intro d hd
  cases h with
  | @sent ch v c c' _ hc hsend =>
    have o := horderly c (List.mem_of_getElem? hc)
    rcases List.mem_or_eq_of_mem_set hd with hd | rfl
    · exact horderly d hd
    · have horderly' := (o.perform_effect (.trySend v)).orderly o
      simpa only [Channel.perform, hsend] using horderly'
  | @received ch v c c' _ hc hreceive =>
    have o := horderly c (List.mem_of_getElem? hc)
    rcases List.mem_or_eq_of_mem_set hd with hd | rfl
    · exact horderly d hd
    · have horderly' := (o.perform_effect .tryReceive).orderly o
      simpa only [Channel.perform, hreceive] using horderly'

variable {cases : List (Case α)}

/-- A send that completes had its value, and has none afterwards. -/
theorem spent_of_completes {channels channels' : List (Channel α)} {case case' : Case α}
    {value : Option α} {ch : Nat} {v : Option α} (haction : case.action = .send ch v)
    (h : case.Completes channels value case' channels') :
    v.isSome = true ∧ case'.action = .send ch none := by
  cases h with
  | sent hsend =>
    obtain ⟨rfl, rfl⟩ := Action.send.inj (haction.symm.trans hsend)
    exact ⟨rfl, rfl⟩
  | received hreceive => cases haction.symm.trans hreceive

theorem Kept.execute (k : Kept cases s) : Kept cases s.execute.2 := by
  rcases execute_spec k.orderly with ⟨-, hexecute⟩ | ⟨i, case, value, case', channels', hcase,
    -, -, hcompletes, hexecute⟩
  · rw [hexecute]
    exact k
  · rw [hexecute]
    refine ⟨orderly_of_completes k.orderly hcompletes, fun j ch v hj => ?_⟩
    have hsends := k.sends j ch v hj
    unfold firings at hsends ⊢
    rw [List.countP_append, List.countP_singleton]
    by_cases hij : i = j
    · -- the case was not run before, as it still had its value
      subst hij
      rw [hcase, Option.map_some, Option.some.injEq, Option.some.injEq] at hsends
      rw [List.getElem?_set_self (List.getElem?_eq_some_iff.mp hcase).1]
      rcases hsends with ⟨hnone, haction⟩ | ⟨-, haction⟩
      · refine Or.inr ⟨?_, congrArg some (spent_of_completes haction hcompletes).2⟩
        rw [hnone, if_pos (beq_self_eq_true i)]
      · cases (spent_of_completes haction hcompletes).1
    · rw [List.getElem?_set_ne hij, if_neg (beq_eq_false_iff_ne.mpr hij ▸ Bool.false_ne_true)]
      exact hsends

theorem Kept.step (k : Kept cases s) (move : Move α) : Kept cases (s.step move) := by
  cases move with
  | execute => exact k.execute
  | call ch call =>
    refine ⟨fun c hc => ?_, k.sends⟩
    obtain ⟨n, hn⟩ := List.mem_iff_getElem?.mp hc
    obtain ⟨d, hd, rfl⟩ := Option.map_eq_some_iff.mp (List.getElem?_modify .. ▸ hn)
    have o := k.orderly d (List.mem_of_getElem? hd)
    split_ifs
    · exact (o.perform_effect call).orderly o
    · exact o
  | handlers failure =>
    refine ⟨k.orderly, fun i ch v hi => ?_⟩
    have hsame : (s.step (.handlers failure)).cases[i]?.map Case.action =
        s.cases[i]?.map Case.action := by
      show (s.cases.mapIdx _)[i]?.map _ = _
      rw [List.getElem?_mapIdx, Option.map_map]
      rfl
    rw [hsame]
    exact k.sends i ch v hi

theorem Kept.run (k : Kept cases s) (moves : List (Move α)) : Kept cases (s.run moves) := by
  induction moves generalizing s with
  | nil => exact k
  | cons move rest ih => exact ih (k.step move)

/-- **A select fires the first case that is ready.**  Let a select of any cases be executed any
number of times, among channels on which anybody makes calls in between, and with handlers that
answer in any way.  At any time:

* if some case is ready, an execution carries out the operation of the first such case and nothing
  else, runs the handler of that case, and returns its index, or the index with the error of the
  handler;
* if none is, it returns nothing and changes nothing;
* the handler of a send was run at most once: until then the case has its value, and from then on
  it has none. -/
theorem run_fires_first (capacities : List Nat) (cases : List (Case α)) (moves : List (Move α)) :
    let s := (start capacities cases).run moves
    ((∃ d ∈ s.cases, d.Ready s.channels) →
      ∃ i case value case' channels', s.cases[i]? = some case ∧ case.Ready s.channels ∧
        (∀ j d, j < i → s.cases[j]? = some d → ¬ d.Ready s.channels) ∧
        case.Completes s.channels value case' channels' ∧
        s.execute = (case.failure.elim (.ok (some i)) fun source => .error { index := i, source },
          { cases := s.cases.set i case'
            channels := channels'
            fired := s.fired ++ [⟨i, value, case.failure⟩] })) ∧
      ((∀ d ∈ s.cases, ¬ d.Ready s.channels) → s.execute = (.ok none, s)) ∧
      ∀ i ch v, cases[i]?.map Case.action = some (.send ch (some v)) →
        s.firings i = 0 ∧ s.cases[i]?.map Case.action = some (.send ch (some v)) ∨
          s.firings i = 1 ∧ s.cases[i]?.map Case.action = some (.send ch none) := by
  intro s
  have k : Kept cases s := (kept_start capacities cases).run moves
  refine ⟨?_, ?_, k.sends⟩
  · rintro ⟨d, hd, hready⟩
    rcases execute_spec k.orderly with ⟨hnone, -⟩ | hfires
    · exact absurd hready (hnone d hd)
    · exact hfires
  · intro hnone
    rcases execute_spec k.orderly with ⟨-, hexecute⟩ | ⟨i, case, _, _, _, hcase, hready, -⟩
    · exact hexecute
    · exact absurd hready (hnone case (List.mem_of_getElem? hcase))

/-- Nobody sends on channel 0, so the value is sent on channel 1, though the handler of that case
fails.  After that nothing is ready. -/
example :
    let s := start [0, 1] [⟨.recv 0, none⟩, ⟨.send 1 (some 7), some ["broken"]⟩]
    s.execute.1 = .error ⟨1, ["broken"]⟩ ∧ s.execute.2.execute = (.ok none, s.execute.2) :=
  ⟨rfl, rfl⟩

end Session

end Select

end ManagedHost
