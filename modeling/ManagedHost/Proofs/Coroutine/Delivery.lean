import ManagedHost.Proofs.Coroutine.Session

/-!
# What a coroutine delivers

* `Recorded` is what the state of a stream has to do with its events: the values consumed and those
  in the queue are the values yielded, and each event is right for those before it.
* `Session.Attended` is what is known of the parties: whoever is asleep has a reason, and once a
  cancel has returned no yield holds the queue and none is asleep.

Each move keeps both (`Session.Sound.step`).  The main result is `Session.run_delivers`.
-/

namespace ManagedHost

namespace YieldStream

variable {α : Type}

/-! ### What the state has to do with the events -/

/-- **The account is kept**: the values consumed and those in the queue are the values yielded, the
queue is within its bound, and each event is right. -/
structure Recorded (bound : Option Nat) (k : Account α) : Prop where
  bound_eq : k.stream.bound = bound
  room : ∀ n, bound = some n → k.stream.values.length ≤ n
  ledger : consumedIn k.trace ++ k.stream.values = yieldedIn k.trace
  endings : endingsIn k.trace = k.ending.toList
  done : k.stream.done = k.ending.isSome
  result : ∀ r, k.result = some r → k.ending.map Ending.result = some r
  signalled : k.stream.cancelled = true ↔ .signalled ∈ k.trace
  explained : Explained bound k.trace

/-- The event neither moves a value nor ends the producer nor signals. -/
def Event.IsQuiet (e : Event α) : Prop :=
  e.yielded? = none ∧ e.got? = none ∧ e.finished? = none ∧ e ≠ .signalled

namespace Recorded

variable {bound : Option Nat} {k : Account α}

theorem start (capacity : Option Nat) :
    Recorded (capacity.map (max · 1)) (Session.start capacity : Session α).toAccount where
  bound_eq := rfl
  room _ _ := Nat.zero_le _
  ledger := rfl
  endings := rfl
  done := rfl
  result _ h := absurd h (by simp [Session.start])
  signalled := by simp [Session.start, ofCapacity]
  explained _ _ _ h := absurd h (by simp [Session.start])

/-- Everything is consumed exactly if the queue is empty. -/
theorem consumed_iff (r : Recorded bound k) :
    consumedIn k.trace = yieldedIn k.trace ↔ k.stream.values = [] := by
  rw [← r.ledger]
  simp

/-- The producer has ended exactly if the stream says so. -/
theorem ended_iff (r : Recorded bound k) : endingsIn k.trace ≠ [] ↔ k.stream.done = true := by
  rw [r.endings, r.done]
  cases k.ending <;> simp

theorem finished_iff (r : Recorded bound k) : k.stream.isFinished = true ↔
    endingsIn k.trace ≠ [] ∧ consumedIn k.trace = yieldedIn k.trace := by
  rw [r.ended_iff, r.consumed_iff, isFinished, Bool.and_eq_true, List.isEmpty_iff]

/-- An event that only tells somebody something. -/
theorem note (r : Recorded bound k) {e : Event α} (quiet : e.IsQuiet)
    (answers : Answers bound k.trace e) : Recorded bound (k.note e) := by
  obtain ⟨hyielded, hgot, hfinished, hsignalled⟩ := quiet
  refine
    { bound_eq := r.bound_eq, room := r.room, ledger := ?ledger, endings := ?endings,
      done := r.done, result := r.result, signalled := ?signalled,
      explained := r.explained.concat answers }
  case ledger =>
    show consumedIn (k.trace ++ [e]) ++ k.stream.values = yieldedIn (k.trace ++ [e])
    rw [consumedIn_concat, yieldedIn_concat, hyielded, hgot]
    simpa using r.ledger
  case endings =>
    show endingsIn (k.trace ++ [e]) = k.ending.toList
    rw [endingsIn_concat, hfinished]
    simpa using r.endings
  case signalled =>
    show k.stream.cancelled = true ↔ .signalled ∈ k.trace ++ [e]
    rw [r.signalled, List.mem_append, List.mem_singleton]
    simp [Ne.symm hsignalled]

theorem signal (r : Recorded bound k) :
    Recorded bound ({ k with stream := k.stream.cancel }.note .signalled) := by
  refine
    { bound_eq := r.bound_eq, room := r.room, ledger := ?ledger, endings := ?endings,
      done := r.done, result := r.result, signalled := ?signalled,
      explained := r.explained.concat trivial }
  case ledger =>
    show consumedIn (k.trace ++ [Event.signalled]) ++ k.stream.values =
      yieldedIn (k.trace ++ [Event.signalled])
    rw [consumedIn_concat, yieldedIn_concat]
    simpa [Event.got?, Event.yielded?] using r.ledger
  case endings =>
    show endingsIn (k.trace ++ [Event.signalled]) = k.ending.toList
    rw [endingsIn_concat]
    simpa [Event.finished?] using r.endings
  case signalled => simp [Account.note, cancel]

/-- **A value enters the queue**, which has room for it. -/
theorem push (r : Recorded bound k) {c : Nat} {v : α} (hfull : k.stream.isFull = false)
    (hopen : ∀ c', .cancelled c' ∉ k.trace) :
    Recorded bound ({ k with
      stream := { k.stream with values := k.stream.values ++ [v] } }.note (.yielded c v)) := by
  have hroom : ∀ n, bound = some n → k.stream.values.length < n := by
    rw [← r.bound_eq]
    exact isFull_eq_false.mp hfull
  have hanswers : Answers bound k.trace (.yielded c v) := by
    refine ⟨hopen, fun n hn => ?_⟩
    have hlength := congrArg List.length r.ledger
    rw [List.length_append] at hlength
    have hlt := hroom n hn
    omega
  refine
    { bound_eq := r.bound_eq, room := ?room, ledger := ?ledger, endings := ?endings, done := r.done,
      result := r.result, signalled := ?signalled, explained := r.explained.concat hanswers }
  case room =>
    intro n hn
    show (k.stream.values ++ [v]).length ≤ n
    rw [List.length_append]
    exact hroom n hn
  case ledger =>
    show consumedIn (k.trace ++ [Event.yielded c v]) ++ (k.stream.values ++ [v]) =
      yieldedIn (k.trace ++ [Event.yielded c v])
    rw [consumedIn_concat, yieldedIn_concat, ← r.ledger]
    simp [Event.got?, Event.yielded?]
  case endings =>
    show endingsIn (k.trace ++ [Event.yielded c v]) = k.ending.toList
    rw [endingsIn_concat]
    simpa [Event.finished?] using r.endings
  case signalled => simpa [Account.note] using r.signalled

/-- **The oldest value is consumed.** -/
theorem pop (r : Recorded bound k) {c : Nat} {v : α} {rest : List α}
    (hvalues : k.stream.values = v :: rest) :
    Recorded bound ({ k with stream := { k.stream with values := rest } }.note (.got c v)) := by
  have hanswers : Answers bound k.trace (.got c v) := by
    refine ⟨rest, ?_⟩
    rw [← r.ledger, hvalues]
    simp
  refine
    { bound_eq := r.bound_eq, room := ?room, ledger := ?ledger, endings := ?endings, done := r.done,
      result := r.result, signalled := ?signalled, explained := r.explained.concat hanswers }
  case room =>
    intro n hn
    have hle := r.room n hn
    rw [hvalues, List.length_cons] at hle
    exact Nat.le_of_succ_le hle
  case ledger =>
    show consumedIn (k.trace ++ [Event.got c v]) ++ rest = yieldedIn (k.trace ++ [Event.got c v])
    rw [consumedIn_concat, yieldedIn_concat, ← r.ledger, hvalues]
    simp [Event.got?, Event.yielded?]
  case endings =>
    show endingsIn (k.trace ++ [Event.got c v]) = k.ending.toList
    rw [endingsIn_concat]
    simpa [Event.finished?] using r.endings
  case signalled => simpa [Account.note] using r.signalled

/-- **The producer ends**, once. -/
theorem finish (r : Recorded bound k) (hending : k.ending = none) (ending : Ending) :
    Recorded bound ({ k with stream := k.stream.finish, ending := some ending }.note
      (.finished ending)) := by
  have hnone : endingsIn k.trace = [] := by rw [r.endings, hending, Option.toList_none]
  refine
    { bound_eq := r.bound_eq, room := r.room, ledger := ?ledger, endings := ?endings, done := rfl,
      result := ?result, signalled := ?signalled, explained := r.explained.concat hnone }
  case ledger =>
    show consumedIn (k.trace ++ [Event.finished ending]) ++ k.stream.values =
      yieldedIn (k.trace ++ [Event.finished ending])
    rw [consumedIn_concat, yieldedIn_concat]
    simpa [Event.got?, Event.yielded?] using r.ledger
  case endings =>
    show endingsIn (k.trace ++ [Event.finished ending]) = [ending]
    rw [endingsIn_concat, hnone]
    rfl
  case result =>
    -- no result can have been published before
    intro result hresult
    have hpublished := r.result result hresult
    rw [hending] at hpublished
    cases hpublished
  case signalled => simpa [Account.note, YieldStream.finish] using r.signalled

theorem publish (r : Recorded bound k) :
    Recorded bound { k with result := k.ending.map Ending.result } :=
  ⟨r.bound_eq, r.room, r.ledger, r.endings, r.done, fun _ h => h, r.signalled, r.explained⟩

end Recorded

/-! ### Who is asleep -/

namespace Session

/-- The state of a pending call has a reason.  A yield sleeps while the queue is full, and a read
while there is nothing to see, or a notification is to come.  A cancel never sleeps, and has
signalled already. -/
def Justified (s : Session α) : Pending α → Prop
  | ⟨.yield _, asleep⟩ => asleep = true → s.stream.isFull = true ∨ 0 < s.owed
  | ⟨.next, asleep⟩ => asleep = true →
      (s.stream.values = [] ∧ s.stream.done = false) ∨ 0 < s.owed
  | ⟨.cancel, asleep⟩ => asleep = false ∧ s.stream.cancelled = true

/-- Once a cancel has returned, no yield holds the queue and none is asleep. -/
def Quelled (s : Session α) : Prop :=
  s.stream.cancelled = true ∧ s.holder = none ∧ ∀ c v, s.pending c ≠ some ⟨.yield v, true⟩

/-- **Nobody is forgotten.** -/
structure Attended (s : Session α) : Prop where
  justified : ∀ c p, s.pending c = some p → s.Justified p
  quelled : ∀ c, .cancelled c ∈ s.trace → s.Quelled

section Attending

variable {s s' : Session α}

theorem pending_place (s : Session α) (c c' : Nat) (p : Option (Pending α)) :
    (s.place c p).pending c' = if c' = c then p else s.pending c' :=
  Function.update_apply _ _ _ _

theorem pending_wakeAll {c : Nat} {p : Pending α} (hp : s.wakeAll.pending c = some p) :
    p.asleep = false ∧ ∃ asleep, s.pending c = some ⟨p.call, asleep⟩ := by
  obtain ⟨q, hq, rfl⟩ := Option.map_eq_some_iff.mp hp
  exact ⟨rfl, q.asleep, hq⟩

/-- Reasons that hold where the queue is as it was hold still. -/
theorem Justified.of_stream {p : Pending α} (j : s.Justified p)
    (hbound : s'.stream.bound = s.stream.bound) (hvalues : s'.stream.values = s.stream.values)
    (hdone : s'.stream.done = s.stream.done)
    (hcancelled : s.stream.cancelled = true → s'.stream.cancelled = true)
    (howed : s'.owed = s.owed) : s'.Justified p := by
  have hfull : s'.stream.isFull = s.stream.isFull := by
    unfold isFull
    rw [hbound, hvalues]
  obtain ⟨call, asleep⟩ := p
  cases call with
  | yield v =>
    intro hasleep
    rw [hfull, howed]
    exact j hasleep
  | next =>
    intro hasleep
    rw [hvalues, hdone, howed]
    exact j hasleep
  | cancel => exact ⟨j.1, hcancelled j.2⟩

/-- Whoever is awake needs no reason, but that a cancel has signalled. -/
theorem justified_awake {call : Call α} (hcancel : call = .cancel → s.stream.cancelled = true) :
    s.Justified ⟨call, false⟩ := by
  cases call with
  | yield v => exact fun h => absurd h (by decide)
  | next => exact fun h => absurd h (by decide)
  | cancel => exact ⟨rfl, hcancel rfl⟩

theorem Justified.cancelled {asleep : Bool} (j : s.Justified ⟨.cancel, asleep⟩) :
    s.stream.cancelled = true := j.2

/-- While a notification is to come, everybody may be asleep. -/
theorem Justified.of_owed {p : Pending α} (j : s.Justified p) (howed : 0 < s'.owed)
    (hcancelled : s'.stream.cancelled = s.stream.cancelled) : s'.Justified p := by
  obtain ⟨call, asleep⟩ := p
  cases call with
  | yield v => exact fun _ => Or.inr howed
  | next => exact fun _ => Or.inr howed
  | cancel => exact ⟨j.1, hcancelled ▸ j.2⟩

namespace Attended

theorem start (capacity : Option Nat) : (Session.start capacity : Session α).Attended where
  justified _ _ h := absurd h (by simp [Session.start])
  quelled _ h := absurd h (by simp [Session.start])

/-- An event, unless a cancel returns with it. -/
theorem note (a : s.Attended) {e : Event α} (he : ∀ c, e ≠ .cancelled c) :
    (s.note e).Attended where
  justified := a.justified
  quelled c hc := by
    have hmem : .cancelled c ∈ s.trace ++ [e] := hc
    rcases List.mem_append.mp hmem with hmem | hmem
    · exact a.quelled c hmem
    · exact absurd (List.mem_singleton.mp hmem).symm (he c)

/-- A call that begins, goes to sleep, wakes up or returns. -/
theorem place (a : s.Attended) {c : Nat} {p : Option (Pending α)}
    (hp : ∀ q, p = some q → s.Justified q)
    (hyield : ∀ c', .cancelled c' ∈ s.trace → ∀ v, p ≠ some ⟨.yield v, true⟩) :
    (s.place c p).Attended where
  justified c' q hq := by
    rw [pending_place] at hq
    split_ifs at hq with hc
    · exact hp q hq
    · exact a.justified c' q hq
  quelled c' hc' := by
    have hold := a.quelled c' hc'
    refine ⟨hold.1, hold.2.1, fun c'' v => ?_⟩
    rw [pending_place]
    split_ifs
    · exact hyield c' hc' v
    · exact hold.2.2 c'' v

theorem place_none (a : s.Attended) (c : Nat) : (s.place c none).Attended :=
  a.place nofun nofun

theorem place_awake (a : s.Attended) (c : Nat) {call : Call α}
    (hcancel : call = .cancel → s.stream.cancelled = true) :
    (s.place c (some ⟨call, false⟩)).Attended := by
  refine a.place (fun q hq => ?_) fun _ _ v h => ?_
  · obtain rfl := Option.some.inj hq
    exact justified_awake hcancel
  · simp at h

/-- **Whatever was done to the queue, if everybody is woken nobody is forgotten.** -/
theorem wakeAll (a : s.Attended) (hpending : ∀ c p, s'.pending c = some p → s.pending c = some p)
    (hcancelled : s'.stream.cancelled = s.stream.cancelled)
    (hholder : s.Quelled → s'.holder = none) (htrace : s'.trace = s.trace) :
    s'.wakeAll.Attended := by
  have hold : ∀ {c : Nat} {p : Pending α}, s'.wakeAll.pending c = some p →
      p.asleep = false ∧ ∃ asleep, s.pending c = some ⟨p.call, asleep⟩ := by
    intro c p hp
    obtain ⟨hawake, asleep, hs'⟩ := pending_wakeAll hp
    exact ⟨hawake, asleep, hpending c _ hs'⟩
  refine ⟨fun c p hp => ?_, fun c hc => ?_⟩
  · obtain ⟨hawake, asleep, hs⟩ := hold hp
    obtain ⟨call, _⟩ := p
    obtain rfl : _ = false := hawake
    refine justified_awake fun hcall => ?_
    subst hcall
    exact hcancelled.trans (a.justified c _ hs).cancelled
  · have hquelled := a.quelled c (htrace ▸ hc)
    refine ⟨hcancelled.trans hquelled.1, hholder hquelled, fun c' v hp => ?_⟩
    exact absurd (hold hp).1 (by simp)

/-- More notifications that are to come. -/
theorem owe (a : s.Attended) (hpending : s'.pending = s.pending) (howed : 0 < s'.owed)
    (hcancelled : s'.stream.cancelled = s.stream.cancelled) (hholder : s'.holder = s.holder)
    (htrace : s'.trace = s.trace) : s'.Attended where
  justified c p hp := (a.justified c p (hpending ▸ hp)).of_owed howed hcancelled
  quelled c hc := by
    obtain ⟨hquelled, hfree, hasleep⟩ := a.quelled c (htrace ▸ hc)
    exact ⟨hcancelled.trans hquelled, hholder.trans hfree, fun c' v => hpending ▸ hasleep c' v⟩

theorem signal (a : s.Attended) : s.signal.Attended := by
  have hsame : Session.Attended { s with stream := s.stream.cancel } := by
    refine ⟨fun c p hp => ?_, fun c hc => ?_⟩
    · exact (a.justified c p hp).of_stream rfl rfl rfl (fun _ => rfl) rfl
    · exact ⟨rfl, (a.quelled c hc).2⟩
  exact hsame.note nofun

end Attended

end Attending

/-! ### Every move -/

/-- The account is kept, and nobody is forgotten. -/
structure Sound (bound : Option Nat) (s : Session α) : Prop where
  recorded : Recorded bound s.toAccount
  attended : s.Attended

namespace Sound

variable {bound : Option Nat} {s : Session α}

theorem signal (w : s.Sound bound) : s.signal.Sound bound :=
  ⟨w.recorded.signal, w.attended.signal⟩

theorem begin (w : s.Sound bound) (c : Nat) (call : Call α) : (s.begin c call).Sound bound := by
  unfold Session.begin
  split_ifs
  · exact w
  · cases call with
    | yield v => exact ⟨w.recorded, w.attended.place_awake c nofun⟩
    | next => exact ⟨w.recorded, w.attended.place_awake c nofun⟩
    | cancel => exact ⟨w.signal.recorded, w.signal.attended.place_awake c fun _ => rfl⟩

theorem enterYield (w : s.Sound bound) (c : Nat) (v : α) : (s.enterYield c v).Sound bound := by
  unfold Session.enterYield
  split_ifs with hcancelled
  · have hanswers : Answers bound s.trace (.refused c v .cancelled) :=
      ⟨rfl, w.recorded.signalled.mp hcancelled⟩
    exact ⟨w.recorded.note ⟨rfl, rfl, rfl, nofun⟩ hanswers,
      (w.attended.place_none c).note nofun⟩
  · -- no cancel has returned, so a yield may hold the queue
    refine ⟨w.recorded, (w.attended.place_none c).justified, fun c' hc' => ?_⟩
    exact absurd (w.attended.quelled c' hc').1 hcancelled

theorem enterNext (w : s.Sound bound) (c : Nat) : (s.enterNext c).Sound bound := by
  unfold Session.enterNext YieldStream.pop
  cases hvalues : s.stream.values with
  | cons v rest =>
    refine ⟨w.recorded.pop hvalues, Attended.note ?_ nofun⟩
    refine Attended.wakeAll (w.attended.place_none c) (fun _ _ h => h) rfl (fun q => q.2.1) rfl
  | nil =>
    dsimp only
    cases hdone : s.stream.done with
    | true =>
      have hanswers : Answers bound s.trace (.ended c) :=
        ⟨w.recorded.ended_iff.mpr hdone, w.recorded.consumed_iff.mpr hvalues⟩
      exact ⟨w.recorded.note ⟨rfl, rfl, rfl, nofun⟩ hanswers,
        (w.attended.place_none c).note nofun⟩
    | false =>
      refine ⟨w.recorded, w.attended.place (fun q hq => ?_) nofun⟩
      obtain rfl := Option.some.inj hq
      exact fun _ => Or.inl ⟨hvalues, hdone⟩

theorem enterCancel (w : s.Sound bound) (c : Nat) (hfree : s.holder = none)
    (hcancelled : s.stream.cancelled = true) : (s.enterCancel c).Sound bound := by
  have hanswers : Answers bound s.trace (.cancelled c) := w.recorded.signalled.mp hcancelled
  refine ⟨w.recorded.note ⟨rfl, rfl, rfl, nofun⟩ hanswers, ?_, ?_⟩
  · exact ((w.attended.place_none c).wakeAll (fun _ _ h => h) rfl (fun q => q.2.1) rfl).justified
  · intro _ _
    exact ⟨hcancelled, hfree, fun c' v hp => absurd (pending_wakeAll hp).1 (by simp)⟩

theorem enter (w : s.Sound bound) (c : Nat) : (s.enter c).Sound bound := by
  unfold Session.enter
  split
  · exact w.enterYield c _
  · exact w.enterNext c
  · next hfree hpending =>
    exact w.enterCancel c hfree (w.attended.justified c _ hpending).cancelled
  · exact w

theorem commit (w : s.Sound bound) : s.commit.Sound bound := by
  unfold Session.commit
  split
  · exact w
  · next c v hholder =>
    -- a yield holds the queue, so no cancel has returned
    have hopen : ¬ s.Quelled := by
      rintro ⟨-, hfree, -⟩
      rw [hholder] at hfree
      cases hfree
    unfold put
    cases hfull : s.stream.isFull with
    | false =>
      have hnone : ∀ c', .cancelled c' ∉ s.trace := fun c' hc' => hopen (w.attended.quelled c' hc')
      refine ⟨w.recorded.push hfull hnone, Attended.note ?_ nofun⟩
      exact w.attended.wakeAll (fun _ _ h => h) rfl (fun q => absurd q hopen) rfl
    | true =>
      have hreleased : Session.Attended { s with holder := none } :=
        ⟨w.attended.justified, fun c' hc' => absurd (w.attended.quelled c' hc') hopen⟩
      refine ⟨w.recorded, hreleased.place (fun q hq => ?_) fun c' hc' => ?_⟩
      · obtain rfl := Option.some.inj hq
        exact fun _ => Or.inl hfull
      · exact absurd (w.attended.quelled c' hc') hopen

theorem tryNext (w : s.Sound bound) (c : Nat) : (s.tryNext c).Sound bound := by
  unfold Session.tryNext tryPop
  cases hvalues : s.stream.values with
  | cons v rest =>
    refine ⟨w.recorded.pop hvalues, Attended.note ?_ nofun⟩
    exact w.attended.owe rfl (Nat.succ_pos _) rfl rfl rfl
  | nil =>
    have hanswers : Answers bound s.trace (.nothing c) := w.recorded.consumed_iff.mpr hvalues
    exact ⟨w.recorded.note ⟨rfl, rfl, rfl, nofun⟩ hanswers, w.attended.note nofun⟩

theorem notify (w : s.Sound bound) : s.notify.Sound bound := by
  unfold Session.notify
  split_ifs
  · exact w
  · exact ⟨w.recorded, w.attended.wakeAll (fun _ _ h => h) rfl (fun q => q.2.1) rfl⟩

theorem wake (w : s.Sound bound) (c : Nat) :
    (s.place c ((s.pending c).map fun p => { p with asleep := false })).Sound bound := by
  refine ⟨w.recorded, w.attended.place (fun q hq => ?_) fun c' hc' v hq => ?_⟩
  · obtain ⟨p, hp, rfl⟩ := Option.map_eq_some_iff.mp hq
    obtain ⟨call, asleep⟩ := p
    refine justified_awake fun hcall => ?_
    subst hcall
    exact (w.attended.justified c _ hp).cancelled
  · obtain ⟨p, -, hp⟩ := Option.map_eq_some_iff.mp hq
    simp at hp

theorem finish (w : s.Sound bound) (ending : Ending) : (s.finish ending).Sound bound := by
  unfold Session.finish
  split_ifs with hended
  · exact w
  · have hnone : s.ending = none := Option.not_isSome_iff_eq_none.mp hended
    refine ⟨w.recorded.finish hnone ending, Attended.note ?_ nofun⟩
    exact w.attended.owe rfl (Nat.succ_pos _) rfl rfl rfl

theorem publish (w : s.Sound bound) :
    Session.Sound bound { s with result := s.ending.map Ending.result } :=
  ⟨w.recorded.publish, w.attended.justified, w.attended.quelled⟩

theorem poll (w : s.Sound bound) : (s.note (.polled s.stream.isFinished)).Sound bound :=
  ⟨w.recorded.note ⟨rfl, rfl, rfl, nofun⟩ w.recorded.finished_iff, w.attended.note nofun⟩

theorem wait (w : s.Sound bound) : s.wait.Sound bound := by
  unfold Session.wait
  split
  · next result hresult =>
    obtain ⟨ending, hending, rfl⟩ := Option.map_eq_some_iff.mp (w.recorded.result result hresult)
    have hanswers : Answers bound s.trace (.waited ending.result) := by
      refine ⟨ending, ?_, rfl⟩
      rw [w.recorded.endings, hending, Option.toList_some]
    exact ⟨w.recorded.note ⟨rfl, rfl, rfl, nofun⟩ hanswers, w.attended.note nofun⟩
  · exact w

/-- **Every move keeps the account and forgets nobody.** -/
theorem step (w : s.Sound bound) (move : Move α) : (s.step move).Sound bound := by
  cases move with
  | begin c call => exact w.begin c call
  | enter c => exact w.enter c
  | commit => exact w.commit
  | tryNext c =>
    unfold Session.step
    split_ifs
    · exact w
    · exact w.tryNext c
  | notify => exact w.notify
  | wake c => exact w.wake c
  | signal => exact w.signal
  | finish ending =>
    unfold Session.step
    split_ifs
    · exact w
    · exact w.finish ending
  | publish => exact w.publish
  | poll =>
    unfold Session.step
    split_ifs
    · exact w
    · exact w.poll
  | wait => exact w.wait

theorem run (w : s.Sound bound) (moves : List (Move α)) : (s.run moves).Sound bound := by
  induction moves generalizing s with
  | nil => exact w
  | cons move rest ih => exact ih (w.step move)

end Sound

theorem sound_start (capacity : Option Nat) :
    (start capacity : Session α).Sound (capacity.map (max · 1)) :=
  ⟨Recorded.start capacity, Attended.start capacity⟩

/-! ### All runs -/

/-- Once a cancel has returned, a yield that is under way is refused. -/
theorem Quelled.enter_yield {s : Session α} (q : s.Quelled) {c : Nat} {v : α} {asleep : Bool}
    (hp : s.pending c = some ⟨.yield v, asleep⟩) :
    s.step (.enter c) = (s.place c none).note (.refused c v .cancelled) := by
  obtain ⟨hcancelled, hfree, hawake⟩ := q
  cases asleep with
  | true => exact absurd hp (hawake c v)
  | false =>
    show s.enter c = _
    unfold Session.enter
    rw [hfree, hp]
    exact if_pos hcancelled

/-- Once a cancel has returned, the oldest value in the queue is there to be taken. -/
theorem Quelled.tryNext_cons {s : Session α} (q : s.Quelled) (c : Nat) {v : α} {rest : List α}
    (hvalues : s.stream.values = v :: rest) :
    (s.step (.tryNext c)).trace = s.trace ++ [Event.got c v] := by
  have hfree : s.holder.isSome = false := by rw [q.2.1, Option.isSome_none]
  unfold step
  rw [hfree]
  show (s.tryNext c).trace = _
  unfold tryNext tryPop
  rw [hvalues]
  rfl

/-- When the producer has ended and its result is published, waiting for it gives that result. -/
theorem wait_of_finished {bound : Option Nat} {s : Session α} (r : Recorded bound s.toAccount)
    {ending : Ending} (hmem : .finished ending ∈ s.trace) :
    ((s.step .publish).step .wait).trace = s.trace ++ [Event.waited ending.result] := by
  have hin : ending ∈ endingsIn s.trace := List.mem_filterMap.mpr ⟨_, hmem, rfl⟩
  have hending : s.ending = some ending := by
    rw [r.endings, Option.mem_toList] at hin
    exact hin
  show (Session.wait { s with result := s.ending.map Ending.result }).trace = _
  rw [hending]
  rfl

/-- **What a coroutine delivers**, for any bound of its queue and whatever its parties do in
whatever order:

* the values consumed, followed by those in the queue, are the values whose yields succeeded;
* the queue is within its bound;
* every event is right for those before it: no yield succeeds once a cancel has returned, a refused
  one says that it was cancelled, the end is told only when the producer has ended and all is
  consumed, that the stream is done exactly then, and the result is the producer's own;
* the stream is done exactly when its producer has ended and all is consumed;
* whoever is asleep has a reason to be;
* once a cancel has returned, a yield that is under way is refused and leaves the queue alone, while
  the values in the queue can still be consumed;
* once the producer has ended, its result can be had. -/
theorem run_delivers (capacity : Option Nat) (moves : List (Move α)) :
    let s := (start capacity : Session α).run moves
    consumedIn s.trace ++ s.stream.values = yieldedIn s.trace ∧
      (∀ n, capacity = some n → s.stream.values.length ≤ max n 1) ∧
      Explained (capacity.map (max · 1)) s.trace ∧
      (s.stream.isFinished = true ↔
        endingsIn s.trace ≠ [] ∧ consumedIn s.trace = yieldedIn s.trace) ∧
      (∀ c p, s.pending c = some p → s.Justified p) ∧
      ((∃ c, .cancelled c ∈ s.trace) →
        (∀ c v asleep, s.pending c = some ⟨.yield v, asleep⟩ →
          s.step (.enter c) = (s.place c none).note (.refused c v .cancelled)) ∧
        ∀ c v rest, s.stream.values = v :: rest →
          (s.step (.tryNext c)).trace = s.trace ++ [Event.got c v]) ∧
      ∀ ending, .finished ending ∈ s.trace →
        ((s.step .publish).step .wait).trace = s.trace ++ [Event.waited ending.result] := by
  intro s
  have w : s.Sound (capacity.map (max · 1)) := (sound_start capacity).run moves
  refine ⟨w.recorded.ledger, ?_, w.recorded.explained, w.recorded.finished_iff,
    w.attended.justified, ?_, ?_⟩
  · intro n hn
    refine w.recorded.room _ ?_
    rw [hn, Option.map_some]
  · rintro ⟨c, hc⟩
    have hquelled := w.attended.quelled c hc
    exact ⟨fun c' v asleep hp => hquelled.enter_yield hp,
      fun c' v rest hvalues => hquelled.tryNext_cons c' hvalues⟩
  · intro ending hending
    exact wait_of_finished w.recorded hending

-- a bound of zero counts as one, and the second yield is asleep when the stream is cancelled
example : ((start (some 0)).run [.begin 0 (.yield 7), .enter 0, .commit, .begin 0 (.yield 8),
    .enter 0, .commit, .begin 1 .cancel, .enter 1, .enter 0, .tryNext 1]).trace =
      [.yielded 0 7, .signalled, .cancelled 1, .refused 0 8 .cancelled, .got 1 7] := rfl

end Session

end YieldStream

end ManagedHost
