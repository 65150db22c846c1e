import ManagedHost.Proofs.Loop.Batches
import ManagedHost.Proofs.Loop.Family

/-!
# Who is at a task's body

When a task is started, one strand takes its body and works through it to the settlement at its end.
`Machine.exec_bodies` says for all instructions what carrying one out leaves behind of bodies and of
attempts to settle tasks (`BodyEffect`).

From this follows, for every run, that no two strands are at one body (`Reaches.borne`), who
attempts to settle a task and why, and that a step leaves the body of a task where it is until it
is taken (`Borne.furnished_turn`).
-/

namespace ManagedHost

variable {α : Type}

namespace Instr

/-- The task whose body the instruction is part of. -/
def bearer? : Instr α → Option TaskId
  | enter t | perform t _ _ | andThen t _ _ _ | orElse t _ _ _ | awaitPromise t _
  | awaitAll t _ _ _ | awaitAny t _ | settle t .running _ .run => some t
  | _ => none

/-- The task whose body is about to be taken. -/
def enter? : Instr α → Option TaskId
  | enter t => some t
  | _ => none

/-- Whether the instruction has nothing to do with bodies and with settling. -/
def isAloof : Instr α → Bool
  | settle _ _ _ _ | dropBody _ => false
  | j => j.bearer?.isNone

theorem bearer?_eq_some {j : Instr α} {t : TaskId} : j.bearer? = some t ↔ j.Bears t := by
  cases j with
  | settle k old r mode => cases old <;> cases mode <;> simp [bearer?, Bears]
  | _ => simp [bearer?, Bears]

theorem bearer?_of_isAloof {j : Instr α} (h : j.isAloof = true) : j.bearer? = none := by
  cases j with
  | settle => cases h
  | dropBody => rfl
  | _ => first | rfl | cases h

theorem bearer?_of_enter? {j : Instr α} {t : TaskId} (h : j.enter? = some t) :
    j.bearer? = some t := by
  cases j with
  | enter => exact h
  | _ => cases h

theorem IsCall.isAloof {j : Instr α} (h : j.IsCall) : j.isAloof = true := by
  cases j with
  | settle => exact h.elim
  | dropBody => exact h.elim
  | enter => exact h.elim
  | perform => exact h.elim
  | andThen => exact h.elim
  | orElse => exact h.elim
  | awaitPromise => exact h.elim
  | awaitAll => exact h.elim
  | awaitAny => exact h.elim
  | _ => rfl

end Instr

/-! ### Effects -/

/-- **What an instruction leaves behind** of bodies and of attempts to settle tasks; `m'` is the
machine afterwards. -/
inductive BodyEffect (m m' : Machine α) : Instr α → List (Instr α) → Prop where
  | aside {i : Instr α} {code : List (Instr α)} (hi : i.bearer? = none)
      (hcode : code.all Instr.isAloof = true) : BodyEffect m m' i code
  | started {t : TaskId} (hpending : m.state t = .pending) (hrunning : m'.state t = .running) :
      BodyEffect m m' (.start t) [.enter t]
  | missing {t : TaskId} (hnone : m.tasks[t]? = none) : BodyEffect m m' (.enter t) []
  /-- A body goes on, perhaps after something else. -/
  | passed {t : TaskId} {i j : Instr α} {code : List (Instr α)} (hi : i.bearer? = some t)
      (hj : j.bearer? = some t) (henter : j.enter? = none)
      (hsettle : ∀ k old r mode, j ≠ .settle k old r mode) (hcode : code.all Instr.isAloof = true) :
      BodyEffect m m' i (code ++ [j])
  | concluded {t : TaskId} {i : Instr α} {r : TaskResult α} (hi : i.bearer? = some t) :
      BodyEffect m m' i [.settle t .running r .run]
  | settled {t : TaskId} {old : TaskState} {r : TaskResult α} {mode : SettleMode}
      {code : List (Instr α)} (hcode : ∀ j ∈ code, j.isAloof = true ∨
        j = .dropBody t ∧ (m'.state t).isTerminal = true) :
      BodyEffect m m' (.settle t old r mode) code
  | cancelling {t : TaskId} :
      BodyEffect m m' (.cancel t) [.settle t (m.state t) (.error .cancelled) .cancel]
  | failing {t : TaskId} {e : TaskError} :
      BodyEffect m m' (.fail t e) [.settle t .pending (.error e) .fail]

namespace Machine

variable {m m' : Machine α} {t : TaskId} {self : Nat} {heedStop : Bool} {i j : Instr α}
  {code : List (Instr α)}

/-- What the instruction leaves behind if it need not wait. -/
def Bequeaths (m : Machine α) (i : Instr α) (result : Option (Machine α × List (Instr α))) : Prop :=
  ∀ m' code, result = some (m', code) → BodyEffect m m' i code

theorem Rule.bequeaths (h : m.Rule heedStop self i m' code) : BodyEffect m m' i code := by
  -- a script goes on after something else
  have hafter : ∀ {t actions rest} {ending : Ending α} {j : Instr α}, j.isAloof = true →
      BodyEffect m m' (.perform t actions ending) [j, .perform t rest ending] := by
    intro t actions rest ending j hj
    have hfirst : [j].all Instr.isAloof = true := by simp [hj]
    exact .passed (j := .perform t rest ending) rfl rfl rfl nofun hfirst
  have hnone : ([] : List (Instr α)).all Instr.isAloof = true := rfl
  cases h with
  | start hc hpending =>
    refine .started ((cell_eq hc).1.trans hpending) ?_
    rw [(cell_eq (getElem?_modify_self hc _)).1]
  | enterNone hnone => exact .missing hnone
  | enterMissing | scriptEnd | handleMissing | andThen | andThenError | orElse | orElseValue
  | promiseMessage | promiseToken | promiseClosed | allDone | allError | raceWon | raceToken
  | raceEmpty => exact .concluded rfl
  | enterScript | enterAndThen | enterOrElse | enterPromise | enterAll | enterRace | note
  | noteToken | noteState | signalSelf | waitToken | allNext =>
    exact .passed rfl rfl rfl (by simp) hnone
  | cancelHandle | runHandle | gate | stopFromWithin => exact hafter rfl
  | @settle t old r mode c hc =>
    refine .settled (forall_settled (Or.inl rfl) (Or.inl rfl) (Or.inr ⟨rfl, ?_⟩) r mode)
    rw [(cell_eq (getElem?_modify_self hc _)).1]
    exact TaskResult.isTerminal_state r
  | settleLate => exact .settled (forall_retried (Or.inl rfl) _)
  | cancel => exact .cancelling
  | fail => exact .failing
  | dispatch => exact .aside rfl (all_dispatched (fun _ => rfl) (fun _ => rfl) _ _)
  | @submitRefused t who | @enqueueRefused t who | @enqueue t who =>
    cases who <;> exact .aside rfl rfl
  | @microtask t caller | @microtaskRefused t caller =>
    exact .aside rfl (by cases caller <;> rfl)
  | scanDone => exact .aside rfl (all_due (fun _ => rfl) _)
  | sweepLoop => exact .aside rfl (all_swept (fun _ => rfl) (fun _ => rfl) _ _)
  | stopScheduler => exact .aside rfl (all_drained rfl (fun _ => rfl) rfl _)
  -- the others have nothing to do with bodies
  | _ => exact .aside rfl rfl

/-- **What an instruction leaves behind of bodies and settlements.** -/
theorem exec_bodies (heedStop : Bool) (i : Instr α) :
    m.Bequeaths i (m.exec heedStop self i) :=
  fun _ _ h => (exec_ruled h).bequeaths

/-! ### What is to be done -/

/-- A kind of instructions of which another is a part. -/
theorem count_held_le {f g : Instr α → Option TaskId} (h : ∀ j, ∀ t ∈ f j, g j = some t)
    (t : TaskId) : (m.held f).count t ≤ (m.held g).count t := by
  have hcode : ∀ code : List (Instr α),
      (code.filterMap f).count t ≤ (code.filterMap g).count t := by
    intro code
    induction code with
    | nil => exact Nat.le_refl 0
    | cons j rest ih =>
      cases hf : f j with
      | none =>
        rw [List.filterMap_cons_none hf]
        exact Nat.le_trans ih ((List.sublist_cons_self j rest).filterMap g |>.count_le t)
      | some k =>
        rw [List.filterMap_cons_some hf, List.filterMap_cons_some (h j k hf), List.count_cons,
          List.count_cons]
        exact Nat.add_le_add_right ih _
  unfold held
  induction m.strands with
  | nil => exact Nat.le_refl 0
  | cons s rest ih =>
    rw [List.flatMap_cons, List.flatMap_cons, List.count_append, List.count_append]
    exact Nat.add_le_add (hcode s.code) ih

/-- What a strand finds to do are runs, looks at the timers and submissions. -/
theorem Finds.all_isAloof {role : Role} {exited : Bool}
    (h : m.Finds role m' code exited) :
    code.all Instr.isAloof = true :=
  List.all_eq_true.mpr <|
    h.forall_code (fun _ => rfl) (fun _ => rfl) (fun _ => rfl) (fun _ _ => rfl) fun _ _ => rfl

theorem bearer?_of_all {code : List (Instr α)} (h : code.all Instr.isAloof = true) :
    code.filterMap Instr.bearer? = [] :=
  List.filterMap_eq_nil_iff.mpr fun _ hj => Instr.bearer?_of_isAloof (List.all_eq_true.mp h _ hj)

end Machine

namespace BodyEffect

variable {m m' : Machine α} {t : TaskId} {i : Instr α} {code : List (Instr α)}

/-- **A body is begun when its task is started**, and otherwise passed on at most. -/
theorem bearers (h : BodyEffect m m' i code) :
    (∃ t, i = .start t ∧ m.state t = .pending ∧ m'.state t = .running ∧ code = [.enter t]) ∨
      code.filterMap Instr.bearer? = i.bearer?.toList ∨ code.filterMap Instr.bearer? = [] := by
  cases h with
  | aside _ hcode => exact Or.inr (Or.inr (Machine.bearer?_of_all hcode))
  | @started t hpending hrunning => exact Or.inl ⟨t, rfl, hpending, hrunning, rfl⟩
  | missing => exact Or.inr (Or.inr rfl)
  | @passed t i j code hi hj henter hsettle hcode =>
    refine Or.inr (Or.inl ?_)
    rw [List.filterMap_append, Machine.bearer?_of_all hcode, hi, List.filterMap_cons_some hj]
    rfl
  | concluded hi =>
    refine Or.inr (Or.inl ?_)
    rw [hi]
    rfl
  | settled hcode =>
    refine Or.inr (Or.inr (List.filterMap_eq_nil_iff.mpr fun j hj => ?_))
    rcases hcode j hj with haloof | ⟨rfl, -⟩
    · exact Instr.bearer?_of_isAloof haloof
    · rfl
  | cancelling => 
    refine Or.inr (Or.inr (List.filterMap_cons_none ?_))
    cases m.state _ <;> rfl
  | failing => exact Or.inr (Or.inr rfl)

/-- What is left behind of a body comes from it, or from who has started the task. -/
theorem of_bears {j : Instr α} (h : BodyEffect m m' i code) (hj : j ∈ code) (hbears : j.Bears t) :
    i.Bears t ∨ i = .start t ∧ j = .enter t := by
  have hmem : t ∈ code.filterMap Instr.bearer? :=
    List.mem_filterMap.mpr ⟨j, hj, Instr.bearer?_eq_some.mpr hbears⟩
  rcases h.bearers with ⟨k, rfl, -, -, rfl⟩ | heq | heq
  · obtain rfl := List.mem_singleton.mp hj
    obtain rfl : k = t := hbears
    exact Or.inr ⟨rfl, rfl⟩
  · rw [heq] at hmem
    exact Or.inl (Instr.bearer?_eq_some.mp (Option.mem_toList.mp hmem))
  · rw [heq] at hmem
    exact absurd hmem List.not_mem_nil

/-- A body is to be taken only by who has started the task. -/
theorem enters (h : BodyEffect m m' i code) (hj : .enter t ∈ code) :
    i = .start t ∧ m.state t = .pending := by
  cases h with
  | aside _ hcode => cases List.all_eq_true.mp hcode _ hj
  | started hpending =>
    obtain rfl := Instr.enter.inj (List.mem_singleton.mp hj)
    exact ⟨rfl, hpending⟩
  | missing => exact absurd hj List.not_mem_nil
  | passed _ _ henter _ hcode =>
    rcases List.mem_append.mp hj with hj | hj
    · cases List.all_eq_true.mp hcode _ hj
    · rw [← List.mem_singleton.mp hj] at henter
      cases henter
  | concluded => cases List.mem_singleton.mp hj
  | settled hcode =>
    rcases hcode _ hj with haloof | ⟨heq, -⟩
    · cases haloof
    · cases heq
  | cancelling => cases List.mem_singleton.mp hj
  | failing => cases List.mem_singleton.mp hj

/-- The body of a task is dropped after it has settled. -/
theorem drops (h : BodyEffect m m' i code) (hj : .dropBody t ∈ code) :
    (m'.state t).isTerminal = true := by
  cases h with
  | aside _ hcode => cases List.all_eq_true.mp hcode _ hj
  | started => cases List.mem_singleton.mp hj
  | missing => exact absurd hj List.not_mem_nil
  | passed _ hbearer _ _ hcode =>
    rcases List.mem_append.mp hj with hj | hj
    · cases List.all_eq_true.mp hcode _ hj
    · rw [← List.mem_singleton.mp hj] at hbearer
      cases hbearer
  | concluded => cases List.mem_singleton.mp hj
  | settled hcode =>
    rcases hcode _ hj with haloof | ⟨heq, hterminal⟩
    · cases haloof
    · obtain rfl := Instr.dropBody.inj heq
      exact hterminal
  | cancelling => cases List.mem_singleton.mp hj
  | failing => cases List.mem_singleton.mp hj

end BodyEffect

/-- Whether an attempt to settle a task is one that somebody has a reason to make: the body has come
to its end, the task was cancelled, or it was made to fail. -/
def Instr.Warranted (cancels : List TaskId) : Instr α → Prop
  | settle _ old _ .run => old = .running
  | settle t _ r .cancel => r = .error .cancelled ∧ t ∈ cancels
  | settle _ old r .fail => old = .pending ∧ ∃ e, r = .error e
  | _ => True

theorem Instr.warranted_of_isAloof {cancels : List TaskId} {j : Instr α} (h : j.isAloof = true) :
    j.Warranted cancels := by
  cases j with
  | settle => cases h
  | _ => trivial

theorem Instr.Warranted.mono {cancels cancels' : List TaskId} {j : Instr α}
    (h : j.Warranted cancels) (hsub : ∀ t ∈ cancels, t ∈ cancels') : j.Warranted cancels' := by
  cases j with
  | settle t old r mode =>
    cases mode with
    | run => exact h
    | cancel => exact ⟨h.1, hsub t h.2⟩
    | fail => exact h
  | _ => trivial

theorem BodyEffect.warranted {m m' : Machine α} {i : Instr α} {code : List (Instr α)}
    {cancels : List TaskId} (h : BodyEffect m m' i code) (hi : ∀ t ∈ i.cancelled?, t ∈ cancels) :
    ∀ j ∈ code, j.Warranted cancels := by
  intro j hj
  cases h with
  | aside _ hcode => exact Instr.warranted_of_isAloof (List.all_eq_true.mp hcode j hj)
  | started => exact List.mem_singleton.mp hj ▸ trivial
  | missing => exact absurd hj List.not_mem_nil
  | passed _ _ _ hsettle hcode =>
    rcases List.mem_append.mp hj with hj | hj
    · exact Instr.warranted_of_isAloof (List.all_eq_true.mp hcode j hj)
    · obtain rfl := List.mem_singleton.mp hj
      cases j with
      | settle => exact absurd rfl (hsettle _ _ _ _)
      | _ => trivial
  | concluded => exact List.mem_singleton.mp hj ▸ rfl
  | settled hcode =>
    rcases hcode j hj with haloof | ⟨rfl, -⟩
    · exact Instr.warranted_of_isAloof haloof
    · trivial
  | cancelling => exact List.mem_singleton.mp hj ▸ ⟨rfl, hi _ rfl⟩
  | failing => exact List.mem_singleton.mp hj ▸ ⟨rfl, _, rfl⟩

/-- The cell of a task has the body as long as somebody may take it. -/
def Machine.Furnished (m : Machine α) (t : TaskId) (body : Body α) : Prop :=
  ∃ b, m.tasks[t]? = some b ∧ (b.state = .pending ∨ m.Holds (.enter t) →
    b.state.isTerminal = true ∨ b.body = some body)

namespace Chronicle

open Machine

variable {c d : Chronicle α} {heedStop : Bool} {self : Nat} {config : LoopConfig} {workers : Nat}

/-! ### Runs -/

/-- **Bodies are run by one strand each**, and whoever attempts to settle a task has a reason. -/
structure Borne (c : Chronicle α) : Prop where
  once : ∀ t, (c.machine.held Instr.bearer?).count t ≤ 1
  begun : ∀ t, c.machine.state t = .pending → t ∉ c.machine.held Instr.bearer?
  dropping : ∀ t, c.machine.Holds (.dropBody t) → (c.machine.state t).isTerminal = true
  warranted : ∀ j, c.machine.Holds j → j.Warranted c.cancels

theorem borne_start (config : LoopConfig) (workers : Nat) :
    (start config workers : Chronicle α).Borne where
  once _ := Nat.zero_le 1
  begun _ _ := List.not_mem_nil
  dropping := fun _ ⟨_, hs, _⟩ => absurd hs List.not_mem_nil
  warranted := fun _ ⟨_, hs, _⟩ => absurd hs List.not_mem_nil

theorem mem_cancels_turn (h : c.turn heedStop self = some d) {t : TaskId} (ht : t ∈ c.cancels) :
    t ∈ d.cancels := by
  have hold : ∀ new, d.events = c.events ++ new → t ∈ d.cancels := by
    intro new hevents
    unfold cancels
    rw [hevents, List.filterMap_append]
    exact List.mem_append_left _ ht
  cases turn_turn h with
  | carried _ _ _ _ _ _ hevents => exact hold _ hevents
  | found _ _ _ _ _ _ hevents => exact hold [] (hevents.trans (List.append_nil _).symm)

/-- **Every step keeps account of who is at which body.** -/
theorem Borne.turn (b : c.Borne) (g : c.machine.Governed) (h : c.turn heedStop self = some d) :
    d.Borne := by
  have hadv := g.advances_step (turn_step h)
  have hfinal : ∀ t, (c.machine.state t).isTerminal = true →
      (d.machine.state t).isTerminal = true := fun t ht => by rwa [hadv.final t ht]
  have hpending : ∀ t, d.machine.state t = .pending → c.machine.state t = .pending :=
    fun t ht => by_contra fun hne => hadv.begun t hne ht
  have hcancels : ∀ t ∈ c.cancels, t ∈ d.cancels := fun t => mem_cancels_turn h
  cases turn_turn h with
  | @carried s i rest code m₁ answer added hs _ hcode hexec hadded hd hevents =>
    have hstrands := congrArg Machine.strands hd
    obtain ⟨hi, -, -, hfrom⟩ := holds_carried hs hcode hadded hstrands
    have hbearers := count_held_carried Instr.bearer? (fun _ _ => rfl) hs hcode hadded hstrands
    have heffect := exec_bodies heedStop i m₁ code hexec
    have hstate : ∀ t, m₁.state t = d.machine.state t := fun t => by rw [hd]; rfl
    refine
      { once := fun t => ?once, begun := fun t ht hmem => ?begun, dropping := fun t ht => ?dropping,
        warranted := fun j hj => ?warranted }
    case once =>
      have hbearers := hbearers t
      have honce := b.once t
      rcases heffect.bearers with ⟨k, rfl, hk, -, rfl⟩ | heq | heq
      · -- nobody is at the body of a task that is pending
        by_cases hkt : k = t
        · subst hkt
          have hnone := List.count_eq_zero_of_not_mem (b.begun k hk)
          simp [Instr.bearer?] at hbearers
          omega
        · simp [Instr.bearer?, hkt] at hbearers
          omega
      · rw [heq] at hbearers
        omega
      · rw [heq, List.count_nil] at hbearers
        omega
    case begun =>
      have hbefore := List.count_eq_zero_of_not_mem (b.begun t (hpending t ht))
      have hafter := List.count_pos_iff.mpr hmem
      have hbearers := hbearers t
      rcases heffect.bearers with ⟨k, rfl, -, hrunning, rfl⟩ | heq | heq
      · have hkt : k ≠ t := by
          rintro rfl
          rw [hstate, ht] at hrunning
          cases hrunning
        simp [Instr.bearer?, hkt] at hbearers
        omega
      · rw [heq] at hbearers
        omega
      · rw [heq, List.count_nil] at hbearers
        omega
    case dropping =>
      rcases hfrom _ ht with ht | ht | ⟨p, setup, heq⟩
      · rw [← hstate]
        exact heffect.drops ht
      · exact hfinal t (b.dropping t ht)
      · cases heq
    case warranted =>
      rcases hfrom j hj with hj | hj | ⟨p, setup, rfl⟩
      · refine heffect.warranted (fun t ht => ?_) j hj
        unfold cancels
        rw [hevents]
        exact mem_filterMap_concat.mpr (Or.inr ht)
      · exact (b.warranted j hj).mono hcancels
      · trivial
  | @found s role code m₁ exited hs _ _ hcode hfinds hd hevents =>
    have hstrands := congrArg Machine.strands hd
    obtain ⟨-, -, hfrom⟩ := holds_found hs hcode hstrands
    have haloof := hfinds.all_isAloof
    have hbearers : ∀ t, (d.machine.held Instr.bearer?).count t =
        (c.machine.held Instr.bearer?).count t := fun t => by
      rw [count_held_found Instr.bearer? hs hcode hstrands, bearer?_of_all haloof]
      rfl
    refine
      { once := fun t => hbearers t ▸ b.once t, begun := fun t ht hmem => ?begun,
        dropping := fun t ht => ?dropping, warranted := fun j hj => ?warranted }
    case begun =>
      have hafter := List.count_pos_iff.mpr hmem
      rw [hbearers] at hafter
      exact b.begun t (hpending t ht) (List.count_pos_iff.mp hafter)
    case dropping =>
      refine hfinal t (b.dropping t ((hfrom _ ht).resolve_left fun ht => ?_))
      cases List.all_eq_true.mp haloof _ ht
    case warranted =>
      rcases hfrom j hj with hj | hj
      · exact Instr.warranted_of_isAloof (List.all_eq_true.mp haloof j hj)
      · exact (b.warranted j hj).mono hcancels

theorem Borne.move {m : Machine α} (b : c.Borne) (h : c.machine.Around m) :
    Borne { c with machine := m } := by
  have hheld : m.held Instr.bearer? = c.machine.held Instr.bearer? :=
    h.held_eq _ fun j hj => Instr.bearer?_of_isAloof hj.isAloof
  refine
    { once := fun t => hheld ▸ b.once t, begun := fun t ht => hheld ▸ b.begun t ?begun,
      dropping := fun t ht => ?dropping, warranted := fun j hj => ?warranted }
  case begun => exact by_contra fun hne => h.advances.begun t hne ht
  case dropping =>
    have hold := b.dropping t ((h.of_holds ht).resolve_right fun hcall => hcall.1)
    show (m.state t).isTerminal = true
    rwa [h.advances.final t hold]
  case warranted =>
    rcases h.of_holds hj with hj | ⟨hcall, -⟩
    · exact b.warranted j hj
    · exact Instr.warranted_of_isAloof hcall.isAloof

theorem Reaches.borne (h : (start config workers).Reaches c) : c.Borne := by
  induction h with
  | refl => exact borne_start config workers
  | turn hreach heedStop self hturn ih => exact ih.turn hreach.governed hturn
  | move _ hmove ih => exact ih.move hmove.around

/-- What is begun in a step was pending before, and is running afterwards. -/
theorem begun_turn (h : c.turn heedStop self = some d) {x : Nat × TaskId} (hx : x ∈ d.begun) :
    x ∈ c.begun ∨ x.1 = self ∧ c.machine.state x.2 = .pending ∧ d.machine.state x.2 = .running := by
  cases turn_turn h with
  | carried _ _ _ hexec _ hd hevents =>
    unfold begun at hx
    rw [hevents] at hx
    refine (mem_filterMap_concat.mp hx).imp_right fun hx => ?_
    obtain ⟨hself, rfl, hstart⟩ := begun?_eq_some hx
    obtain ⟨y, hy⟩ := Option.isSome_iff_exists.mp hstart
    obtain ⟨z, hz, hz'⟩ := Option.bind_eq_some_iff.mp hy
    have hpending : c.machine.state x.2 = .pending := by
      unfold TaskCell.start? at hz'
      split_ifs at hz' with hpending
      exact (cell_eq hz).1.trans hpending
    refine ⟨hself, hpending, ?_⟩
    rcases exec_start (lt_length hz) hexec with ⟨-, hrunning, -⟩ | ⟨hne, -⟩
    · rw [hd]
      exact hrunning
    · exact absurd hpending hne
  | found _ _ _ _ _ _ hevents =>
    unfold begun at hx
    rw [hevents] at hx
    exact Or.inl hx

/-- A task whose body was begun is not pending. -/
theorem Reaches.ne_pending_of_begun (h : (start config workers).Reaches c) :
    ∀ x ∈ c.begun, c.machine.state x.2 ≠ .pending := by
  induction h with
  | refl => exact fun _ hx => absurd hx List.not_mem_nil
  | turn hreach heedStop self hturn ih =>
    intro x hx
    rcases begun_turn hturn hx with hx | ⟨-, -, hrunning⟩
    · exact (hreach.governed.advances_step (turn_step hturn)).begun _ (ih x hx)
    · rw [hrunning]
      exact nofun
  | move _ hmove ih => exact fun x hx => hmove.around.advances.begun _ (ih x hx)

/-- **Why a task has settled**: its body has come to its end, it was cancelled, or it was made to
fail before anybody has started it. -/
theorem Borne.outcome_turn {t : TaskId} {r : TaskResult α} (b : c.Borne)
    (h : c.turn heedStop self = some d) (hr : d.machine.outcome t = some r) :
    c.machine.outcome t = some r ∨
      c.machine.state t = .running ∧ c.machine.Holds (.settle t .running r .run) ∨
      r = .error .cancelled ∧ t ∈ c.cancels ∨
      c.machine.state t = .pending ∧ ∃ e, r = .error e := by
  obtain ⟨y, hy, hr⟩ := Option.bind_eq_some_iff.mp hr
  cases hx : c.machine.tasks[t]? with
  | none =>
    -- a task that is new has no outcome
    obtain ⟨-, -, hnew⟩ := step_tasks (turn_step h)
    obtain ⟨body, name, rfl⟩ := hnew t y (List.getElem?_eq_none_iff.mp hx) hy
    cases hr
  | some x =>
    obtain ⟨hstate, houtcome, -⟩ := cell_eq hx
    rw [hstate, houtcome]
    cases turn_turn h with
    | @carried s i rest code m₁ answer added hs _ hcode hexec hadded hd hevents =>
      obtain ⟨hi, -⟩ := holds_carried hs hcode hadded (congrArg Machine.strands hd)
      obtain ⟨⟨y', hy', heffect⟩, -⟩ := exec_affects heedStop self hx i m₁ code hexec
      have htasks : d.machine.tasks = m₁.tasks := by rw [hd]
      obtain rfl := Option.some.inj (hy'.symm.trans (htasks ▸ hy))
      have hwarranted := b.warranted i hi
      cases heffect with
      | @settled old result mode code hold hplain =>
        obtain rfl := Option.some.inj hr
        refine Or.inr ?_
        cases mode with
        | run =>
          obtain rfl : old = .running := hwarranted
          exact Or.inl ⟨hold, hi⟩
        | cancel => exact Or.inr (Or.inl hwarranted)
        | fail => exact Or.inr (Or.inr ⟨hold.trans hwarranted.1, hwarranted.2⟩)
      | idle _ hsame => exact Or.inl (hsame.outcome ▸ hr)
      | _ => exact Or.inl hr
    | found _ _ _ _ hfinds hd _ =>
      have hy' : d.machine.tasks[t]? = some x :=
        (congrArg (·.tasks[t]?) hd).trans (hfinds.getElem?_tasks hx)
      obtain rfl := Option.some.inj (hy.symm.trans hy')
      exact Or.inl hr

/-- Who takes the body of a task is the last to do so. -/
theorem Borne.not_holds_enter {s : Strand α} {t : TaskId} {rest code : List (Instr α)}
    {m₁ : Machine α} {answer : Option (TaskResult Unit)} {added : List (Strand α)} (b : c.Borne)
    (hs : c.machine.strands[self]? = some s) (hcode : s.code = .enter t :: rest)
    (hexec : c.machine.exec heedStop self (.enter t) = some (m₁, code))
    (hadded : ∀ a ∈ added, a.IsSetup) (hstrands : d.machine.strands =
      c.machine.strands.set self { s with code := code ++ rest, answer } ++ added) :
    ¬ d.machine.Holds (.enter t) := by
  intro hheld
  have henters := count_held_carried Instr.enter? (fun _ _ => rfl) hs hcode hadded hstrands t
  have hnone : code.filterMap Instr.enter? = [] := by
    refine List.filterMap_eq_nil_iff.mpr fun j hj => Option.eq_none_iff_forall_not_mem.mpr ?_
    intro k hk
    cases j with
    | enter => cases ((exec_bodies heedStop _ m₁ code hexec).enters hj).1
    | _ => cases hk
  have hle : (c.machine.held Instr.enter?).count t ≤ (c.machine.held Instr.bearer?).count t :=
    count_held_le (fun _ _ => Instr.bearer?_of_enter?) t
  have honce := b.once t
  have hafter := List.count_pos_iff.mpr (mem_held.mpr ⟨_, hheld, (rfl : Instr.enter? _ = some t)⟩)
  rw [hnone] at henters
  simp [Instr.enter?] at henters
  omega

theorem Borne.furnished_turn {t : TaskId} {body : Body α} (b : c.Borne) (g : c.machine.Governed)
    (h : c.turn heedStop self = some d) (hf : c.machine.Furnished t body) :
    d.machine.Furnished t body := by
  obtain ⟨x, hx, hf⟩ := hf
  obtain ⟨y, hy, -, hfinal⟩ := g.cell_step (turn_step h) hx
  refine ⟨y, hy, fun hneeded => ?_⟩
  by_cases hterminal : x.state.isTerminal = true
  · exact Or.inl ((hfinal hterminal).1 ▸ hterminal)
  have hopen : c.machine.state t = x.state := (cell_eq hx).1
  cases turn_turn h with
  | @carried s i rest code m₁ answer added hs _ hcode hexec hadded hd hevents =>
    have hstrands := congrArg Machine.strands hd
    obtain ⟨hi, -, -, hfrom⟩ := holds_carried hs hcode hadded hstrands
    obtain ⟨⟨y', hy', heffect⟩, -⟩ := exec_affects heedStop self hx i m₁ code hexec
    have htasks : d.machine.tasks = m₁.tasks := by rw [hd]
    obtain rfl := Option.some.inj (hy'.symm.trans (htasks ▸ hy))
    -- whoever needs the body did so before the step, or has just started the task
    have hbefore : x.state = .pending ∨ c.machine.Holds (.enter t) := by
      rcases hneeded with hpending | hheld
      · exact Or.inl (heffect.pending_of_pending hpending)
      · rcases hfrom _ hheld with hj | hj | ⟨p, setup, heq⟩
        · exact Or.inl (hopen.symm.trans ((exec_bodies heedStop i m₁ code hexec).enters hj).2)
        · exact Or.inr hj
        · cases heq
    have hkept := (exec_executes heedStop i m₁ code hexec).tasks.cell t _ _ hx hy'
    refine Or.inr (hkept.body.elim (fun h => h.trans ((hf hbefore).resolve_left hterminal)) ?_)
    rintro ⟨-, rfl | rfl⟩
    · refine absurd hneeded (not_or.mpr ⟨fun hpending => ?_, ?_⟩)
      · have hpending := hopen.trans (heffect.pending_of_pending hpending)
        exact b.begun t hpending (mem_held.mpr ⟨_, hi, rfl⟩)
      · exact b.not_holds_enter hs hcode hexec hadded hstrands
    · exact absurd (hopen ▸ b.dropping t hi) hterminal
  | @found s role code m₁ exited hs _ _ hcode hfinds hd hevents =>
    obtain ⟨-, -, hfrom⟩ := holds_found hs hcode (congrArg Machine.strands hd)
    have hsame : y = x := by
      have hy' : d.machine.tasks[t]? = some x :=
        (congrArg (·.tasks[t]?) hd).trans (hfinds.getElem?_tasks hx)
      exact Option.some.inj (hy.symm.trans hy')
    subst hsame
    refine hf (hneeded.imp_right fun hheld => (hfrom _ hheld).resolve_left fun hj => ?_)
    cases List.all_eq_true.mp hfinds.all_isAloof _ hj

end Chronicle

end ManagedHost
