import ManagedHost.Proofs.Loop.Family

/-!
# What the instructions of a family's run do

`Family.exec_sequel` says once, for every instruction that comes up in a run of a family
(`Family.Admits`), what follows from it: only instructions that may come up, and a balance of bodies
that begin and bodies that are carried out.
-/

namespace ManagedHost

variable {α : Type}

namespace Instr

/-- Whether the instruction has no part in the beginning of a body and submits nothing. -/
def IsAside : Instr α → Prop
  | enter _ | andThen _ _ _ _ | orElse _ _ _ _ | submit _ _ | enqueue _ _ => False
  | _ => True

theorem isEntry_of_isEnter {i : Instr α} {t : TaskId} (h : i.isEnter t = true) :
    i.isEntry t = true := by
  cases i with
  | enter => exact h
  | _ => cases h

theorem IsCall.isEntry_eq_false {i : Instr α} (h : i.IsCall) (t : TaskId) :
    i.isEntry t = false ∧ i.isEnter t = false := by
  cases i with
  | enter => exact h.elim
  | andThen => exact h.elim
  | orElse => exact h.elim
  | _ => exact ⟨rfl, rfl⟩

theorem IsAside.isEntry_eq_false {i : Instr α} (h : i.IsAside) (t : TaskId) :
    i.isEntry t = false ∧ i.isEnter t = false := by
  cases i with
  | enter => exact h.elim
  | andThen => exact h.elim
  | orElse => exact h.elim
  | _ => exact ⟨rfl, rfl⟩

theorem IsAside.applied?_eq_none {i : Instr α} (h : i.IsAside) : i.applied? = none := by
  cases i with
  | andThen => exact h.elim
  | orElse => exact h.elim
  | _ => rfl

theorem IsAside.not_isSubmission {i : Instr α} (h : i.IsAside) : ¬ i.IsSubmission := by
  cases i with
  | submit => exact h.elim
  | enqueue => exact h.elim
  | _ => exact id

end Instr

section Effects

variable {l l' : EventLoop} {t : TaskId} {x x' : TaskCell α} {i : Instr α} {code : List (Instr α)}

theorem LoopEffect.phase_eq (h : LoopEffect l i code l') :
    (l'.phase = l.phase ∨ i = .markStopped) ∧ (l'.stopSignal = l.stopSignal ∨ i = .stopLoop) ∧
      (l.timers = [] → l'.timers = []) := by
  cases h with
  | marked => exact ⟨Or.inr rfl, Or.inl rfl, id⟩
  | told => exact ⟨Or.inl rfl, Or.inr rfl, id⟩
  | swept => exact ⟨Or.inl rfl, Or.inl rfl, fun _ => rfl⟩
  | dropped =>
    refine ⟨Or.inl rfl, Or.inl rfl, fun hnone => ?_⟩
    show l.timers.erase _ = []
    rw [hnone]
    rfl
  | _ => exact ⟨Or.inl rfl, Or.inl rfl, id⟩

/-- Only the instructions that put a task into the loop do so. -/
theorem LoopEffect.of_mem (h : LoopEffect l i code l') :
    (t ∈ l'.queue → t ∈ l.queue ∨ ∃ who, i = .enqueue t who) ∧
      (t ∈ l'.microtasks → t ∈ l.microtasks ∨ ∃ caller, i = .microtask t caller) := by
  cases h with
  | queued =>
    refine ⟨fun ht => (List.mem_append.mp ht).imp_right fun ht => ?_, Or.inl⟩
    rw [List.mem_singleton.mp ht]
    exact ⟨_, rfl⟩
  | pushed =>
    refine ⟨Or.inl, fun ht => (List.mem_append.mp ht).imp_right fun ht => ?_⟩
    rw [List.mem_singleton.mp ht]
    exact ⟨_, rfl⟩
  | swept => exact ⟨fun ht => absurd ht List.not_mem_nil, fun ht => absurd ht List.not_mem_nil⟩
  | _ => exact ⟨Or.inl, Or.inl⟩

theorem TaskEffect.of_mem_continuations {k : TaskId} (h : TaskEffect t x i x' code)
    (hk : k ∈ x'.continuations) : k ∈ x.continuations ∨ i = .register t k := by
  cases h with
  | released => exact absurd hk List.not_mem_nil
  | registered =>
    refine (List.mem_append.mp hk).imp_right fun hk => ?_
    rw [List.mem_singleton.mp hk]
  | idle _ hsame => exact Or.inl (hsame.continuations ▸ hk)
  | _ => exact Or.inl hk

/-- A task comes nearer to being settled, or stays where it is. -/
theorem TaskEffect.rank_le (h : TaskEffect t x i x' code) : x'.state.rank ≤ x.state.rank := by
  cases h with
  | started hpending =>
    rw [hpending]
    exact TaskState.rank_le_pending .running
  | @settled old result =>
    rw [TaskState.rank_of_isTerminal (TaskResult.isTerminal_state result)]
    exact Nat.zero_le _
  | idle _ hsame => exact Nat.le_of_eq (congrArg TaskState.rank hsame.state)
  | _ => exact Nat.le_refl _

/-- Only an attempt to settle a task gives it an outcome. -/
theorem TaskEffect.of_outcome {r : TaskResult α} (h : TaskEffect t x i x' code)
    (hr : x'.outcome = some r) : x.outcome = some r ∨ ∃ old mode, i = .settle t old r mode := by
  cases h with
  | settled =>
    obtain rfl := Option.some.inj hr
    exact Or.inr ⟨_, _, rfl⟩
  | idle _ hsame => exact Or.inl (hsame.outcome ▸ hr)
  | _ => exact Or.inl hr

end Effects

namespace Machine

variable {m : Machine α}

/-- In a step every task comes nearer to being settled, or stays where it is. -/
theorem rank_step {m' : Machine α} {heedStop : Bool} {self : Nat}
    (hstep : m.step heedStop self = some m') (t : TaskId) :
    (m'.state t).rank ≤ (m.state t).rank := by
  cases hc : m.tasks[t]? with
  | none =>
    have hpending : m.state t = .pending := by simp [state, hc]
    rw [hpending]
    exact TaskState.rank_le_pending _
  | some c =>
    obtain ⟨c', hc', hcell⟩ := step_cell hstep hc
    rw [(cell_eq hc).1, (cell_eq hc').1]
    rcases hcell with rfl | ⟨i, code, heffect⟩
    · exact Nat.le_refl _
    · exact heffect.rank_le

/-- An attempt to settle a task succeeds, or changes nothing. -/
theorem exec_settle {m₁ : Machine α} {heedStop : Bool} {self : Nat} {t : TaskId} {old : TaskState}
    {r : TaskResult α} {mode : SettleMode} {code : List (Instr α)}
    (h : m.exec heedStop self (.settle t old r mode) = some (m₁, code)) :
    m₁.notes = m.notes ∧ ((m₁.outcome t = some r ∧
        ∀ j ∈ code, j = .signal t ∨ j = .release t ∨ j = .dropBody t ∧ mode ≠ .run) ∨
      ∀ j ∈ code, j = .cancel t ∧ mode = .cancel) := by
  cases exec_ruled h with
  | settle hc =>
    refine ⟨rfl, Or.inl ⟨?_, fun j hj => ?_⟩⟩
    · unfold outcome
      rw [getElem?_modify_self hc]
      rfl
    · rcases List.mem_append.mp hj with hj | hj
      · rcases List.mem_append.mp hj with hj | hj
        · split_ifs at hj
          · exact Or.inl (List.mem_singleton.mp hj)
          · exact absurd hj List.not_mem_nil
        · exact Or.inr (Or.inl (List.mem_singleton.mp hj))
      · split_ifs at hj with hmode
        · exact absurd hj List.not_mem_nil
        · exact Or.inr (Or.inr ⟨List.mem_singleton.mp hj, hmode⟩)
  | settleLate =>
    refine ⟨rfl, Or.inr fun j hj => ?_⟩
    split_ifs at hj with hmode
    · exact ⟨List.mem_singleton.mp hj, hmode⟩
    · exact absurd hj List.not_mem_nil

end Machine

namespace Family

open Machine

variable {F : Family α} {c d : Chronicle α} {heedStop : Bool} {self : Nat} {i : Instr α}
  {code : List (Instr α)} {m₁ : Machine α}

/-! ### Carrying out an instruction -/

/-- The task, if its body begins when the instruction is carried out. -/
def starting? (m : Machine α) : Instr α → Option TaskId
  | .start t => if (m.tasks[t]?.bind TaskCell.start?).isSome then some t else none
  | _ => none

/-- **What follows from an instruction that comes up in a run of the family.** -/
structure Sequel (F : Family α) (c d : Chronicle α) (i : Instr α) (code : List (Instr α)) :
    Prop where
  admits : ∀ j ∈ code, F.Admits d j
  submissions : ∀ j ∈ code, j.IsSubmission → i.IsSubmission
  enters : ∀ t, code.countP (Instr.isEnter t) = (starting? c.machine i).toList.count t
  entries : ∀ t, code.countP (Instr.isEntry t) + i.applied?.toList.count t ≤
    (if i.isEntry t then 1 else 0) + (starting? c.machine i).toList.count t
  exact : ∀ t, t ≠ 0 → t ∉ c.cancels →
    code.countP (Instr.isEntry t) + i.applied?.toList.count t =
      (if i.isEntry t then 1 else 0) + (starting? c.machine i).toList.count t
  ready : ∀ t, i.applied? = some t → t ≠ 0 ∧ F.Ready c.machine t
  notes : d.machine.notes = c.machine.notes ++ (i.applied?.bind (F.noteNow? c.machine)).toList

/-- The instruction has nothing to do with the beginning of bodies. -/
theorem sequel_calm (hentry : ∀ t, i.isEntry t = false) (happlied : i.applied? = none)
    (hstarts : starting? c.machine i = none)
    (hcode : ∀ j ∈ code, (∀ t, j.isEntry t = false ∧ j.isEnter t = false) ∧
      (j.IsSubmission → i.IsSubmission) ∧ F.Admits d j)
    (hnotes : d.machine.notes = c.machine.notes) : F.Sequel c d i code := by
  have hentries : ∀ t, code.countP (Instr.isEntry t) = 0 := fun t => List.countP_eq_zero.mpr
    fun j hj => Bool.eq_false_iff.mp ((hcode j hj).1 t).1
  have henters : ∀ t, code.countP (Instr.isEnter t) = 0 := fun t => List.countP_eq_zero.mpr
    fun j hj => Bool.eq_false_iff.mp ((hcode j hj).1 t).2
  refine
    { admits := fun j hj => (hcode j hj).2.2, submissions := fun j hj => (hcode j hj).2.1,
      enters := fun t => ?enters, entries := fun t => ?entries, exact := fun t _ _ => ?exact,
      ready := fun t ht => ?ready, notes := ?notes }
  case enters => simp [henters, hstarts]
  case entries => simp [hentries, hstarts, happlied]
  case exact => simp [hentries, hstarts, happlied, hentry]
  case ready => cases happlied.symm.trans ht
  case notes => simp [hnotes, happlied]

/-- The instruction has nothing to do with submissions either. -/
theorem sequel_aside (hi : i.IsAside) (hstarts : starting? c.machine i = none)
    (hcode : ∀ j ∈ code, j.IsAside ∧ F.Admits d j) (hnotes : d.machine.notes = c.machine.notes) :
    F.Sequel c d i code := by
  refine sequel_calm (fun t => (hi.isEntry_eq_false t).1) hi.applied?_eq_none hstarts
    (fun j hj => ?_) hnotes
  obtain ⟨haside, hadmits⟩ := hcode j hj
  exact ⟨haside.isEntry_eq_false, fun h => absurd h haside.not_isSubmission, hadmits⟩

/-- Nothing is left to do. -/
theorem sequel_done (hi : i.IsAside) (hstarts : starting? c.machine i = none)
    (hnotes : d.machine.notes = c.machine.notes) : F.Sequel c d i [] :=
  sequel_aside hi hstarts (fun _ hj => absurd hj List.not_mem_nil) hnotes

/-- The instruction is followed by one other. -/
theorem sequel_then {j : Instr α} (hi : i.IsAside) (hstarts : starting? c.machine i = none)
    (hj : j.IsAside) (hadmits : F.Admits d j) (hnotes : d.machine.notes = c.machine.notes) :
    F.Sequel c d i [j] :=
  sequel_aside hi hstarts (List.forall_mem_singleton.mpr ⟨hj, hadmits⟩) hnotes

/-- A body begins. -/
theorem sequel_started {t : TaskId} (hstarts : starting? c.machine (.start t) = some t)
    (hadmits : F.Admits d (.enter t)) (hnotes : d.machine.notes = c.machine.notes) :
    F.Sequel c d (.start t) [.enter t] := by
  have hcount : ∀ k, [t].count k = if t = k then 1 else 0 := fun k => by
    simp [List.count_singleton]
  have hbalance : ∀ k, ([.enter t] : List (Instr α)).countP (Instr.isEntry k) +
      (Instr.start t : Instr α).applied?.toList.count k =
        (if (Instr.start t : Instr α).isEntry k then 1 else 0) +
          (starting? c.machine (.start t)).toList.count k := by
    intro k
    rw [hstarts, Option.toList_some, hcount]
    simp [Instr.isEntry, Instr.applied?]
  refine ⟨List.forall_mem_singleton.mpr hadmits, List.forall_mem_singleton.mpr False.elim,
    fun k => ?_, fun k => Nat.le_of_eq (hbalance k), fun k _ _ => hbalance k, nofun, ?_⟩
  · rw [hstarts, Option.toList_some, hcount]
    simp [Instr.isEnter]
  · simp [hnotes, Instr.applied?]

theorem isEntry_enter (t k : TaskId) : (Instr.enter t : Instr α).isEntry k = decide (t = k) := rfl

/-- A body is taken up; what is done next is known. -/
theorem sequel_entered {t : TaskId} {j : Instr α} (hj : F.Admits d j)
    (hsubmission : ¬ j.IsSubmission) (henter : ∀ k, j.isEnter k = false)
    (hentry : ∀ k, j.isEntry k = true → t = k)
    (hexact : t ≠ 0 → t ∉ c.cancels → j.isEntry t = true)
    (hnotes : d.machine.notes = c.machine.notes) : F.Sequel c d (.enter t) [j] := by
  have hcount : ∀ k, [j].countP (Instr.isEntry k) = if j.isEntry k then 1 else 0 := fun k => by
    rw [List.countP_singleton]
  refine
    { admits := List.forall_mem_singleton.mpr hj,
      submissions := List.forall_mem_singleton.mpr fun h => absurd h hsubmission,
      enters := fun k => ?enters, entries := fun k => ?entries, exact := fun k hk hcut => ?exact,
      ready := nofun, notes := ?notes }
  case enters => simp [henter, starting?]
  case entries =>
    rw [hcount, isEntry_enter]
    by_cases hk : j.isEntry k = true
    · simp [hk, hentry k hk, Instr.applied?]
    · simp [hk, Instr.applied?]
  case exact =>
    rw [hcount, isEntry_enter]
    by_cases htk : t = k
    · subst htk
      simp [hexact hk hcut, Instr.applied?, starting?]
    · have hnot : ¬ j.isEntry k = true := fun h => htk (hentry k h)
      simp [hnot, htk, Instr.applied?, starting?]
  case notes => simp [hnotes, Instr.applied?]

/-- The body of a continuation is carried out: the parent has settled. -/
theorem sequel_applied {k : Nat} {n : Node α} {q : TaskResult α} (hn : F.nodes[k]? = some n)
    (hq : c.machine.outcome n.parent = some q) (hi : i.applied? = some (k + 1))
    (hentry : ∀ t, i.isEntry t = decide (k + 1 = t)) (hext : c.Extends d)
    (hbegun : k + 1 ∈ c.starts)
    (hnotes : d.machine.notes = c.machine.notes ++ (n.note? q).toList) :
    F.Sequel c d i [.settle (k + 1) .running (n.link.apply q) .run] := by
  have hstarting : starting? c.machine i = none := by
    cases i with
    | start => cases hi
    | _ => rfl
  have hadmits : F.Admits d (.settle (k + 1) .running (n.link.apply q) .run) :=
    .ending (hext.mem_starts hbegun) (Or.inr ⟨k, n, q, rfl, hn, hext.outcome _ q hq, rfl⟩)
  have hbalance : ∀ t, [Instr.settle (k + 1) .running (n.link.apply q) .run].countP
      (Instr.isEntry t) + i.applied?.toList.count t =
        (if i.isEntry t then 1 else 0) + (starting? c.machine i).toList.count t := by
    intro t
    rw [List.countP_singleton,
      show Instr.isEntry t (.settle (k + 1) .running _ .run) = false from rfl, hi, hstarting,
      hentry]
    by_cases ht : k + 1 = t
    · simp [ht]
    · simp [ht]
  refine
    { admits := List.forall_mem_singleton.mpr hadmits,
      submissions := List.forall_mem_singleton.mpr False.elim, enters := fun t => ?enters,
      entries := fun t => Nat.le_of_eq (hbalance t), exact := fun t _ _ => hbalance t,
      ready := fun t ht => ?ready, notes := ?notes }
  case enters => simp [hstarting, Instr.isEnter]
  case ready =>
    obtain rfl := Option.some.inj (hi.symm.trans ht)
    refine ⟨Nat.succ_ne_zero k, fun p hp => ?_⟩
    obtain rfl := Option.some.inj ((parent?_of_node hn).symm.trans hp)
    rw [hq]
    rfl
  case notes =>
    rw [hnotes, hi]
    simp [noteNow?, hn, hq]

/-- The bodies of a family's tasks. -/
inductive Planned (F : Family α) : TaskId → Body α → Prop where
  | root : Planned F 0 (.script [] (.done F.root))
  | andThen {k : Nat} {p : TaskId} {text : Option String} {f : α → Completion α}
      (hn : F.nodes[k]? = some ⟨p, .andThen f, text⟩) : Planned F (k + 1) (.andThen p text f)
  | orElse {k : Nat} {p : TaskId} {text : Option String} {g : TaskError → Completion α}
      (hn : F.nodes[k]? = some ⟨p, .orElse g, text⟩) : Planned F (k + 1) (.orElse p text g)

theorem planned_of_body? {t : TaskId} {body : Body α} (h : F.body? t = some body) :
    F.Planned t body := by
  cases t with
  | zero =>
    obtain rfl := Option.some.inj h
    exact .root
  | succ k =>
    obtain ⟨⟨p, link, text⟩, hn, rfl⟩ := Option.map_eq_some_iff.mp h
    cases link with
    | andThen => exact .andThen hn
    | orElse => exact .orElse hn

section Exec

variable (T : F.Tended c) (g : c.machine.Governed) (hext : c.Extends d)

include T g hext in
/-- A body that is taken up is there, unless the task was cancelled or made to fail since. -/
theorem enter_sequel {t : TaskId} (hready : F.Ready c.machine t) (hbegun : t ∈ c.starts)
    (hheld : c.machine.Holds (.enter t))
    (h : c.machine.Rule heedStop self (.enter t) m₁ code)
    (hnotes : d.machine.notes = m₁.notes) : F.Sequel c d (.enter t) code := by
  have hstarts := hext.mem_starts hbegun
  have hplan : ∀ {x body}, c.machine.tasks[t]? = some x → x.body = some body →
      F.Planned t body := by
    intro x body hx hbody
    refine planned_of_body? (((T.cell t x hx).body.resolve_left fun hnone => ?_).symm.trans hbody)
    cases hnone.symm.trans hbody
  cases h with
  | enterNone hnone =>
    exact absurd (g.grounded _ hheld) (Nat.not_lt.mpr (List.getElem?_eq_none_iff.mp hnone))
  | @enterMissing _ x hx hbody =>
    have hspent : Spent c t := by
      refine (T.recorded.entering t x hx hbody).resolve_right fun hnone => ?_
      have hpos := countP_work_pos (p := Instr.isEnter t) hheld (decide_eq_true rfl)
      omega
    refine sequel_entered (.late (hspent.mono hext)) id (fun _ => rfl)
      (fun k hk => Bool.noConfusion hk) (fun ht hcut => ?_) hnotes
    exact absurd hspent.2 (not_or.mpr ⟨ht, hcut⟩)
  | enterScript hx hbody =>
    cases hplan hx hbody
    exact sequel_entered (.perform hstarts) id (fun _ => rfl) (fun k hk => Bool.noConfusion hk)
      (fun h => absurd rfl h) hnotes
  | enterAndThen hx hbody =>
    cases hplan hx hbody with
    | andThen hn =>
      have hparent := hext.isSome (hready _ (parent?_of_node hn))
      exact sequel_entered (.andThen hn hparent hstarts) id (fun _ => rfl)
        (fun _ => of_decide_eq_true) (fun _ _ => decide_eq_true rfl) hnotes
  | enterOrElse hx hbody =>
    cases hplan hx hbody with
    | orElse hn =>
      have hparent := hext.isSome (hready _ (parent?_of_node hn))
      exact sequel_entered (.orElse hn hparent hstarts) id (fun _ => rfl)
        (fun _ => of_decide_eq_true) (fun _ _ => decide_eq_true rfl) hnotes
  -- no body of a family waits for several tasks or for a promise
  | enterPromise hx hbody => cases hplan hx hbody
  | enterAll hx hbody => cases hplan hx hbody
  | enterRace hx hbody => cases hplan hx hbody

/-- An attempt to settle a task, with what is known of one whose body has not ended. -/
theorem settle_sequel {t : TaskId} {old : TaskState} {r : TaskResult α} {mode : SettleMode}
    (hexec : c.machine.exec heedStop self (.settle t old r mode) = some (m₁, code))
    (hd : ∃ strands, d.machine = { m₁ with strands })
    (hspent : mode ≠ .run → t = 0 ∨ t ∈ d.cancels)
    (hthere : mode = .cancel → t < d.machine.tasks.length) :
    F.Sequel c d (.settle t old r mode) code := by
  obtain ⟨strands, hd⟩ := hd
  obtain ⟨hnotes, hcode⟩ := exec_settle hexec
  have hnotes' : d.machine.notes = c.machine.notes := by rw [hd]; exact hnotes
  refine sequel_aside trivial rfl (fun j hj => ?_) hnotes'
  rcases hcode with ⟨houtcome, hcode⟩ | hcode
  · have hsettled : (d.machine.outcome t).isSome = true := by
      have hd' : d.machine.outcome t = m₁.outcome t := by rw [hd]; rfl
      rw [hd', houtcome]
      rfl
    rcases hcode j hj with rfl | rfl | ⟨rfl, hmode⟩
    · exact ⟨trivial, .signal⟩
    · exact ⟨trivial, .release hsettled⟩
    · exact ⟨trivial, .dropBody ⟨hsettled, hspent hmode⟩⟩
  · obtain ⟨rfl, hmode⟩ := hcode j hj
    exact ⟨trivial, .cancel (hthere hmode)⟩

theorem start_sequel {t : TaskId} (hready : F.Ready d.machine t)
    (h : c.machine.Rule heedStop self (.start t) m₁ code)
    (hevent : ⟨c.machine, d.machine, self, .start t⟩ ∈ d.events)
    (hnotes : d.machine.notes = m₁.notes) : F.Sequel c d (.start t) code := by
  cases h with
  | start hc hpending =>
    have hstart := isSome_start? hc hpending
    have hbegun : (self, t) ∈ d.begun := by
      refine List.mem_filterMap.mpr ⟨_, hevent, ?_⟩
      simp [Event.begun?, hstart]
    refine sequel_started (by simp [starting?, hstart]) ?_ hnotes
    exact .enter hready (List.mem_map.mpr ⟨_, hbegun, rfl⟩)
  | startLate hlate =>
    exact sequel_done trivial (by simp [starting?, start?_eq_none hlate]) hnotes

include hext in
theorem andThen_sequel {k : Nat} {p : TaskId} {text : Option String} {f : α → Completion α}
    (hn : F.nodes[k]? = some ⟨p, .andThen f, text⟩) (hbegun : k + 1 ∈ c.starts)
    (h : c.machine.Rule heedStop self (.andThen (k + 1) p text f) m₁ code)
    (hnotes : d.machine.notes = m₁.notes) : F.Sequel c d (.andThen (k + 1) p text f) code := by
  cases h with
  | andThen hparent => exact sequel_applied hn hparent rfl (fun _ => rfl) hext hbegun hnotes
  | andThenError hparent =>
    exact sequel_applied hn hparent rfl (fun _ => rfl) hext hbegun
      (hnotes.trans (List.append_nil _).symm)

include hext in
theorem orElse_sequel {k : Nat} {p : TaskId} {text : Option String} {g : TaskError → Completion α}
    (hn : F.nodes[k]? = some ⟨p, .orElse g, text⟩) (hbegun : k + 1 ∈ c.starts)
    (h : c.machine.Rule heedStop self (.orElse (k + 1) p text g) m₁ code)
    (hnotes : d.machine.notes = m₁.notes) : F.Sequel c d (.orElse (k + 1) p text g) code := by
  cases h with
  | orElse hparent => exact sequel_applied hn hparent rfl (fun _ => rfl) hext hbegun hnotes
  | orElseValue hparent =>
    exact sequel_applied hn hparent rfl (fun _ => rfl) hext hbegun
      (hnotes.trans (List.append_nil _).symm)

include T hext in
/-- The continuations of a task that has settled may be run, here or by the loop. -/
theorem dispatch_sequel {p : TaskId} {children : List TaskId}
    (hsettled : (c.machine.outcome p).isSome = true)
    (hchildren : ∀ k ∈ children, F.parent? k = some p)
    (h : c.machine.Rule heedStop self (.dispatch p children) m₁ code)
    (hnotes : d.machine.notes = m₁.notes) : F.Sequel c d (.dispatch p children) code := by
  have hready : ∀ k ∈ children, F.Ready d.machine k := by
    intro k hk p' hp'
    obtain rfl := Option.some.inj ((hchildren k hk).symm.trans hp')
    exact hext.isSome hsettled
  cases h with
  | dispatchNone => exact sequel_done trivial rfl hnotes
  | @dispatch _ _ x hx =>
    refine sequel_aside trivial rfl (fun j hj => ?_) hnotes
    obtain ⟨k, hk, rfl⟩ := List.mem_map.mp hj
    split_ifs with hbound
    · exact ⟨trivial, .microtask (hready k hk) (hext.phase ((T.cell p x hx).bound hbound))⟩
    · exact ⟨trivial, .start (hready k hk)⟩

include g hext in
/-- A continuation that is registered too late is dispatched: the parent has settled. -/
theorem register_sequel {p k : TaskId} (hparent : F.parent? k = some p)
    (h : c.machine.Rule heedStop self (.register p k) m₁ code)
    (hnotes : d.machine.notes = m₁.notes) : F.Sequel c d (.register p k) code := by
  cases h with
  | registerNone => exact sequel_done trivial rfl hnotes
  | register => exact sequel_done trivial rfl hnotes
  | @registerLate _ _ x hx hsealed =>
    obtain ⟨log, hsound⟩ := g.sound p x hx
    have hsettled : (c.machine.outcome p).isSome = true := by
      rw [(cell_eq hx).2.1, g.isSome_eq hx]
      exact (hsound.continuing.sealed hsealed).1
    exact sequel_then trivial rfl trivial
      (.dispatch (hext.isSome hsettled) (List.forall_mem_singleton.mpr hparent)) hnotes

include T g hext in
/-- **What the instructions do that come up in a run of the family.** -/
theorem exec_sequel (hi : F.Admits c i) (hheld : c.machine.Holds i)
    (hexec : c.machine.exec heedStop self i = some (m₁, code))
    (hd : ∃ strands, d.machine = { m₁ with strands })
    (hevent : ⟨c.machine, d.machine, self, i⟩ ∈ d.events) : F.Sequel c d i code := by
  have hnotes : d.machine.notes = m₁.notes := by
    obtain ⟨strands, hd⟩ := hd
    rw [hd]
  have hrule := exec_ruled hexec
  cases hi with
  | start hready => exact start_sequel (hready.mono hext) hrule hevent hnotes
  | enter hready hbegun => exact enter_sequel T g hext hready hbegun hheld hrule hnotes
  | perform hbegun =>
    cases hrule
    exact sequel_then trivial rfl trivial
      (.ending (hext.mem_starts hbegun) (Or.inl ⟨rfl, rfl⟩)) hnotes
  | andThen hn _ hbegun => exact andThen_sequel hext hn hbegun hrule hnotes
  | orElse hn _ hbegun => exact orElse_sequel hext hn hbegun hrule hnotes
  | ending => exact settle_sequel hexec hd (fun h => absurd rfl h) (by simp)
  | late => exact settle_sequel hexec hd (fun h => absurd rfl h) (by simp)
  | cancelling hcancel ht =>
    exact settle_sequel hexec hd (fun _ => Or.inr (hext.mem_filterMap hcancel))
      fun _ => Nat.lt_of_lt_of_le ht hext.length
  | failing => exact settle_sequel hexec hd (fun _ => Or.inl rfl) (by simp)
  | @release t hsettled =>
    cases hrule with
    | releaseNone => exact sequel_done trivial rfl hnotes
    | @release _ x hx =>
      exact sequel_then trivial rfl trivial
        (.dispatch (hext.isSome hsettled) (T.cell t x hx).continuations) hnotes
  | dispatch hsettled hchildren => exact dispatch_sequel T hext hsettled hchildren hrule hnotes
  | register hparent => exact register_sequel g hext hparent hrule hnotes
  | @cancel t ht =>
    cases hrule with
    | cancel =>
      exact sequel_then trivial rfl trivial (.cancelling (List.mem_filterMap.mpr ⟨_, hevent, rfl⟩)
        (Nat.lt_of_lt_of_le ht hext.length) (hext.rank t)) hnotes
    | cancelLate => exact sequel_done trivial rfl hnotes
  | fail =>
    cases hrule
    exact sequel_then trivial rfl trivial (.failing (List.mem_filterMap.mpr ⟨_, hevent, rfl⟩))
      hnotes
  | submit hphase =>
    cases hrule with
    | submit =>
      exact sequel_calm (fun _ => rfl) rfl rfl (List.forall_mem_singleton.mpr
        ⟨fun _ => ⟨rfl, rfl⟩, fun _ => trivial, .enqueue (hext.phase hphase)⟩) hnotes
    | submitRefused hstopped => exact absurd hphase hstopped
  | enqueue =>
    cases hrule with
    | enqueue =>
      exact sequel_calm (fun _ => rfl) rfl rfl (List.forall_mem_singleton.mpr
        ⟨fun _ => ⟨rfl, rfl⟩, False.elim, .answer⟩) hnotes
    | enqueueRefused hsignal => cases T.duty.signal.symm.trans hsignal
  | @microtask t caller hready hphase =>
    cases hrule with
    | microtask =>
      refine sequel_aside trivial rfl (fun j hj => ?_) hnotes
      split_ifs at hj
      · rw [List.mem_singleton.mp hj]
        exact ⟨trivial, .answer⟩
      · exact absurd hj List.not_mem_nil
    | microtaskRefused hstopped => cases hphase.symm.trans hstopped
  | signal | dropBody | answer | leave | record =>
    cases hrule
    exact sequel_done trivial rfl hnotes

end Exec

end Family

end ManagedHost
