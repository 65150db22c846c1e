import ManagedHost.Proofs.Loop.Cancelling
import ManagedHost.Proofs.Loop.Journal

/-!
# How a promise settles

A promise that has started waits for its cell to give something, or for its signal
(`Chronicle.pledging`), so it settles with what has happened to it first (`settlement`) unless it is
cancelled before.  The main result is `Journal.Reaches.promise_settles`, for every run, whatever
the order in which the resolver is used or dropped, the setup ends and somebody cancels.
-/

namespace ManagedHost

variable {α : Type}

namespace Machine

variable {m m' m₁ : Machine α} {t : TaskId} {self : Nat} {heedStop : Bool} {i j : Instr α}
  {code : List (Instr α)} {setup : PromiseSetup α}

/-! ### One step of the body -/

/-- The promise is one of the task. -/
def Pledge (m : Machine α) (p : Nat) (t : TaskId) : Prop :=
  ∃ c, m.promises[p]? = some c ∧ c.task = t

theorem Pledge.modify {p q : Nat} {f : PromiseCell α → PromiseCell α} (h : m.Pledge p t)
    (hf : ∀ c, (f c).task = c.task) (hm' : m'.promises = m.promises.modify q f) :
    m'.Pledge p t := by
  obtain ⟨c, hc, rfl⟩ := h
  by_cases hq : q = p
  · subst hq
    refine ⟨f c, ?_, hf c⟩
    rw [hm', List.getElem?_modify_eq, hc]
    rfl
  · refine ⟨c, ?_, rfl⟩
    rw [hm', List.getElem?_modify_ne _ _ hq]
    exact hc

theorem Pledge.of_modify {p q : Nat} {f : PromiseCell α → PromiseCell α}
    (hf : ∀ c, (f c).task = c.task) (hm' : m'.promises = m.promises.modify q f)
    (h : m'.Pledge p t) : m.Pledge p t := by
  obtain ⟨c, hc, rfl⟩ := h
  rw [hm', List.getElem?_modify] at hc
  obtain ⟨c₀, hc₀, rfl⟩ := Option.map_eq_some_iff.mp hc
  refine ⟨c₀, hc₀, ?_⟩
  split_ifs
  · exact (hf c₀).symm
  · rfl

theorem Pledge.of_eq {p : Nat} (h : m.Pledge p t) (hm' : m'.promises = m.promises) :
    m'.Pledge p t := by
  obtain ⟨c, hc, htask⟩ := h
  exact ⟨c, hm' ▸ hc, htask⟩

/-- **What the body of the task can give**: what its promise gives, or that it is cancelled when its
signal has been given. -/
def CanGive (m : Machine α) (t : TaskId) (r : TaskResult α) : Prop :=
  m.Promised t r ∨ r = .error .cancelled ∧ m.token t = true

/-- **How far a strand can be with waiting for a promise.** -/
def Expects (m : Machine α) (t : TaskId) : Instr α → Prop
  | .enter _ => True
  | .awaitPromise _ p => m.Pledge p t
  | .settle _ _ r _ => m.CanGive t r
  | _ => False

theorem Expects.mono (h : m.Expects t i) (hpledge : ∀ p, m.Pledge p t → m'.Pledge p t)
    (hcan : ∀ r, m.CanGive t r → m'.CanGive t r) : m'.Expects t i := by
  cases i with
  | enter => trivial
  | awaitPromise k p => exact hpledge p h
  | settle k old r mode => exact hcan r h
  | _ => exact h.elim

/-- The steps that are left of a body that waits for a promise, at most. -/
def expectsLeft : Instr α → Nat
  | .enter _ => 3
  | .awaitPromise _ _ => 2
  | .settle _ _ _ _ => 1
  | _ => 0

theorem Expects.expectsLeft_le (h : m.Expects t i) :
    0 < expectsLeft i ∧ expectsLeft i ≤ 3 := by
  cases i with
  | enter => exact ⟨Nat.succ_pos _, Nat.le_refl _⟩
  | awaitPromise => exact ⟨Nat.succ_pos _, Nat.le_succ _⟩
  | settle => exact ⟨Nat.succ_pos _, Nat.le_add_left 1 _⟩
  | _ => exact h.elim

/-- **One step of the body**: the promise is made, or there is what it gives. -/
theorem exec_expects (hi : i.Bears t) (hexpects : m.Expects t i)
    (hbody : i = .enter t → m.tasks[t]?.bind TaskCell.body = some (.promise setup))
    (h : m.exec heedStop self i = some (m₁, code)) :
    (∃ j, code = [j] ∧ j.Bears t ∧ expectsLeft j < expectsLeft i ∧
      ∀ m' : Machine α, m'.tasks = m₁.tasks → m'.promises = m₁.promises → m'.Expects t j) ∨
    ∃ r, i = .settle t .running r .run := by
  cases i with
  | enter k =>
    obtain rfl : k = t := hi
    obtain ⟨x, hx, hbody⟩ := Option.bind_eq_some_iff.mp (hbody rfl)
    have hrule : m.Rule heedStop self _ _ _ := .enterPromise hx hbody
    obtain ⟨rfl, rfl⟩ := Prod.mk.inj (Option.some.inj (hrule.exec_eq.symm.trans h))
    refine Or.inl ⟨_, rfl, rfl, Nat.lt_succ_self _, fun m' _ hpromises => ?_⟩
    refine ⟨{ task := k }, ?_, rfl⟩
    rw [hpromises]
    exact List.getElem?_concat_length
  | awaitPromise k p =>
    obtain rfl : k = t := hi
    obtain ⟨c, hc, htask⟩ := hexpects
    have hgives : ∀ r, c.result? = some r → ∀ m' : Machine α, m'.promises = m.promises →
        m'.CanGive k r := fun r hr m' hpromises => Or.inl ⟨p, c, hpromises ▸ hc, htask, hr⟩
    have hcancelled : m.token k = true → ∀ m' : Machine α, m'.tasks = m.tasks →
        m'.CanGive k (.error .cancelled) := fun htoken m' htasks => by
      refine Or.inr ⟨rfl, ?_⟩
      unfold token at htoken ⊢
      rwa [htasks]
    refine Or.inl ?_
    cases exec_ruled h with
    | @promiseMessage _ _ c' result hc' hmessage =>
      obtain rfl := Option.some.inj (hc.symm.trans hc')
      refine ⟨_, rfl, ⟨rfl, rfl, rfl⟩, Nat.lt_succ_self _, fun m' htasks hpromises => ?_⟩
      show m'.CanGive k _
      split_ifs with hheeded
      · exact hcancelled (Bool.and_eq_true_iff.mp hheeded).1 m' htasks
      · refine hgives result ?_ m' hpromises
        unfold PromiseCell.result?
        rw [hmessage]
        rfl
    | promiseToken _ _ htoken =>
      exact ⟨_, rfl, ⟨rfl, rfl, rfl⟩, Nat.lt_succ_self _, fun m' htasks _ =>
        hcancelled htoken m' htasks⟩
    | @promiseClosed _ _ c' hc' hmessage hclosed =>
      obtain rfl := Option.some.inj (hc.symm.trans hc')
      refine ⟨_, rfl, ⟨rfl, rfl, rfl⟩, Nat.lt_succ_self _, fun m' _ hpromises => ?_⟩
      refine hgives (.error .abandoned) ?_ m' hpromises
      unfold PromiseCell.result?
      rw [hmessage, if_pos hclosed]
      rfl
  | settle k old r mode =>
    obtain ⟨rfl, rfl, rfl⟩ := hi
    exact Or.inr ⟨r, rfl⟩
  | _ => exact hexpects.elim

/-- The body need not wait when there is something that it can give. -/
theorem exec_expects_ne_none {r : TaskResult α} (hi : i.Bears t) (hexpects : m.Expects t i)
    (hsingle : ∀ (p q : Nat) (c c' : PromiseCell α), m.promises[p]? = some c →
      m.promises[q]? = some c' → c.task = c'.task → p = q)
    (hcan : m.CanGive t r) : m.exec heedStop self i ≠ none := by
  intro hnone
  cases exec_waits hnone with
  | promiseMissing hmissing =>
    obtain ⟨c, hc, -⟩ := hexpects
    cases hmissing.symm.trans hc
  | @promise k p c hc hmessage hopen hquiet =>
    -- nothing was sent, more can be sent, and the signal was not given
    obtain rfl : k = t := hi
    obtain ⟨c', hc', htask⟩ := hexpects
    obtain rfl := Option.some.inj (hc.symm.trans hc')
    rcases hcan with ⟨q, c', hc', htask', hr⟩ | ⟨-, htoken⟩
    · obtain rfl := hsingle p q c c' hc hc' (htask.trans htask'.symm)
      obtain rfl := Option.some.inj (hc.symm.trans hc')
      unfold PromiseCell.result? at hr
      rw [hmessage, hopen] at hr
      cases hr
    · cases hquiet.symm.trans htoken
  -- what else may wait is not an instruction of the body
  | _ => exact hexpects.elim

/-- A signal that was given stays so. -/
theorem token_later {x y : TaskCell α} (hx : m.tasks[t]? = some x) (hy : m'.tasks[t]? = some y)
    (hlater : x.token = true → y.token = true) (ht : m.token t = true) : m'.token t = true := by
  unfold token at ht ⊢
  rw [hx] at ht
  rw [hy]
  exact hlater ht

/-- Only a task that exists can have its signal given. -/
theorem exists_of_token (ht : m.token t = true) : ∃ x, m.tasks[t]? = some x := by
  cases hx : m.tasks[t]? with
  | some x => exact ⟨x, rfl⟩
  | none =>
    unfold token at ht
    rw [hx] at ht
    cases ht

theorem Around.token (h : m.Around m') (ht : m.token t = true) : m'.token t = true := by
  obtain ⟨x, hx⟩ := exists_of_token ht
  exact token_later hx (h.beside.getElem?_tasks hx) id ht

theorem Pledge.move {p : Nat} (h : m.Pledge p t) (hmove : m.Move m') : m'.Pledge p t := by
  rcases Journal.promises_of_move hmove with hsame | ⟨k, result, hresolve⟩
  · exact h.of_eq hsame
  · obtain ⟨q, c, -, -, -, rfl⟩ := Journal.resolve?_cell hresolve
    exact h.modify (fun c => PromiseCell.task_after c _) rfl

end Machine

namespace Chronicle

open Machine

variable {c d : Chronicle α} {heedStop : Bool} {self n p : Nat} {t : TaskId} {config : LoopConfig}
  {workers : Nat} {setup : PromiseSetup α}

/-! ### Runs -/

theorem token_turn (h : c.turn heedStop self = some d) (ht : c.machine.token t = true) :
    d.machine.token t = true := by
  obtain ⟨x, hx⟩ := exists_of_token ht
  cases turn_turn h with
  | @carried s i rest code m₁ answer added hs _ hcode hexec hadded hd _ =>
    obtain ⟨⟨y, hy, heffect⟩, -⟩ := exec_affects heedStop self hx i m₁ code hexec
    have htasks : d.machine.tasks = m₁.tasks := by rw [hd]
    refine token_later hx (htasks ▸ hy) ?_ ht
    cases heffect with
    | idle _ hsame => exact hsame.token
    | signalled => exact fun _ => rfl
    | _ => exact id
  | found _ _ _ _ hfinds hd _ =>
    exact token_later hx ((congrArg (·.tasks[t]?) hd).trans (hfinds.getElem?_tasks hx)) id ht

theorem pledge_turn (h : c.turn heedStop self = some d) (hp : c.machine.Pledge p t) :
    d.machine.Pledge p t := by
  cases turn_turn h with
  | @carried s i rest code m₁ answer added hs _ hcode hexec hadded hd _ =>
    have hpromises : d.machine.promises = m₁.promises := by rw [hd]
    refine Pledge.of_eq ?_ hpromises
    cases exec_pledges heedStop i m₁ code hexec with
    | aside _ _ hsame => exact hp.of_eq hsame
    | pledged _ hmade =>
      obtain ⟨x, hx, htask⟩ := hp
      refine ⟨x, ?_, htask⟩
      rw [hmade, List.getElem?_append_left (List.getElem?_eq_some_iff.mp hx).1]
      exact hx
    | begun hbegun => exact hp.modify (fun x => PromiseCell.task_after x _) hbegun
    | ended hended => exact hp.modify (fun x => PromiseCell.task_after x _) hended
  | found _ _ _ _ hfinds hd _ =>
    refine hp.of_eq (Eq.trans ?_ hfinds.promises_eq)
    rw [hd]

theorem Reaches.canGive_turn (h : (start config workers).Reaches c)
    (hturn : c.turn heedStop self = some d) {r : TaskResult α} (hr : c.machine.CanGive t r) :
    d.machine.CanGive t r :=
  hr.imp (h.promised_later (.turn .refl heedStop self hturn))
    (And.imp_right (token_turn hturn))

theorem Reaches.canGive_move {m : Machine α} (h : (start config workers).Reaches c)
    (hmove : c.machine.Move m) {r : TaskResult α} (hr : c.machine.CanGive t r) : m.CanGive t r :=
  hr.imp (h.promised_later (Reaches.refl.move hmove))
    (And.imp_right hmove.around.token)

/-- No two promises are for one task. -/
theorem Reaches.single_promise (h : (start config workers).Reaches c) :
    ∀ (p q : Nat) (x y : PromiseCell α), c.machine.promises[p]? = some x →
      c.machine.promises[q]? = some y → x.task = y.task → p = q := by
  obtain ⟨j, hj, rfl⟩ := @Journal.exists_of_reaches α (Journal.start config workers) c h
  exact hj.pledged.single

/-- Waiting for a promise, as a body that waits. -/
def pledging (config : LoopConfig) (workers : Nat) (t : TaskId) (setup : PromiseSetup α) :
    Conduct config workers t (.promise setup) where
  stage m i := m.Expects t i
  gives m r := m.CanGive t r
  stepsLeft := expectsLeft
  enter _ := trivial
  settle _ _ := id
  stepsLeft_le _ _ _ hi := hi.expectsLeft_le
  exec _ _ _ _ _ _ _ _ hi hexpects hbody hexec := exec_expects hi hexpects hbody hexec
  ready _ hc _ _ hi hexpects hr _ _ := exec_expects_ne_none hi hexpects hc.single_promise hr
  stage_turn _ _ hc _ _ hturn _ hi :=
    hi.mono (fun _ => pledge_turn hturn) fun _ => hc.canGive_turn hturn
  stage_move _ hc _ hmove _ hi := hi.mono (fun _ hp => hp.move hmove) fun _ => hc.canGive_move hmove
  gives_turn _ _ hc _ _ hturn _ := hc.canGive_turn hturn
  gives_move _ hc _ hmove _ := hc.canGive_move hmove

end Chronicle

namespace Journal

open Machine Chronicle

variable {j k : Journal α} {heedStop : Bool} {self n : Nat} {t : TaskId} {config : LoopConfig}
  {workers : Nat} {setup : PromiseSetup α}

/-! ### What is told of a promise -/

/-- **What is told of the promise is what its setup does**: it begins with what the setup does with
the resolver, and the setup ends as it says. -/
structure Scripted (j : Journal α) (t : TaskId) (setup : PromiseSetup α) : Prop where
  body : ∃ x, j.machine.tasks[t]? = some x ∧ (x.body = none ∨ x.body = some (.promise setup))
  before : ∀ p s, j.machine.Holds (.setup p s) → j.machine.Pledge p t → s = setup
  during : ∀ p panic, j.machine.Holds (.setupEnd p panic) → j.machine.Pledge p t →
    panic = setup.panic
  first : ∀ e, (j.toldOf t).head? = some e → e = .ofStep setup.step
  last : ∀ e ∈ j.toldOf t, e.isEnd = true → e = .ofPanic setup.panic

/-- Something may have been told, and setups have gone on. -/
theorem Scripted.tell (S : j.Scripted t setup)
    (hbody : ∃ x, k.machine.tasks[t]? = some x ∧ (x.body = none ∨ x.body = some (.promise setup)))
    (hbefore : ∀ p s, k.machine.Holds (.setup p s) → k.machine.Pledge p t →
      j.machine.Holds (.setup p s) ∧ j.machine.Pledge p t ∨ s = setup)
    (hduring : ∀ p panic, k.machine.Holds (.setupEnd p panic) → k.machine.Pledge p t →
      j.machine.Holds (.setupEnd p panic) ∧ j.machine.Pledge p t ∨ panic = setup.panic)
    (htold : k.toldOf t = j.toldOf t ∨ ∃ e : Happening α, k.toldOf t = j.toldOf t ++ [e] ∧
      (j.toldOf t = [] → e = .ofStep setup.step) ∧ (e.isEnd = true → e = .ofPanic setup.panic)) :
    k.Scripted t setup := by
  refine
    { body := hbody, before := fun p s hs hp => ?before, during := fun p panic hs hp => ?during,
      first := fun e he => ?first, last := fun e he hend => ?last }
  case before => exact (hbefore p s hs hp).elim (fun h => S.before p s h.1 h.2) id
  case during => exact (hduring p panic hs hp).elim (fun h => S.during p panic h.1 h.2) id
  case first =>
    rcases htold with hsame | ⟨e', hnew, hfirst, -⟩
    · exact S.first e (hsame ▸ he)
    · cases hold : j.toldOf t with
      | nil =>
        rw [hnew, hold] at he
        exact Option.some.inj he ▸ hfirst hold
      | cons e₀ rest =>
        rw [hnew, hold] at he
        exact S.first e (hold ▸ he)
  case last =>
    rcases htold with hsame | ⟨e', hnew, -, hlast⟩
    · exact S.last e (hsame ▸ he) hend
    · rw [hnew] at he
      rcases List.mem_append.mp he with he | he
      · exact S.last e he hend
      · obtain rfl := List.mem_singleton.mp he
        exact hlast hend

theorem Scripted.body_turn (S : j.Scripted t setup) (hturn : j.turn heedStop self = some k) :
    ∃ x, k.machine.tasks[t]? = some x ∧ (x.body = none ∨ x.body = some (.promise setup)) := by
  obtain ⟨x, hx, hbody⟩ := S.body
  cases turn_turn (turn_chronicle hturn) with
  | @carried s i rest code m₁ answer added hs _ hcode hexec hadded hd _ =>
    obtain ⟨⟨y, hy, -⟩, -⟩ := exec_affects heedStop self hx i m₁ code hexec
    have hkept := (exec_executes heedStop i m₁ code hexec).tasks.cell t _ _ hx hy
    have htasks : k.machine.tasks = m₁.tasks := by rw [machine, hd]
    exact ⟨y, htasks ▸ hy, hkept.body.elim (fun heq => heq ▸ hbody) fun hnone => Or.inl hnone.1⟩
  | found _ _ _ _ hfinds hd _ =>
    exact ⟨x, (congrArg (·.tasks[t]?) hd).trans (hfinds.getElem?_tasks hx), hbody⟩

theorem Scripted.turn (S : j.Scripted t setup) (h : (start config workers).Reaches j)
    (hturn : j.turn heedStop self = some k) : k.Scripted t setup := by
  have P := h.pledged
  have hbody := S.body_turn hturn
  have htoldOf : k.told = j.told → k.toldOf t = j.toldOf t := fun htold => by
    unfold toldOf
    rw [htold]
  cases h.effect hturn with
  | quiet hpromises htold _ _ hholds =>
    exact S.tell hbody (fun p s hs hp => Or.inl ⟨hholds _ rfl hs, hp.of_eq hpromises.symm⟩)
      (fun p panic hs hp => Or.inl ⟨hholds _ rfl hs, hp.of_eq hpromises.symm⟩)
      (Or.inl (htoldOf htold))
  | @made t' setup' henter _ hbody' hpromises htold _ _ hholds =>
    have hold : ∀ p, p < j.machine.promises.length → k.machine.Pledge p t →
        j.machine.Pledge p t := fun p hlt ⟨c, hc, htask⟩ => by
      rw [hpromises, List.getElem?_append_left hlt] at hc
      exact ⟨c, hc, htask⟩
    refine S.tell hbody (fun p s hs hp => ?_) (fun p panic hs hp => ?_) (Or.inl (htoldOf htold))
    · rcases hholds _ rfl hs with hs | heq
      · have hlt := P.there p (Or.inl (mem_held.mpr ⟨_, hs, rfl⟩))
        exact Or.inl ⟨hs, hold p hlt hp⟩
      · -- it is the promise that was made just now
        obtain ⟨rfl, rfl⟩ := Instr.setup.inj heq
        obtain ⟨c, hc, htask⟩ := hp
        rw [hpromises, List.getElem?_concat_length] at hc
        obtain rfl := Option.some.inj hc
        obtain rfl : t' = t := htask
        obtain ⟨x, hx, hbody⟩ := S.body
        rw [hx] at hbody'
        have hsome : x.body = some (.promise s) := hbody'
        rcases hbody with hnone | hsame
        · cases hnone.symm.trans hsome
        · exact Or.inr (Body.promise.inj (Option.some.inj (hsome.symm.trans hsame)))
    · rcases hholds _ rfl hs with hs | heq
      · have hlt := P.there p (Or.inr (mem_held.mpr ⟨_, hs, rfl⟩))
        exact Or.inl ⟨hs, hold p hlt hp⟩
      · cases heq
  | @begun p setup' hi hpromises htold _ _ hholds =>
    obtain ⟨c, hc, -, -, haccount⟩ := P.account_before hi
    rw [hc] at htold
    have hback : ∀ q, k.machine.Pledge q t → j.machine.Pledge q t :=
      fun q => Pledge.of_modify (fun c => PromiseCell.task_after c _) hpromises
    have hscript : c.task = t → setup' = setup := fun htask => S.before p setup' hi ⟨c, hc, htask⟩
    refine S.tell hbody (fun q s hs hq => ?_) (fun q panic hs hq => ?_) ?_
    · rcases hholds _ rfl hs with hs | heq
      · exact Or.inl ⟨hs, hback q hq⟩
      · cases heq
    · rcases hholds _ rfl hs with hs | heq
      · exact Or.inl ⟨hs, hback q hq⟩
      · obtain ⟨rfl, rfl⟩ := Instr.setupEnd.inj heq
        exact Or.inr (S.before q setup' hi (hback q hq) ▸ rfl)
    · rw [toldOf_concat htold]
      split_ifs with htask
      · obtain rfl := hscript htask
        refine Or.inr ⟨_, rfl, fun _ => rfl, fun hend => ?_⟩
        cases hstep : setup'.step <;> rw [hstep] at hend <;> cases hend
      · exact Or.inl rfl
  | @ended p panic hi hpromises htold _ _ hholds =>
    obtain ⟨c, hc, -, -, haccount⟩ := P.account_during hi
    rw [hc] at htold
    have hback : ∀ q, k.machine.Pledge q t → j.machine.Pledge q t :=
      fun q => Pledge.of_modify (fun c => PromiseCell.task_after c _) hpromises
    refine S.tell hbody (fun q s hs hq => Or.inl ⟨hholds _ rfl hs, hback q hq⟩)
      (fun q panic hs hq => Or.inl ⟨hholds _ rfl hs, hback q hq⟩) ?_
    rw [toldOf_concat htold]
    split_ifs with htask
    · obtain rfl := S.during p panic hi ⟨c, hc, htask⟩
      exact Or.inr ⟨_, rfl, fun hnil => absurd (htask ▸ hnil) haccount.told_ne_nil, fun _ => rfl⟩
    · exact Or.inl rfl

/-- Callers leave the setups alone. -/
theorem Scripted.around {m : Machine α} (S : j.Scripted t setup) (hmove : j.machine.Move m)
    (hpromises : m.promises = j.machine.promises) :
    Scripted { j with chronicle := { j.chronicle with machine := m } } t setup := by
  have haround := hmove.around
  have hheld : ∀ i : Instr α, i.isSetup = true → m.Holds i → j.machine.Holds i := by
    intro i hsetup hi
    refine (haround.of_holds hi).resolve_right fun hcall => ?_
    cases hcall.1.isSetup_eq_false.symm.trans hsetup
  obtain ⟨x, hx, hbody⟩ := S.body
  exact S.tell ⟨x, haround.beside.getElem?_tasks hx, hbody⟩
    (fun p s hs hp => Or.inl ⟨hheld _ rfl hs, hp.of_eq hpromises.symm⟩)
    (fun p panic hs hp => Or.inl ⟨hheld _ rfl hs, hp.of_eq hpromises.symm⟩) (Or.inl rfl)

theorem Scripted.resolve {m : Machine α} {k : TaskId} {result : Option (TaskResult α)}
    (S : j.Scripted t setup) (P : j.Pledged) (h : j.machine.resolve? k result = some m) :
    Scripted { chronicle := { j.chronicle with machine := m }
               told := j.told ++ [(k, .ofUse result)] } t setup := by
  obtain ⟨p, c, hc, rfl, hkept, rfl⟩ := resolve?_cell h
  have haccount := P.accounts p c hc
  have hnonempty : j.toldOf c.task ≠ [] := by
    rw [(haccount.resolver_of_kept hkept).1] at haccount
    exact haccount.told_ne_nil
  have hback : ∀ q, Pledge { j.machine with
      promises := j.machine.promises.modify p (·.after (.ofUse result)) } q t →
      j.machine.Pledge q t :=
    fun q => Pledge.of_modify (fun c => PromiseCell.task_after c _) rfl
  refine S.tell S.body (fun q s hs hq => Or.inl ⟨hs, hback q hq⟩)
    (fun q panic hs hq => Or.inl ⟨hs, hback q hq⟩) ?_
  rw [toldOf_concat (j := j) rfl]
  split_ifs with htask
  · refine Or.inr ⟨_, rfl, fun hnil => absurd (htask ▸ hnil) hnonempty, fun hend => ?_⟩
    cases result <;> cases hend
  · exact Or.inl rfl

/-- **What is told of a promise is what its setup does**, in every run. -/
theorem Reaches.scripted {j₀ : Journal α} {x : TaskCell α} (h₀ : (start config workers).Reaches j₀)
    (hx : j₀.machine.tasks[t]? = some x) (hbody : x.body = some (.promise setup))
    (hpending : x.state = .pending) (h : j₀.Reaches j) : j.Scripted t setup := by
  induction h with
  | refl =>
    have P := h₀.pledged
    have hstate : j₀.machine.state t = .pending := (cell_eq hx).1.trans hpending
    have hnone : ∀ p, ¬ j₀.machine.Pledge p t := fun p ⟨c, hc, htask⟩ =>
      (P.entered p c hc).2 (htask ▸ hstate)
    have htold := P.toldOf_eq_nil fun p c hc htask => hnone p ⟨c, hc, htask⟩
    refine ⟨⟨x, hx, Or.inr hbody⟩, fun p _ _ hp => absurd hp (hnone p),
      fun p _ _ hp => absurd hp (hnone p), fun e he => ?_, fun e he => ?_⟩
    · rw [htold] at he
      cases he
    · rw [htold] at he
      exact absurd he List.not_mem_nil
  | turn hreach heedStop self hturn ih => exact ih.turn (h₀.trans hreach) hturn
  | move _ hmove hpromises ih => exact ih.around hmove hpromises
  | resolve hreach k result hresolve ih => exact ih.resolve (h₀.trans hreach).pledged hresolve

/-! ### The main result -/

/-- **How a promise settles.**  Let a task be created whose body is a promise, let the machine run
in any way, and let somebody have begun the body.  Then:

* what has happened to the promise begins with what its setup does with the resolver, the resolver
  is used or dropped once at most, and the setup ends once at most, as it says;
* the first of these happenings that settles a promise stands, whatever comes later;
* the promise settles once at most, and either with that, or as cancelled when it was cancelled or
  its signal was given;
* when there is such a happening or the signal was given, then who runs the body need not wait any
  more, however things go on, and has settled the promise after three steps at most;
* when a call that cancels it is over, it has settled, and as cancelled if nothing came first;
* when the machine has come to rest, it has settled with the first such happening unless it was
  cancelled, and it is abandoned exactly if it was not cancelled first and the resolver was dropped,
  the setup has returned, and nothing was sent; or else this very error is what was sent. -/
theorem Reaches.promise_settles {j₀ : Journal α} {x : TaskCell α}
    (h₀ : (start config workers).Reaches j₀) (hx : j₀.machine.tasks[t]? = some x)
    (hbody : x.body = some (.promise setup)) (hpending : x.state = .pending) (h : j₀.Reaches j)
    (hn : (n, t) ∈ j.chronicle.begun) :
    ((∀ e, (j.toldOf t).head? = some e → e = .ofStep setup.step) ∧
      (∀ e ∈ j.toldOf t, e.isEnd = true → e = .ofPanic setup.panic) ∧
      (j.toldOf t).countP Happening.isUse ≤ 1 ∧ (j.toldOf t).countP Happening.isEnd ≤ 1) ∧
    (∀ r, settlement (j.toldOf t) = some r →
      ∀ k, j.Reaches k → settlement (k.toldOf t) = some r) ∧
    (∀ r, j.machine.outcome t = some r →
      (settlement (j.toldOf t) = some r ∨
        r = .error .cancelled ∧ (t ∈ j.chronicle.cancels ∨ j.machine.token t = true)) ∧
      ∀ k, j.Reaches k → k.machine.outcome t = some r) ∧
    ((settlement (j.toldOf t)).isSome = true ∨ j.machine.token t = true →
      ∀ k, j.Reaches k → k.machine.outcome t = none →
        (∀ heedStop, k.turn heedStop n ≠ none) ∧
          k.chronicle.stepsOf n < j.chronicle.stepsOf n + 3) ∧
    (t ∈ j.chronicle.cancels → ¬ j.machine.Cancelling t →
      ∃ r, j.machine.outcome t = some r ∧
        (settlement (j.toldOf t) = none → r = .error .cancelled)) ∧
    (j.machine.AtRest →
      (t ∉ j.chronicle.cancels → j.machine.token t = false →
        j.machine.outcome t = settlement (j.toldOf t)) ∧
      (t ∈ j.chronicle.cancels ∨ j.machine.token t = true →
        (j.machine.outcome t).isSome = true) ∧
      (j.machine.outcome t = some (.error .abandoned) ↔
        j.machine.outcome t ≠ some (.error .cancelled) ∧
          ((∀ e ∈ j.toldOf t, e.result? = none) ∧ .dropped ∈ j.toldOf t ∧ .returned ∈ j.toldOf t ∨
            (j.toldOf t).findSome? Happening.result? = some (.error .abandoned)))) := by
  have hj := h₀.trans h
  have hc := hj.chronicle
  have P := hj.pledged
  have S := h₀.scripted hx hbody hpending h
  have M := (pledging config workers t setup).minded h₀.chronicle hx hbody hpending h.chronicle
  have hgives : ∀ r, settlement (j.toldOf t) = some r → j.machine.CanGive t r :=
    fun r hr => Or.inl (P.promised_iff.mpr hr)
  have hresult : ∀ r, j.machine.outcome t = some r → settlement (j.toldOf t) = some r ∨
      r = .error .cancelled ∧ (t ∈ j.chronicle.cancels ∨ j.machine.token t = true) := by
    intro r hr
    rcases M.result_eq hn hr with ⟨hcut, hcancel⟩ | hpromised | ⟨hcut, htoken⟩
    · exact Or.inr ⟨hcut, Or.inl hcancel⟩
    · exact Or.inl (P.promised_iff.mp hpromised)
    · exact Or.inr ⟨hcut, Or.inr htoken⟩
  have hcancelled : t ∈ j.chronicle.cancels → ¬ j.machine.Cancelling t →
      ∃ r, j.machine.outcome t = some r := by
    intro ht hover
    have hterminal := (hc.cancelling t ht).resolve_right hover
    rw [← hc.isSome_outcome t] at hterminal
    exact Option.isSome_iff_exists.mp hterminal
  have hcan : (settlement (j.toldOf t)).isSome = true ∨ j.machine.token t = true →
      ∃ r, j.machine.CanGive t r := by
    rintro (hsome | htoken)
    · obtain ⟨r, hr⟩ := Option.isSome_iff_exists.mp hsome
      exact ⟨r, hgives r hr⟩
    · exact ⟨_, Or.inr ⟨rfl, htoken⟩⟩
  have hquiet : j.machine.AtRest → (∃ r, j.machine.CanGive t r) →
      ∃ r, j.machine.outcome t = some r :=
    fun hrest ⟨r, hr⟩ => M.isSome_of_atRest hc hn hrest hr
  refine ⟨⟨S.first, S.last, P.once t⟩, fun r hr k hk => hj.settlement_later hk hr,
    fun r hr => ⟨hresult r hr, fun k hk => hc.outcome_later hk.chronicle hr⟩,
    fun hsome k hk hopen => ?_, fun ht hover => ?_, fun hrest => ⟨fun hnot htoken => ?_,
    fun hsome => ?_, ?_⟩⟩
  · obtain ⟨r, hr⟩ := hcan hsome
    obtain ⟨hgoes, hsteps⟩ := M.goes_on hc hn hk.chronicle hr hopen
    refine ⟨fun heedStop hnone => hgoes heedStop ?_, hsteps⟩
    exact Option.map_eq_none_iff.mp hnone
  · obtain ⟨r, hr⟩ := hcancelled ht hover
    refine ⟨r, hr, fun hnone => ?_⟩
    rcases hresult r hr with hsettled | ⟨hcut, -⟩
    · cases hnone.symm.trans hsettled
    · exact hcut
  · have hsettled : ∀ r, j.machine.outcome t = some r → settlement (j.toldOf t) = some r :=
      fun r hr => (hresult r hr).resolve_right fun ⟨_, hcut⟩ =>
        hcut.elim hnot (Bool.eq_false_iff.mp htoken)
    cases hopen : settlement (j.toldOf t) with
    | none =>
      refine Option.eq_none_iff_forall_not_mem.mpr fun r hr => ?_
      cases hopen.symm.trans (hsettled r hr)
    | some r =>
      obtain ⟨r', hr'⟩ := hquiet hrest ⟨r, hgives r hopen⟩
      rw [hr', ← hsettled r' hr', hopen]
  · refine Option.isSome_iff_exists.mpr (hsome.elim (fun ht => ?_) fun htoken => ?_)
    · exact hcancelled ht hrest.not_cancelling
    · exact hquiet hrest (hcan (Or.inr htoken))
  · rw [or_comm, ← settlement_eq_abandoned]
    constructor
    · intro habandoned
      rw [habandoned]
      refine ⟨nofun, (hresult _ habandoned).resolve_right fun hcut => ?_⟩
      cases hcut.1
    · rintro ⟨hnot, hsettled⟩
      obtain ⟨r, hr⟩ := hquiet hrest ⟨_, hgives _ hsettled⟩
      rcases hresult r hr with hfirst | ⟨rfl, -⟩
      · rw [hr, ← hfirst, hsettled]
      · exact absurd hr hnot

/-! ### A run -/

/-- A promise whose setup drops the resolver and then panics. -/
def reckless : Journal Nat :=
  (start { workers := 1 } 0).act fun m =>
    (m.newTask (.promise { text := "", step := .drop, panic := some "boom" })).2

theorem reaches_reckless : (start { workers := 1 } 0).Reaches reckless :=
  Reaches.refl.act (.newTask _ none rfl) rfl

/-- The strand 0 runs it and waits, the resolver is dropped by the strand 1, and somebody looks
whether the promise has settled. -/
def dropped : Journal Nat := (reckless.act fun m => (m.call [.start 0]).2).run [0, 0, 0, 1, 0]

/-- The setup has panicked, the promise has settled, and the strand 2 has tried to cancel it. -/
def panicked : Journal Nat :=
  ((dropped.run (1 :: List.replicate 4 0)).act fun m => (m.call [.cancel 0]).2).run [2]

theorem reaches_panicked : reckless.Reaches panicked := by
  have hcall : ∀ (j : Journal Nat) (i : Instr Nat), i.IsCall → i.Grounded 0 →
      j.machine.Move (j.machine.call [i]).2 := fun j i hi hgrounded =>
    .call [i] (List.forall_mem_singleton.mpr ⟨hi, hgrounded.mono (Nat.zero_le _)⟩)
  have hdropped : reckless.Reaches dropped :=
    (Reaches.refl.act (hcall _ (.start 0) trivial trivial) rfl).run _
  exact ((hdropped.run _).act (hcall _ (.cancel 0) trivial trivial) rfl).run _

/-- **A promise is not abandoned while its setup runs**: here the resolver is dropped first, and the
promise settles with the panic that comes after that; the cancellation comes too late. -/
theorem panicked_settles : dropped.machine.outcome 0 = none ∧
    panicked.machine.outcome 0 = some (.error (.panicked "boom")) ∧
    ∀ k, panicked.Reaches k → k.machine.outcome 0 = some (.error (.panicked "boom")) := by
  have hbegun : (0, 0) ∈ panicked.chronicle.begun := by decide +kernel
  have houtcome : panicked.machine.outcome 0 = some (.error (.panicked "boom")) := by
    decide +kernel
  have hsettles := reaches_reckless.promise_settles (t := 0) rfl rfl rfl reaches_panicked hbegun
  exact ⟨by decide +kernel, houtcome, (hsettles.2.2.1 _ houtcome).2⟩

end Journal

end ManagedHost
