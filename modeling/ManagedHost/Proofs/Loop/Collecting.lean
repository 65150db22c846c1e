import ManagedHost.Proofs.Loop.Awaiting

/-!
# Waiting for all of some tasks

The body of such a task waits for the others one after the other, in the order of the list, each
until it has settled.  What it gives is a matter of their outcomes alone: `verdict` says what these
amount to, as far as they are known, whatever the order in which they have become known.

`Machine.Collects` says how far a strand can be with the body, which makes it a body that waits
(`Chronicle.collecting`).  The main result is `Reaches.all_settles`.
-/

namespace ManagedHost

variable {α : Type}

/-! ### What the outcomes amount to -/

/-- **What some outcomes amount to**, when they are those of tasks that are all waited for: all of
the values, or the first error.  `none` while that is open. -/
def verdict (pack : List α → α) : List (Option (TaskResult α)) → Option (TaskResult α)
  | [] => some (.ok (pack []))
  | none :: _ => none
  | some (.error e) :: _ => some (.error e)
  | some (.ok value) :: rest => verdict (fun values => pack (value :: values)) rest

section Verdict

variable {pack : List α → α} {outcomes : List (Option (TaskResult α))} {values : List α}
  {e : TaskError} {r : TaskResult α}

/-- Values at the beginning decide nothing, and are kept in their order. -/
theorem verdict_append (pack : List α → α) (values : List α)
    (outcomes : List (Option (TaskResult α))) :
    verdict pack (values.map (fun v => some (Except.ok v)) ++ outcomes) =
      verdict (fun rest => pack (values ++ rest)) outcomes := by
  induction values generalizing pack with
  | nil => rfl
  | cons v rest ih => exact ih fun values => pack (v :: values)

theorem verdict_values (pack : List α → α) (values : List α) :
    verdict pack (values.map fun v => some (.ok v)) = some (.ok (pack values)) := by
  have happend := verdict_append pack values []
  rw [List.append_nil] at happend
  rw [happend, verdict, List.append_nil]

/-- The values before the first outcome that is not a value. -/
theorem exists_values (outcomes : List (Option (TaskResult α))) : ∃ values : List α,
    outcomes = values.map (fun v => some (.ok v)) ∨
      (∃ rest, outcomes = values.map (fun v => some (Except.ok v)) ++ none :: rest) ∨
      ∃ e rest,
        outcomes = values.map (fun v => some (Except.ok v)) ++ some (Except.error e) :: rest := by
  induction outcomes with
  | nil => exact ⟨[], Or.inl rfl⟩
  | cons first rest ih =>
    match first with
    | none => exact ⟨[], Or.inr (Or.inl ⟨rest, rfl⟩)⟩
    | some (.error e) => exact ⟨[], Or.inr (Or.inr ⟨e, rest, rfl⟩)⟩
    | some (.ok v) =>
      obtain ⟨values, hvalues⟩ := ih
      refine ⟨v :: values, hvalues.imp ?_ (Or.imp ?_ ?_)⟩
      · rintro rfl
        rfl
      · rintro ⟨more, rfl⟩
        exact ⟨more, rfl⟩
      · rintro ⟨e, more, rfl⟩
        exact ⟨e, more, rfl⟩

/-- **The verdict is the list of all values in their order, or the first error in their order.** -/
theorem verdict_eq_some : verdict pack outcomes = some r ↔
    (∃ values : List α, outcomes = values.map (fun v => some (.ok v)) ∧ r = .ok (pack values)) ∨
      ∃ (values : List α) (e : TaskError) (rest : List (Option (TaskResult α))),
        outcomes = values.map (fun v => some (Except.ok v)) ++ some (Except.error e) :: rest ∧
          r = .error e := by
  constructor
  · intro h
    obtain ⟨values, rfl | ⟨rest, rfl⟩ | ⟨e, rest, rfl⟩⟩ := exists_values outcomes
    · rw [verdict_values] at h
      exact Or.inl ⟨values, rfl, (Option.some.inj h).symm⟩
    · rw [verdict_append] at h
      cases h
    · rw [verdict_append] at h
      exact Or.inr ⟨values, e, rest, rfl, (Option.some.inj h).symm⟩
  · rintro (⟨values, rfl, rfl⟩ | ⟨values, e, rest, rfl, rfl⟩)
    · exact verdict_values pack values
    · exact verdict_append pack values _

/-- There is a verdict when all have given a value, or one has given an error and all before it a
value. -/
theorem isSome_verdict {tasks : List TaskId} {f : TaskId → Option (TaskResult α)} :
    (verdict pack (tasks.map f)).isSome = true ↔
      (∀ k ∈ tasks, ∃ value, f k = some (.ok value)) ∨
        ∃ before k after, tasks = before ++ k :: after ∧ (∃ e, f k = some (.error e)) ∧
          ∀ j ∈ before, ∃ value, f j = some (.ok value) := by
  induction tasks generalizing pack with
  | nil => simp [verdict]
  | cons first rest ih =>
    match hfirst : f first with
    | none =>
      simp only [List.map_cons, hfirst, verdict, Option.isSome_none, Bool.false_eq_true, false_iff,
        not_or]
      refine ⟨fun h => ?_, ?_⟩
      · obtain ⟨value, hvalue⟩ := h first List.mem_cons_self
        cases hfirst.symm.trans hvalue
      · rintro ⟨before, k, after, htasks, ⟨e, he⟩, hbefore⟩
        cases before with
        | nil =>
          obtain ⟨rfl, -⟩ := List.cons.inj htasks
          cases hfirst.symm.trans he
        | cons j _ =>
          obtain ⟨rfl, -⟩ := List.cons.inj htasks
          obtain ⟨value, hvalue⟩ := hbefore first List.mem_cons_self
          cases hfirst.symm.trans hvalue
    | some (.error e) =>
      simp only [List.map_cons, hfirst, verdict, Option.isSome_some, true_iff]
      exact Or.inr ⟨[], first, rest, rfl, ⟨e, hfirst⟩, fun _ h => absurd h List.not_mem_nil⟩
    | some (.ok v) =>
      simp only [List.map_cons, hfirst, verdict, ih]
      refine or_congr ⟨fun h => ?_, fun h k hk => h k (List.mem_cons_of_mem _ hk)⟩ ⟨?_, ?_⟩
      · exact List.forall_mem_cons.mpr ⟨⟨v, hfirst⟩, h⟩
      · rintro ⟨before, k, after, rfl, he, hbefore⟩
        exact ⟨first :: before, k, after, rfl, he, List.forall_mem_cons.mpr ⟨⟨v, hfirst⟩, hbefore⟩⟩
      · rintro ⟨before, k, after, htasks, ⟨e, he⟩, hbefore⟩
        cases before with
        | nil =>
          obtain ⟨rfl, -⟩ := List.cons.inj htasks
          cases hfirst.symm.trans he
        | cons j before =>
          obtain ⟨rfl, rfl⟩ := List.cons.inj htasks
          exact ⟨before, k, after, rfl, ⟨e, he⟩, (List.forall_mem_cons.mp hbefore).2⟩

/-- A verdict stands when more outcomes become known. -/
theorem verdict_mono {tasks : List TaskId} {f g : TaskId → Option (TaskResult α)}
    (hmono : ∀ k r, f k = some r → g k = some r) (h : verdict pack (tasks.map f) = some r) :
    verdict pack (tasks.map g) = some r := by
  induction tasks generalizing pack with
  | nil => exact h
  | cons first rest ih =>
    match hfirst : f first with
    | none =>
      rw [List.map_cons, hfirst] at h
      cases h
    | some (.error e) =>
      rw [List.map_cons, hfirst] at h
      rw [List.map_cons, hmono first _ hfirst]
      exact h
    | some (.ok v) =>
      rw [List.map_cons, hfirst] at h
      rw [List.map_cons, hmono first _ hfirst]
      exact ih h

end Verdict

/-- The steps that are left of a body that waits for `n` tasks, at most. -/
def Instr.stepsLeft (n : Nat) : Instr α → Nat
  | enter _ => n + 3
  | awaitAll _ rest _ _ => rest.length + 2
  | settle _ _ _ _ => 1
  | _ => 0

namespace Machine

variable {m m' m₁ : Machine α} {t : TaskId} {self : Nat} {heedStop : Bool} {i j : Instr α}
  {code : List (Instr α)} {tasks : List TaskId} {pack : List α → α}

/-! ### One step of the body -/

/-- **How far a strand can be with waiting for all of the tasks**: those that it is done with have
given the values that it has got, and it settles with the verdict. -/
def Collects (m : Machine α) (tasks : List TaskId) (pack : List α → α) : Instr α → Prop
  | .enter _ => True
  | .awaitAll _ rest got pack' => pack' = pack ∧ ∃ done, tasks = done ++ rest ∧
      done.map m.outcome = got.reverse.map fun v => some (.ok v)
  | .settle _ _ r _ => verdict pack (tasks.map m.outcome) = some r
  | _ => False

theorem Collects.mono (h : m.Collects tasks pack i)
    (hmono : ∀ k r, m.outcome k = some r → m'.outcome k = some r) : m'.Collects tasks pack i := by
  cases i with
  | enter => trivial
  | settle => exact verdict_mono hmono h
  | awaitAll t rest got pack' =>
    obtain ⟨hpack, done, htasks, hdone⟩ := h
    refine ⟨hpack, done, htasks, ?_⟩
    rw [← hdone]
    refine List.map_congr_left fun k hk => ?_
    -- all that it is done with have settled
    have hmem : m.outcome k ∈ done.map m.outcome := List.mem_map_of_mem hk
    rw [hdone] at hmem
    obtain ⟨v, -, hv⟩ := List.mem_map.mp hmem
    rw [← hv]
    exact hmono k _ hv.symm
  | _ => exact h.elim

theorem Collects.stepsLeft_le (h : m.Collects tasks pack i) :
    0 < i.stepsLeft tasks.length ∧ i.stepsLeft tasks.length ≤ tasks.length + 3 := by
  cases i with
  | enter => exact ⟨Nat.succ_pos _, Nat.le_refl _⟩
  | settle => exact ⟨Nat.one_pos, Nat.le_add_left 1 _⟩
  | awaitAll t rest got pack' =>
    obtain ⟨-, done, rfl, -⟩ := h
    rw [List.length_append]
    show 0 < rest.length + 2 ∧ rest.length + 2 ≤ _
    omega
  | _ => exact h.elim

/-- The verdict of the tasks when the first of them have given the values that were got. -/
theorem verdict_done {done rest : List TaskId} {got : List α}
    (hdone : done.map m.outcome = got.map fun v => some (.ok v)) :
    verdict pack ((done ++ rest).map m.outcome) =
      verdict (fun values => pack (got ++ values)) (rest.map m.outcome) := by
  rw [List.map_append, hdone, verdict_append]

/-- **One step of the body**: one more task is done with, or there is the verdict. -/
theorem exec_collects (hi : i.Bears t) (hc : m.Collects tasks pack i)
    (hbody : i = .enter t → m.tasks[t]?.bind TaskCell.body = some (.all tasks pack))
    (h : m.exec heedStop self i = some (m₁, code)) :
    (∃ j, code = [j] ∧ j.Bears t ∧ j.stepsLeft tasks.length < i.stepsLeft tasks.length ∧
      ∀ m' : Machine α, m'.tasks = m₁.tasks → m'.Collects tasks pack j) ∨
    ∃ r, i = .settle t .running r .run := by
  have houtcome : ∀ m' : Machine α, m'.tasks = m.tasks → m'.outcome = m.outcome := by
    intro m' htasks
    unfold outcome
    rw [htasks]
  cases i with
  | enter k =>
    obtain rfl : k = t := hi
    obtain ⟨x, hx, hbody⟩ := Option.bind_eq_some_iff.mp (hbody rfl)
    have hrule : m.Rule heedStop self _ _ _ := .enterAll hx hbody
    obtain ⟨-, rfl⟩ := Prod.mk.inj (Option.some.inj (hrule.exec_eq.symm.trans h))
    exact Or.inl ⟨_, rfl, rfl, Nat.lt_succ_self _, fun _ _ => ⟨rfl, [], rfl, rfl⟩⟩
  | awaitAll k rest got pack' =>
    obtain rfl : k = t := hi
    obtain ⟨rfl, done, rfl, hdone⟩ := hc
    refine Or.inl ?_
    cases exec_ruled h with
    | allDone =>
      refine ⟨_, rfl, ⟨rfl, rfl, rfl⟩, Nat.lt_succ_self _, fun m' htasks => ?_⟩
      show verdict pack' _ = _
      rw [houtcome m' htasks, verdict_done hdone, List.map_nil, verdict, List.append_nil]
    | @allNext _ first rest _ _ value hfirst =>
      refine ⟨_, rfl, rfl, Nat.lt_succ_self _, fun m' htasks => ⟨rfl, done ++ [first], ?_, ?_⟩⟩
      · rw [List.append_assoc, List.singleton_append]
      · rw [houtcome m' htasks, List.map_append, hdone, List.map_singleton, hfirst,
          List.reverse_cons, List.map_append, List.map_singleton]
    | allError hfirst =>
      refine ⟨_, rfl, ⟨rfl, rfl, rfl⟩, Nat.succ_lt_succ (Nat.zero_lt_succ _), fun m' htasks => ?_⟩
      show verdict pack' _ = _
      rw [houtcome m' htasks, verdict_done hdone, List.map_cons, hfirst]
      rfl
  | settle k old r mode =>
    obtain ⟨rfl, rfl, rfl⟩ := hi
    exact Or.inr ⟨r, rfl⟩
  | _ => exact hc.elim

/-- The body need not wait when there is a verdict. -/
theorem exec_collects_ne_none (hi : i.Bears t) (hc : m.Collects tasks pack i)
    (hverdict : (verdict pack (tasks.map m.outcome)).isSome = true) :
    m.exec heedStop self i ≠ none := by
  intro hnone
  cases exec_waits hnone with
  | all hfirst =>
    obtain ⟨rfl, done, rfl, hdone⟩ := hc
    rw [verdict_done hdone, List.map_cons, hfirst] at hverdict
    cases hverdict
  -- what else may wait is not an instruction of the body
  | _ => exact hc.elim

end Machine

namespace Chronicle

open Machine

variable {c d : Chronicle α} {heedStop : Bool} {self n : Nat} {t : TaskId} {tasks : List TaskId}
  {pack : List α → α} {config : LoopConfig} {workers : Nat}

/-! ### Runs -/

/-- Waiting for all of the tasks, as a body that waits. -/
def collecting (config : LoopConfig) (workers : Nat) (t : TaskId) (tasks : List TaskId)
    (pack : List α → α) : Conduct config workers t (.all tasks pack) where
  stage m i := m.Collects tasks pack i
  gives m r := verdict pack (tasks.map m.outcome) = some r
  stepsLeft := Instr.stepsLeft tasks.length
  enter _ := trivial
  settle _ _ := id
  stepsLeft_le _ _ _ hi := hi.stepsLeft_le
  exec c _ heedStop self i m₁ code _ hi hc hbody hexec := by
    refine (exec_collects hi hc hbody hexec).imp_left ?_
    rintro ⟨j, rfl, hj, hless, hcollects⟩
    exact ⟨j, rfl, hj, hless, fun m htasks _ => hcollects m htasks⟩
  ready c _ i r hi hc hr _ _ := exec_collects_ne_none hi hc (hr ▸ rfl)
  stage_turn c d hc _ _ hturn _ hi := hi.mono fun _ _ => hc.governed.outcome_step (turn_step hturn)
  stage_move c _ m hmove _ hi := hi.mono fun _ _ => hmove.around.outcome
  gives_turn c d hc _ _ hturn _ :=
    verdict_mono fun _ _ => hc.governed.outcome_step (turn_step hturn)
  gives_move c _ m hmove _ := verdict_mono fun _ _ => hmove.around.outcome

/-! ### The main result -/

/-- A task is left in the queue of a loop at rest only when there is no worker to run it. -/
theorem no_worker_of_mem_queue {m : Machine α} (hrest : m.AtRest) (ht : t ∈ m.loop.queue)
    {s : Strand α} (hs : s ∈ m.strands) (hrole : s.role = .worker) :
    s.exited = true ∨ s.code ≠ [] := by
  by_contra hfree
  obtain ⟨hexited, hcode⟩ := not_or.mp hfree
  obtain ⟨self, hself⟩ := List.mem_iff_getElem?.mp hs
  have hidle := hrest.idleStep_eq_none hself (Bool.eq_false_iff.mpr hexited) (not_not.mp hcode) 0
    false
  rw [hrole] at hidle
  simp only [idleStep] at hidle
  split_ifs at hidle
  split at hidle
  · cases hidle
  · next hqueue =>
    have hqueue' : m.loop.queue = [] := hqueue
    rw [hqueue'] at ht
    exact absurd ht List.not_mem_nil

/-- **Waiting for all of some tasks.**  Let a task be created whose body waits for some tasks, and
let the machine run in any way, so that these settle in any order, or never; the task itself is not
cancelled.  A worker takes it from the queue unless there is none to spare.  And when it is run by
somebody:

* it settles with the verdict of the others' outcomes: the values of all in the order of the list,
  or the error of the first in the order of the list that has failed, all before it having given a
  value;
* as soon as there is a verdict, and however things go on, who runs it need not wait any more, and
  has settled it after as many steps as there are tasks and three more;
* when the machine has come to rest, it has settled exactly if there is a verdict, that is, if all
  have given a value, or one has failed and all before it have given a value; its outcome is then a
  function of the individual outcomes, whatever the order in which these came about. -/
theorem Reaches.all_settles {c₀ : Chronicle α} {x : TaskCell α}
    (h₀ : (start config workers).Reaches c₀) (hx : c₀.machine.tasks[t]? = some x)
    (hbody : x.body = some (.all tasks pack)) (hpending : x.state = .pending) (h : c₀.Reaches c)
    (hcancel : t ∉ c.cancels) :
    (c.machine.AtRest → t ∈ c.machine.loop.queue →
      ∀ s ∈ c.machine.strands, s.role = .worker → s.exited = true ∨ s.code ≠ []) ∧
    ∀ n, (n, t) ∈ c.begun →
      (∀ r, c.machine.outcome t = some r →
        verdict pack (tasks.map c.machine.outcome) = some r) ∧
      ((verdict pack (tasks.map c.machine.outcome)).isSome = true →
        ∀ d, c.Reaches d → d.machine.outcome t = none →
          (∀ heedStop, d.turn heedStop n ≠ none) ∧
            d.stepsOf n < c.stepsOf n + (tasks.length + 3)) ∧
      (c.machine.AtRest →
        c.machine.outcome t = verdict pack (tasks.map c.machine.outcome) ∧
        ((c.machine.outcome t).isSome = true ↔
          (∀ k ∈ tasks, ∃ value, c.machine.outcome k = some (.ok value)) ∨
          ∃ before k after, tasks = before ++ k :: after ∧
            (∃ e, c.machine.outcome k = some (.error e)) ∧
            ∀ j ∈ before, ∃ value, c.machine.outcome j = some (.ok value))) := by
  have hc := h₀.trans h
  have M := (collecting config workers t tasks pack).minded h₀ hx hbody hpending h
  refine ⟨fun hrest ht s hs hrole => no_worker_of_mem_queue hrest ht hs hrole, fun n hn => ?_⟩
  have hresult : ∀ r, c.machine.outcome t = some r →
      verdict pack (tasks.map c.machine.outcome) = some r :=
    fun r hr => (M.result_eq hn hr).resolve_left fun hcut => hcancel hcut.2
  have hsettled : c.machine.AtRest → c.machine.outcome t =
      verdict pack (tasks.map c.machine.outcome) := by
    intro hrest
    cases hverdict : verdict pack (tasks.map c.machine.outcome) with
    | none =>
      refine Option.eq_none_iff_forall_not_mem.mpr fun r hr => ?_
      cases hverdict.symm.trans (hresult r hr)
    | some r =>
      obtain ⟨r', hr'⟩ := M.isSome_of_atRest hc hn hrest hverdict
      rw [hr', ← hresult r' hr', hverdict]
  refine ⟨hresult, fun hverdict d hd hopen => ?_, fun hrest => ⟨hsettled hrest, ?_⟩⟩
  · obtain ⟨r, hr⟩ := Option.isSome_iff_exists.mp hverdict
    exact M.goes_on hc hn hd hr hopen
  · rw [hsettled hrest]
    exact isSome_verdict

/-! ### A run -/

/-- A loop with one worker and three tasks, of which the third waits for the first two and writes
their values one after the other.  The strands 0, 1 and 2 are the threads of the loop. -/
def gathering : Chronicle Nat :=
  ((((start { workers := 1 } 0).act fun m =>
    (m.newTask (.script [] (.done (.returns (.ok 5))))).2).act fun m =>
    (m.newTask (.script [] (.done (.returns (.ok 7))))).2).act fun m =>
    (m.newTask (.all [0, 1] fun values => values.foldl (fun n v => 10 * n + v) 0)).2).act startLoop

theorem reaches_gathering : (start { workers := 1 } 0).Reaches gathering :=
  (((Reaches.refl.act (.newTask _ none rfl)).act (.newTask _ none rfl)).act
    (.newTask _ none rfl)).act .startLoop

/-- The worker waits, and the second of the two tasks has settled. -/
def halfGathered : Chronicle Nat :=
  (((gathering.call (.submit 2 .caller)).run [3, 3, 3, 0, 0, 0]).call (.start 1)).run
    (List.replicate 6 4 ++ [0])

/-- The first of the two has settled as well, and the worker has counted the third. -/
def gathered : Chronicle Nat :=
  (halfGathered.call (.start 0)).run (List.replicate 6 5 ++ List.replicate 9 0)

theorem reaches_gathered : gathering.Reaches gathered :=
  ((((Reaches.refl.call (.submit 2 .caller) trivial trivial).run _).call (.start 1) trivial
    trivial).run _).call (.start 0) trivial trivial |>.run _

/-- **The values come in the order of the list, and not in that in which the tasks settled.** -/
theorem gathered_settles : halfGathered.machine.outcome 1 = some (.ok 7) ∧
    halfGathered.machine.outcome 2 = none ∧ gathered.machine.outcome 2 = some (.ok 57) := by
  have hbegun : (0, 2) ∈ gathered.begun := by decide +kernel
  have hrest : gathered.machine.AtRest := by
    have hstrands : (gathered.machine.strands.all fun s =>
        s.code.isEmpty && s.role != .dispatcher) = true := by decide +kernel
    refine atRest_of_idle (by decide +kernel) (by decide +kernel) (by decide +kernel)
      (by decide +kernel) fun s hs => ?_
    simpa using List.all_eq_true.mp hstrands s hs
  have hcancels : gathered.cancels = [] := by decide +kernel
  have hverdict : [0, 1].map gathered.machine.outcome = [some (.ok 5), some (.ok 7)] := by
    decide +kernel
  have hsettles := reaches_gathering.all_settles (t := 2) rfl rfl rfl reaches_gathered
    (hcancels ▸ List.not_mem_nil)
  obtain ⟨-, -, hsettled⟩ := hsettles.2 0 hbegun
  refine ⟨by decide +kernel, by decide +kernel, ?_⟩
  rw [(hsettled hrest).1, hverdict]
  rfl

end Chronicle

end ManagedHost
