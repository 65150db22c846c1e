import ManagedHost.Proofs.Loop.Pledges

/-!
# Journals

A journal is a chronicle together with what has happened to promises.  `Journal.Pledged` is what is
true of it in every run (`Reaches.pledged`): no two promises are made for one task, the setup of
each runs once, its resolver is used once at most, and its cell is what has happened to it.
-/

namespace ManagedHost

variable {α : Type}

/-! ### Journals -/

/-- What happens to a promise when the instruction is carried out, with the task of the promise. -/
def Machine.happening? (m : Machine α) : Instr α → Option (TaskId × Happening α)
  | .setup p setup => m.promises[p]?.map fun c => (c.task, .ofStep setup.step)
  | .setupEnd p panic => m.promises[p]?.map fun c => (c.task, .ofPanic panic)
  | _ => none

/-- A chronicle, and what has happened to promises so far, oldest first. -/
structure Journal (α : Type) where
  chronicle : Chronicle α
  told : List (TaskId × Happening α) := []

namespace Journal

open Machine Chronicle

/-- The machine. -/
def machine (j : Journal α) : Machine α := j.chronicle.machine

/-- What has happened to the promise of the task. -/
def toldOf (j : Journal α) (t : TaskId) : List (Happening α) :=
  j.told.filterMap fun x => if x.1 = t then some x.2 else none

/-- Let a strand take a step; `none` while it has to wait. -/
def turn (heedStop : Bool) (self : Nat) (j : Journal α) : Option (Journal α) :=
  (j.chronicle.turn heedStop self).map fun c =>
    { chronicle := c
      told := j.told ++ ((j.machine.next? self).bind j.machine.happening?).toList }

/-- Let a caller do something. -/
def act (f : Machine α → Machine α) (j : Journal α) : Journal α :=
  { j with chronicle := j.chronicle.act f }

/-- Let strands take steps in the order of the list; those that have to wait take none. -/
def run (selves : List Nat) (j : Journal α) : Journal α :=
  selves.foldl (fun j self => (j.turn true self).getD j) j

/-- What can be reached, by any order of steps, of moves that leave the promises alone, and of uses
of resolvers that were kept. -/
inductive Reaches (j : Journal α) : Journal α → Prop where
  | refl : Reaches j j
  | turn {k l : Journal α} (h : Reaches j k) (heedStop : Bool) (self : Nat)
      (hturn : k.turn heedStop self = some l) : Reaches j l
  | move {k : Journal α} (h : Reaches j k) {m : Machine α} (hmove : k.machine.Move m)
      (hpromises : m.promises = k.machine.promises) :
      Reaches j { k with chronicle := { k.chronicle with machine := m } }
  | resolve {k : Journal α} (h : Reaches j k) {m : Machine α} (t : TaskId)
      (result : Option (TaskResult α)) (hresolve : k.machine.resolve? t result = some m) :
      Reaches j
        { chronicle := { k.chronicle with machine := m }
          told := k.told ++ [(t, .ofUse result)] }

/-- Nothing has happened yet. -/
def start (config : LoopConfig) (workers : Nat) : Journal α :=
  { chronicle := Chronicle.start config workers }

variable {j k l : Journal α} {heedStop : Bool} {self : Nat} {config : LoopConfig} {workers : Nat}
  {t : TaskId}

theorem turn_chronicle (h : j.turn heedStop self = some k) :
    j.chronicle.turn heedStop self = some k.chronicle := by
  obtain ⟨c, hc, rfl⟩ := Option.map_eq_some_iff.mp h
  exact hc

theorem Reaches.chronicle (h : j.Reaches k) : j.chronicle.Reaches k.chronicle := by
  induction h with
  | refl => exact .refl
  | turn _ heedStop self hturn ih => exact ih.turn heedStop self (turn_chronicle hturn)
  | move _ hmove _ ih => exact ih.move hmove
  | resolve _ t result hresolve ih => exact ih.move (.resolve t result hresolve)

/-- Callers change the promises only when they use a resolver. -/
theorem promises_of_move {m m' : Machine α} (h : m.Move m') : m'.promises = m.promises ∨
    ∃ t result, m.resolve? t result = some m' := by
  cases h with
  | resolve t result h => exact Or.inr ⟨t, result, h⟩
  | addTimer delay repeating body =>
    refine Or.inl ?_
    unfold addTimer
    dsimp only
    split_ifs <;> rfl
  | startLoop =>
    refine Or.inl ?_
    unfold startLoop
    split_ifs <;> rfl
  | startScheduler =>
    refine Or.inl ?_
    unfold startScheduler startLoop
    split_ifs <;> rfl
  | schedule t priority deadline h =>
    obtain ⟨scheduler, rfl⟩ := schedule_eq h
    exact Or.inl rfl
  | release =>
    obtain ⟨gate, hgate⟩ := release_eq m
    rw [hgate]
    exact Or.inl rfl
  | _ => exact Or.inl rfl

/-- **However things go on, they can be told of.** -/
theorem exists_of_reaches {c : Chronicle α} (h : j.chronicle.Reaches c) :
    ∃ k, j.Reaches k ∧ k.chronicle = c := by
  induction h with
  | refl => exact ⟨_, .refl, rfl⟩
  | turn _ heedStop self hturn ih =>
    obtain ⟨k, hk, rfl⟩ := ih
    exact ⟨_, hk.turn heedStop self (congrArg (Option.map _) hturn), rfl⟩
  | move _ hmove ih =>
    obtain ⟨k, hk, rfl⟩ := ih
    rcases promises_of_move hmove with hsame | ⟨t, result, hresolve⟩
    · exact ⟨_, hk.move hmove hsame, rfl⟩
    · exact ⟨_, hk.resolve t result hresolve, rfl⟩

theorem Reaches.trans (h : j.Reaches k) (h' : k.Reaches l) : j.Reaches l := by
  induction h' with
  | refl => exact h
  | turn _ heedStop self hturn ih => exact ih.turn heedStop self hturn
  | move _ hmove hpromises ih => exact ih.move hmove hpromises
  | resolve _ t result hresolve ih => exact ih.resolve t result hresolve

theorem Reaches.run (h : j.Reaches k) (selves : List Nat) : j.Reaches (k.run selves) := by
  induction selves generalizing k with
  | nil => exact h
  | cons self rest ih =>
    refine ih ?_
    show j.Reaches ((k.turn true self).getD k)
    cases hturn : k.turn true self with
    | none => exact h
    | some l => exact h.turn true self hturn

theorem Reaches.act (h : j.Reaches k) {f : Machine α → Machine α}
    (hmove : k.machine.Move (f k.machine))
    (hpromises : (f k.machine).promises = k.machine.promises) : j.Reaches (k.act f) :=
  h.move hmove hpromises

/-- What was told stays so. -/
theorem Reaches.told_later (h : j.Reaches k) : ∃ more, k.told = j.told ++ more := by
  induction h with
  | refl => exact ⟨[], (List.append_nil _).symm⟩
  | turn _ heedStop self hturn ih =>
    obtain ⟨more, hmore⟩ := ih
    obtain ⟨c, -, rfl⟩ := Option.map_eq_some_iff.mp hturn
    exact ⟨_, (congrArg (· ++ _) hmore).trans (List.append_assoc _ _ _)⟩
  | move _ _ _ ih => exact ih
  | resolve _ _ _ _ ih =>
    obtain ⟨more, hmore⟩ := ih
    exact ⟨_, (congrArg (· ++ _) hmore).trans (List.append_assoc _ _ _)⟩

theorem Reaches.toldOf_later (h : j.Reaches k) (t : TaskId) :
    ∃ more, k.toldOf t = j.toldOf t ++ more := by
  obtain ⟨more, hmore⟩ := h.told_later
  unfold toldOf
  rw [hmore, List.filterMap_append]
  exact ⟨_, rfl⟩

/-! ### Steps -/

/-- **What a step does to promises**, to the setups that are under way, and to what is told. -/
inductive Effect (j k : Journal α) : Prop where
  | quiet (hpromises : k.machine.promises = j.machine.promises) (htold : k.told = j.told)
      (hbefore : ∀ p, (k.machine.held Instr.setup?).count p = (j.machine.held Instr.setup?).count p)
      (hduring : ∀ p, (k.machine.held Instr.setupEnd?).count p =
        (j.machine.held Instr.setupEnd?).count p)
      (hholds : ∀ i, i.isSetup = true → k.machine.Holds i → j.machine.Holds i)
  /-- A promise is made for a task whose body is taken. -/
  | made {t : TaskId} {setup : PromiseSetup α} (henter : j.machine.Holds (.enter t))
      (hentered : ¬ k.machine.Holds (.enter t))
      (hbody : j.machine.tasks[t]?.bind TaskCell.body = some (.promise setup))
      (hpromises : k.machine.promises = j.machine.promises ++ [{ task := t }])
      (htold : k.told = j.told)
      (hbefore : ∀ p, (k.machine.held Instr.setup?).count p =
        (j.machine.held Instr.setup?).count p + [j.machine.promises.length].count p)
      (hduring : ∀ p, (k.machine.held Instr.setupEnd?).count p =
        (j.machine.held Instr.setupEnd?).count p)
      (hholds : ∀ i, i.isSetup = true → k.machine.Holds i →
        j.machine.Holds i ∨ i = .setup j.machine.promises.length setup)
  | begun {p : Nat} {setup : PromiseSetup α} (hi : j.machine.Holds (.setup p setup))
      (hpromises : k.machine.promises =
        j.machine.promises.modify p (·.after (.ofStep setup.step)))
      (htold : k.told = j.told ++
        (j.machine.promises[p]?.map fun c => (c.task, Happening.ofStep setup.step)).toList)
      (hbefore : ∀ q, (k.machine.held Instr.setup?).count q + [p].count q =
        (j.machine.held Instr.setup?).count q)
      (hduring : ∀ q, (k.machine.held Instr.setupEnd?).count q =
        (j.machine.held Instr.setupEnd?).count q + [p].count q)
      (hholds : ∀ i, i.isSetup = true → k.machine.Holds i →
        j.machine.Holds i ∨ i = .setupEnd p setup.panic)
  | ended {p : Nat} {panic : Option String} (hi : j.machine.Holds (.setupEnd p panic))
      (hpromises : k.machine.promises = j.machine.promises.modify p (·.after (.ofPanic panic)))
      (htold : k.told = j.told ++
        (j.machine.promises[p]?.map fun c => (c.task, Happening.ofPanic panic)).toList)
      (hbefore : ∀ q, (k.machine.held Instr.setup?).count q =
        (j.machine.held Instr.setup?).count q)
      (hduring : ∀ q, (k.machine.held Instr.setupEnd?).count q + [p].count q =
        (j.machine.held Instr.setupEnd?).count q)
      (hholds : ∀ i, i.isSetup = true → k.machine.Holds i → j.machine.Holds i)

section Turn

variable {s : Strand α} {i : Instr α} {rest code : List (Instr α)} {m₁ : Machine α}
  (hs : j.machine.strands[self]? = some s) (hexited : s.exited = false)
  (hcode : s.code = i :: rest) (hexec : j.machine.exec heedStop self i = some (m₁, code))
  (hturn : j.turn heedStop self = some k)
include hs hturn

theorem told_turn : k.told = j.told ++ (s.code.head?.bind j.machine.happening?).toList := by
  obtain ⟨c, -, rfl⟩ := Option.map_eq_some_iff.mp hturn
  have hnext : j.machine.next? self = s.code.head? := by
    unfold Machine.next?
    rw [getElem?_codes hs]
    rfl
  exact hnext ▸ rfl

include hexited hcode hexec

/-- Promises and setups after a strand has carried out an instruction. -/
theorem setups_turn {added : List (List (Instr α))} (hcodes : m₁.codes = j.machine.codes ++ added) :
    k.machine.promises = m₁.promises ∧
      (∀ (f : Instr α → Option TaskId) (p : Nat),
        (k.machine.held f).count p + (f i).toList.count p =
          (j.machine.held f).count p + (code.filterMap f).count p +
            (added.flatMap (·.filterMap f)).count p) ∧
      ∀ j', k.machine.Holds j' → j' ∈ code ∨ j.machine.Holds j' ∨ ∃ more ∈ added, j' ∈ more := by
  have hstep := turn_step (turn_chronicle hturn)
  have hself : j.machine.codes[self]? = some (i :: rest) := hcode ▸ getElem?_codes hs
  obtain ⟨hcodes', hpromises⟩ := step_codes hstep hs hexited hcode hexec hcodes
  exact ⟨hpromises, fun f p => count_held_codes f hself hcodes' p,
    fun j' hj' => holds_codes hself hcodes' hj'⟩

/-- What carrying out an instruction does to promises. -/
theorem effect_carried (h : (start config workers).Reaches j) : j.Effect k := by
  have htold := told_turn hs hturn
  rw [hcode, List.head?_cons, Option.bind_some] at htold
  have hi : j.machine.Holds i := ⟨s, List.mem_of_getElem? hs, hcode ▸ List.mem_cons_self⟩
  have heffect := exec_pledges heedStop i m₁ code hexec
  cases heffect with
  | aside hi' hcode' hpromises hm₁ =>
    obtain ⟨hpromises', hcount, hholds⟩ :=
      setups_turn hs hexited hcode hexec hturn (hm₁.trans (List.append_nil _).symm)
    obtain ⟨hbefore, hduring⟩ := Instr.setup?_of_all hcode'
    obtain ⟨hi₁, hi₂⟩ : i.setup? = none ∧ i.setupEnd? = none := by
      simpa [Instr.isSetup] using hi'
    have hnone : j.machine.happening? i = none := by
      cases i with
      | setup => cases hi₁
      | setupEnd => cases hi₂
      | _ => rfl
    refine .quiet (hpromises'.trans hpromises) ?_ (fun p => ?_) (fun p => ?_)
      fun i' hsetup hi' => ?_
    · rw [htold, hnone, Option.toList_none, List.append_nil]
    · simpa [hi₁, hbefore] using hcount Instr.setup? p
    · simpa [hi₂, hduring] using hcount Instr.setupEnd? p
    · rcases hholds i' hi' with hnew | hold | ⟨more, hmore, -⟩
      · have hnot := List.all_eq_true.mp hcode' i' hnew
        rw [hsetup] at hnot
        cases hnot
      · exact hold
      · exact absurd hmore List.not_mem_nil
  | @pledged t setup hbody hpromises hm₁ =>
    obtain ⟨hpromises', hcount, hholds⟩ := setups_turn hs hexited hcode hexec hturn hm₁
    refine .made hi ?_ hbody (hpromises'.trans hpromises) (htold.trans (List.append_nil _))
      (hcount Instr.setup?) (hcount Instr.setupEnd?) fun i' hsetup hi' => ?_
    · cases turn_turn (turn_chronicle hturn) with
      | carried hs' _ hcode' hexec' hadded hd _ =>
        obtain rfl := Option.some.inj (hs.symm.trans hs')
        obtain ⟨rfl, rfl⟩ := List.cons.inj (hcode.symm.trans hcode')
        exact h.chronicle.borne.not_holds_enter hs hcode hexec' hadded (congrArg Machine.strands hd)
      | found hs' _ _ hcode' =>
        obtain rfl := Option.some.inj (hs.symm.trans hs')
        cases hcode.symm.trans hcode'
    · rcases hholds i' hi' with hnew | hold | ⟨more, hmore, hi'⟩
      · obtain rfl := List.mem_singleton.mp hnew
        cases hsetup
      · exact Or.inl hold
      · obtain rfl := List.mem_singleton.mp hmore
        exact Or.inr (List.mem_singleton.mp hi')
  | @begun p setup hpromises hm₁ =>
    obtain ⟨hpromises', hcount, hholds⟩ :=
      setups_turn hs hexited hcode hexec hturn (hm₁.trans (List.append_nil _).symm)
    refine .begun hi (hpromises'.trans hpromises) htold (hcount Instr.setup?)
      (hcount Instr.setupEnd?) fun i' _ hi' => ?_
    rcases hholds i' hi' with hnew | hold | ⟨more, hmore, -⟩
    · exact Or.inr (List.mem_singleton.mp hnew)
    · exact Or.inl hold
    · exact absurd hmore List.not_mem_nil
  | @ended p panic hpromises hm₁ =>
    obtain ⟨hpromises', hcount, hholds⟩ :=
      setups_turn hs hexited hcode hexec hturn (hm₁.trans (List.append_nil _).symm)
    refine .ended hi (hpromises'.trans hpromises) htold (hcount Instr.setup?)
      (hcount Instr.setupEnd?) fun i' _ hi' => ?_
    rcases hholds i' hi' with hnew | hold | ⟨more, hmore, -⟩
    · exact absurd hnew List.not_mem_nil
    · exact hold
    · exact absurd hmore List.not_mem_nil

end Turn

/-- **What a step does to promises.** -/
theorem Reaches.effect (h : (start config workers).Reaches j)
    (hturn : j.turn heedStop self = some k) : j.Effect k := by
  cases turn_turn (turn_chronicle hturn) with
  | carried hs hexited hcode hexec => exact effect_carried hs hexited hcode hexec hturn h
  | found hs _ _ hcode hfinds hd _ =>
    have htold := told_turn hs hturn
    rw [hcode] at htold
    have hstrands := congrArg Machine.strands hd
    obtain ⟨hbefore, hduring⟩ := Instr.setup?_of_all hfinds.all_not_isSetup
    obtain ⟨-, -, hfrom⟩ := holds_found hs hcode hstrands
    refine .quiet ((congrArg promises hd).trans hfinds.promises_eq)
      (htold.trans (List.append_nil _)) (fun p => ?_) (fun p => ?_) fun i hsetup hi => ?_
    · rw [machine, count_held_found Instr.setup? hs hcode hstrands, hbefore]
      rfl
    · rw [machine, count_held_found Instr.setupEnd? hs hcode hstrands, hduring]
      rfl
    · refine (hfrom i hi).resolve_left fun hnew => ?_
      have hnot := List.all_eq_true.mp hfinds.all_not_isSetup i hnew
      rw [hsetup] at hnot
      cases hnot

/-! ### Runs -/

/-- **What is true of promises at any time.** -/
structure Pledged (j : Journal α) : Prop where
  /-- No two promises are for one task. -/
  single : ∀ (p q : Nat) (c c' : PromiseCell α), j.machine.promises[p]? = some c →
    j.machine.promises[q]? = some c' → c.task = c'.task → p = q
  /-- The body of the task was taken when the promise was made. -/
  entered : ∀ (p : Nat) (c : PromiseCell α), j.machine.promises[p]? = some c →
    ¬ j.machine.Holds (.enter c.task) ∧ j.machine.state c.task ≠ .pending
  known : ∀ x ∈ j.told, ∃ (p : Nat) (c : PromiseCell α),
    j.machine.promises[p]? = some c ∧ c.task = x.1
  there : ∀ p, p ∈ j.machine.held Instr.setup? ∨ p ∈ j.machine.held Instr.setupEnd? →
    p < j.machine.promises.length
  accounts : ∀ (p : Nat) (c : PromiseCell α), j.machine.promises[p]? = some c →
    Account (j.toldOf c.task) ((j.machine.held Instr.setup?).count p)
      ((j.machine.held Instr.setupEnd?).count p) c

theorem pledged_start (config : LoopConfig) (workers : Nat) :
    (start config workers : Journal α).Pledged where
  single := fun _ _ _ _ hp => absurd hp (Option.not_mem_none _)
  entered := fun _ _ hp => absurd hp (Option.not_mem_none _)
  known := fun _ hx => absurd hx List.not_mem_nil
  there := fun _ hp => absurd hp (by simp [start, machine, Chronicle.start, initial, held])
  accounts := fun _ _ hp => absurd hp (Option.not_mem_none _)

/-- Nothing is told of a task that no promise was made for. -/
theorem Pledged.toldOf_eq_nil (P : j.Pledged)
    (hnone : ∀ (p : Nat) (c : PromiseCell α), j.machine.promises[p]? = some c → c.task ≠ t) :
    j.toldOf t = [] := by
  refine List.filterMap_eq_nil_iff.mpr fun x hx => if_neg fun heq => ?_
  obtain ⟨p, c, hc, htask⟩ := P.known x hx
  exact hnone p c hc (htask.trans heq)

/-- What was entered is entered no more. -/
theorem entered_turn {c d : Chronicle α} (g : c.machine.Governed)
    (h : c.turn heedStop self = some d)
    (hc : ¬ c.machine.Holds (.enter t) ∧ c.machine.state t ≠ .pending) :
    ¬ d.machine.Holds (.enter t) ∧ d.machine.state t ≠ .pending := by
  refine ⟨fun hheld => ?_, (g.advances_step (turn_step h)).begun t hc.2⟩
  cases turn_turn h with
  | @carried s i rest code m₁ answer added hs _ hcode hexec hadded hd _ =>
    obtain ⟨-, -, -, hfrom⟩ := holds_carried hs hcode hadded (congrArg Machine.strands hd)
    rcases hfrom _ hheld with hj | hj | ⟨p, setup, heq⟩
    · exact hc.2 ((exec_bodies heedStop i m₁ code hexec).enters hj).2
    · exact hc.1 hj
    · cases heq
  | found hs _ _ hcode hfinds hd _ =>
    obtain ⟨-, -, hfrom⟩ := holds_found hs hcode (congrArg Machine.strands hd)
    rcases hfrom _ hheld with hj | hj
    · cases List.all_eq_true.mp hfinds.all_isAloof _ hj
    · exact hc.1 hj

theorem toldOf_concat {e : Happening α} {k : TaskId}
    (htold : l.told = j.told ++ [(k, e)]) :
    l.toldOf t = if k = t then j.toldOf t ++ [e] else j.toldOf t := by
  unfold toldOf
  rw [htold, List.filterMap_append]
  split_ifs with hk <;> simp [hk]

/-- Nothing has happened to promises, and setups are where they were. -/
theorem Pledged.same (P : j.Pledged) (hpromises : k.machine.promises = j.machine.promises)
    (htold : k.told = j.told)
    (hbefore : ∀ p, (k.machine.held Instr.setup?).count p = (j.machine.held Instr.setup?).count p)
    (hduring : ∀ p, (k.machine.held Instr.setupEnd?).count p =
      (j.machine.held Instr.setupEnd?).count p)
    (hentered : ∀ t, ¬ j.machine.Holds (.enter t) ∧ j.machine.state t ≠ .pending →
      ¬ k.machine.Holds (.enter t) ∧ k.machine.state t ≠ .pending) : k.Pledged where
  single := hpromises ▸ P.single
  entered := hpromises ▸ fun p c hc => hentered _ (P.entered p c hc)
  known := by
    rw [hpromises, htold]
    exact P.known
  there := fun p hp => by
    simp only [← List.count_pos_iff, hbefore, hduring] at hp
    rw [hpromises]
    exact P.there p (by simpa only [← List.count_pos_iff] using hp)
  accounts := fun p c hc => by
    rw [hbefore, hduring]
    have htoldOf : k.toldOf c.task = j.toldOf c.task := by
      unfold toldOf
      rw [htold]
    rw [htoldOf]
    exact P.accounts p c (hpromises ▸ hc)

/-- **Something has happened to one promise.** -/
theorem Pledged.tell {p : Nat} {c : PromiseCell α} {e : Happening α} (P : j.Pledged)
    (hc : j.machine.promises[p]? = some c)
    (hpromises : k.machine.promises = j.machine.promises.modify p (·.after e))
    (htold : k.told = j.told ++ [(c.task, e)])
    (hothers : ∀ q, q ≠ p →
      (k.machine.held Instr.setup?).count q = (j.machine.held Instr.setup?).count q ∧
      (k.machine.held Instr.setupEnd?).count q = (j.machine.held Instr.setupEnd?).count q)
    (haccount : Account (j.toldOf c.task ++ [e]) ((k.machine.held Instr.setup?).count p)
      ((k.machine.held Instr.setupEnd?).count p) (c.after e))
    (hentered : ∀ t, ¬ j.machine.Holds (.enter t) ∧ j.machine.state t ≠ .pending →
      ¬ k.machine.Holds (.enter t) ∧ k.machine.state t ≠ .pending) : k.Pledged := by
  have hself : k.machine.promises[p]? = some (c.after e) := by
    rw [hpromises, List.getElem?_modify_eq, hc]
    rfl
  -- the cells are those from before, but for the one
  have hcell : ∀ (q : Nat) (c' : PromiseCell α), k.machine.promises[q]? = some c' →
      ∃ c₀, j.machine.promises[q]? = some c₀ ∧ c'.task = c₀.task ∧
        (q = p ∧ c₀ = c ∧ c' = c.after e ∨ q ≠ p ∧ c' = c₀) := by
    intro q c' hc'
    by_cases hq : q = p
    · subst hq
      obtain rfl := Option.some.inj (hc'.symm.trans hself)
      exact ⟨c, hc, PromiseCell.task_after c e, Or.inl ⟨rfl, rfl, rfl⟩⟩
    · rw [hpromises, List.getElem?_modify_ne _ _ (Ne.symm hq)] at hc'
      exact ⟨c', hc', rfl, Or.inr ⟨hq, rfl⟩⟩
  have hback : ∀ (q : Nat) (c₀ : PromiseCell α), j.machine.promises[q]? = some c₀ →
      ∃ c', k.machine.promises[q]? = some c' ∧ c'.task = c₀.task := by
    intro q c₀ hc₀
    by_cases hq : q = p
    · subst hq
      obtain rfl := Option.some.inj (hc₀.symm.trans hc)
      exact ⟨_, hself, PromiseCell.task_after c₀ e⟩
    · refine ⟨c₀, ?_, rfl⟩
      rw [hpromises, List.getElem?_modify_ne _ _ (Ne.symm hq)]
      exact hc₀
  refine
    { single := fun q q' c₁ c₂ h₁ h₂ htask => ?single, entered := fun q c₁ h₁ => ?entered,
      known := fun x hx => ?known, there := fun q hq => ?there,
      accounts := fun q c₁ h₁ => ?accounts }
  case single =>
    obtain ⟨d₁, hd₁, htask₁, -⟩ := hcell q c₁ h₁
    obtain ⟨d₂, hd₂, htask₂, -⟩ := hcell q' c₂ h₂
    exact P.single q q' d₁ d₂ hd₁ hd₂ (htask₁.symm.trans (htask.trans htask₂))
  case entered =>
    obtain ⟨d₁, hd₁, htask₁, -⟩ := hcell q c₁ h₁
    exact htask₁ ▸ hentered _ (P.entered q d₁ hd₁)
  case known =>
    rw [htold] at hx
    rcases List.mem_append.mp hx with hx | hx
    · obtain ⟨q, c₀, hc₀, htask⟩ := P.known x hx
      obtain ⟨c', hc', htask'⟩ := hback q c₀ hc₀
      exact ⟨q, c', hc', htask'.trans htask⟩
    · obtain rfl := List.mem_singleton.mp hx
      exact ⟨p, _, hself, PromiseCell.task_after c e⟩
  case there =>
    rw [hpromises, List.length_modify]
    by_cases hqp : q = p
    · exact hqp ▸ (List.getElem?_eq_some_iff.mp hc).1
    · obtain ⟨hbefore, hduring⟩ := hothers q hqp
      simp only [← List.count_pos_iff, hbefore, hduring] at hq
      exact P.there q (by simpa only [← List.count_pos_iff] using hq)
  case accounts =>
    obtain ⟨c₀, hc₀, htask, ⟨rfl, rfl, rfl⟩ | ⟨hq, rfl⟩⟩ := hcell q c₁ h₁
    · rw [toldOf_concat htold, PromiseCell.task_after, if_pos rfl]
      exact haccount
    · have hne : c.task ≠ c₁.task := fun heq => hq (P.single q p c₁ c hc₀ hc heq.symm)
      obtain ⟨hbefore, hduring⟩ := hothers q hq
      rw [toldOf_concat htold, if_neg hne, hbefore, hduring]
      exact P.accounts q c₁ hc₀

/-- **A promise is made.** -/
theorem Pledged.make (P : j.Pledged) (henter : j.machine.Holds (.enter t))
    (hpromises : k.machine.promises = j.machine.promises ++ [{ task := t }])
    (htold : k.told = j.told)
    (hbefore : ∀ p, (k.machine.held Instr.setup?).count p =
      (j.machine.held Instr.setup?).count p + [j.machine.promises.length].count p)
    (hduring : ∀ p, (k.machine.held Instr.setupEnd?).count p =
      (j.machine.held Instr.setupEnd?).count p)
    (hentered : ∀ t, ¬ j.machine.Holds (.enter t) ∧ j.machine.state t ≠ .pending →
      ¬ k.machine.Holds (.enter t) ∧ k.machine.state t ≠ .pending)
    (hnow : ¬ k.machine.Holds (.enter t) ∧ k.machine.state t ≠ .pending) : k.Pledged := by
  -- nothing was known of a promise for this task
  have hnew : ∀ (p : Nat) (c : PromiseCell α), j.machine.promises[p]? = some c → c.task ≠ t :=
    fun p c hc heq => (P.entered p c hc).1 (heq ▸ henter)
  have htoldOf : k.toldOf = j.toldOf := by
    unfold toldOf
    rw [htold]
  have hnothing : j.toldOf t = [] := P.toldOf_eq_nil hnew
  have hcell : ∀ (p : Nat) (c : PromiseCell α), k.machine.promises[p]? = some c →
      p < j.machine.promises.length ∧ j.machine.promises[p]? = some c ∨
        p = j.machine.promises.length ∧ c = { task := t } := by
    intro p c hc
    rw [hpromises] at hc
    rcases Nat.lt_or_ge p j.machine.promises.length with hp | hp
    · exact Or.inl ⟨hp, List.getElem?_append_left hp ▸ hc⟩
    · exact Or.inr (eq_of_getElem?_append_one hp hc)
  refine
    { single := fun p q c c' hc hc' htask => ?single, entered := fun p c hc => ?entered,
      known := fun x hx => ?known, there := fun p hp => ?there,
      accounts := fun p c hc => ?accounts }
  case single =>
    rcases hcell p c hc with ⟨-, hc⟩ | ⟨rfl, rfl⟩ <;>
      rcases hcell q c' hc' with ⟨-, hc'⟩ | ⟨rfl, rfl⟩
    · exact P.single p q c c' hc hc' htask
    · exact absurd htask (hnew p c hc)
    · exact absurd htask.symm (hnew q c' hc')
    · rfl
  case entered =>
    rcases hcell p c hc with ⟨-, hc⟩ | ⟨rfl, rfl⟩
    · exact hentered _ (P.entered p c hc)
    · exact hnow
  case known =>
    obtain ⟨p, c, hc, htask⟩ := P.known x (htold ▸ hx)
    refine ⟨p, c, ?_, htask⟩
    rw [hpromises, List.getElem?_append_left (List.getElem?_eq_some_iff.mp hc).1]
    exact hc
  case there =>
    rw [hpromises, List.length_append, List.length_singleton]
    simp only [← List.count_pos_iff, hbefore, hduring] at hp
    by_cases hlast : p = j.machine.promises.length
    · exact hlast ▸ Nat.lt_succ_self _
    · rw [List.count_singleton, if_neg (by simpa using Ne.symm hlast), Nat.add_zero] at hp
      exact Nat.lt_succ_of_lt (P.there p (by simpa only [← List.count_pos_iff] using hp))
  case accounts =>
    rw [htoldOf, hbefore, hduring]
    rcases hcell p c hc with ⟨hp, hc⟩ | ⟨rfl, rfl⟩
    · rw [List.count_singleton, if_neg (by simpa using hp.ne'), Nat.add_zero]
      exact P.accounts p c hc
    · have hnone : ∀ f, (∀ p, p ∈ j.machine.held f → p < j.machine.promises.length) →
          (j.machine.held f).count j.machine.promises.length = 0 :=
        fun f hf => List.count_eq_zero.mpr fun hmem => Nat.lt_irrefl _ (hf _ hmem)
      rw [List.count_singleton_self, hnone _ fun p hp => P.there p (Or.inl hp),
        hnone _ fun p hp => P.there p (Or.inr hp)]
      exact hnothing ▸ Account.new t

/-- The cell of a promise whose setup is about to run. -/
theorem Pledged.account_before {p : Nat} {setup : PromiseSetup α} (P : j.Pledged)
    (hi : j.machine.Holds (.setup p setup)) :
    ∃ c, j.machine.promises[p]? = some c ∧ (j.machine.held Instr.setup?).count p = 1 ∧
      (j.machine.held Instr.setupEnd?).count p = 0 ∧ Account (j.toldOf c.task) 1 0 c := by
  have hheld := mem_held.mpr ⟨_, hi, (rfl : Instr.setup? _ = some p)⟩
  have hc := List.getElem?_eq_getElem (P.there p (Or.inl hheld))
  have haccount := P.accounts p _ hc
  have honce := haccount.once
  have hpos := List.count_pos_iff.mpr hheld
  have hbefore : (j.machine.held Instr.setup?).count p = 1 := by omega
  have hduring : (j.machine.held Instr.setupEnd?).count p = 0 := by omega
  rw [hbefore, hduring] at haccount
  exact ⟨_, hc, hbefore, hduring, haccount⟩

/-- The cell of a promise whose setup is about to end. -/
theorem Pledged.account_during {p : Nat} {panic : Option String} (P : j.Pledged)
    (hi : j.machine.Holds (.setupEnd p panic)) :
    ∃ c, j.machine.promises[p]? = some c ∧ (j.machine.held Instr.setup?).count p = 0 ∧
      (j.machine.held Instr.setupEnd?).count p = 1 ∧ Account (j.toldOf c.task) 0 1 c := by
  have hheld := mem_held.mpr ⟨_, hi, (rfl : Instr.setupEnd? _ = some p)⟩
  have hc := List.getElem?_eq_getElem (P.there p (Or.inr hheld))
  have haccount := P.accounts p _ hc
  have honce := haccount.once
  have hpos := List.count_pos_iff.mpr hheld
  have hbefore : (j.machine.held Instr.setup?).count p = 0 := by omega
  have hduring : (j.machine.held Instr.setupEnd?).count p = 1 := by omega
  rw [hbefore, hduring] at haccount
  exact ⟨_, hc, hbefore, hduring, haccount⟩

theorem Pledged.turn (P : j.Pledged) (h : (start config workers).Reaches j)
    (hturn : j.turn heedStop self = some k) : k.Pledged := by
  have g := h.chronicle.governed
  have hchronicle := turn_chronicle hturn
  have hentered := fun t => @entered_turn α heedStop self t _ _ g hchronicle
  cases h.effect hturn with
  | quiet hpromises htold hbefore hduring => exact P.same hpromises htold hbefore hduring hentered
  | made henter hnow _ hpromises htold hbefore hduring =>
    refine P.make henter hpromises htold hbefore hduring hentered ⟨hnow, ?_⟩
    refine (g.advances_step (turn_step hchronicle)).begun _ fun hpending => ?_
    exact h.chronicle.borne.begun _ hpending (mem_held.mpr ⟨_, henter, rfl⟩)
  | @begun p setup hi hpromises htold hbefore hduring =>
    obtain ⟨c, hc, hone, hnone, haccount⟩ := P.account_before hi
    rw [hc] at htold
    refine P.tell hc hpromises htold (fun q hq => ?_) ?_ hentered
    · rw [hduring, ← hbefore, List.count_singleton, if_neg (by simpa using Ne.symm hq)]
      exact ⟨rfl, rfl⟩
    · have hlast := hbefore p
      rw [hone, List.count_singleton_self] at hlast
      rw [hduring, hnone, List.count_singleton_self, Nat.succ_injective hlast]
      exact haccount.begin setup.step
  | @ended p panic hi hpromises htold hbefore hduring =>
    obtain ⟨c, hc, hnone, hone, haccount⟩ := P.account_during hi
    rw [hc] at htold
    refine P.tell hc hpromises htold (fun q hq => ?_) ?_ hentered
    · rw [hbefore, ← hduring, List.count_singleton, if_neg (by simpa using Ne.symm hq)]
      exact ⟨rfl, rfl⟩
    · have hlast := hduring p
      rw [hone, List.count_singleton_self] at hlast
      rw [hbefore, hnone, Nat.succ_injective hlast]
      exact haccount.finish panic

theorem Pledged.around {m : Machine α} (P : j.Pledged) (hmove : j.machine.Move m)
    (hpromises : m.promises = j.machine.promises) :
    Pledged { j with chronicle := { j.chronicle with machine := m } } := by
  have haround := hmove.around
  have hnone : ∀ i : Instr α, i.IsCall → i.setup? = none ∧ i.setupEnd? = none := fun i hi => by
    simpa [Instr.isSetup] using hi.isSetup_eq_false
  refine P.same hpromises rfl (fun p => ?_) (fun p => ?_) fun t ht => ?_
  · exact congrArg (List.count p) (haround.held_eq _ fun i hi => (hnone i hi).1)
  · exact congrArg (List.count p) (haround.held_eq _ fun i hi => (hnone i hi).2)
  · refine ⟨fun hheld => ht.1 ?_, haround.advances.begun t ht.2⟩
    exact (haround.of_holds hheld).resolve_right fun hcall => hcall.1

/-- The cell whose resolver is used. -/
theorem resolve?_cell {m m' : Machine α} {result : Option (TaskResult α)}
    (h : m.resolve? t result = some m') :
    ∃ p c, m.promises[p]? = some c ∧ c.task = t ∧ c.kept = true ∧
      m' = { m with promises := m.promises.modify p (·.after (.ofUse result)) } := by
  unfold resolve? at h
  split at h
  · cases h
  · next p hp =>
    have hfound := List.of_findIdx?_eq_some hp
    split at hfound
    · next c hc =>
      rw [Bool.and_eq_true, beq_iff_eq] at hfound
      refine ⟨p, c, hc, hfound.1, hfound.2, ?_⟩
      obtain rfl := Option.some.inj h
      cases result with
      | none => rfl
      | some r =>
        simp only [sendPromise]
        rw [List.modify_modify_eq]
        rfl
    · cases hfound

theorem Pledged.resolve {m : Machine α} {result : Option (TaskResult α)} (P : j.Pledged)
    (h : j.machine.resolve? t result = some m) :
    Pledged { chronicle := { j.chronicle with machine := m }
              told := j.told ++ [(t, .ofUse result)] } := by
  obtain ⟨p, c, hc, rfl, hkept, rfl⟩ := resolve?_cell h
  exact P.tell hc rfl rfl (fun _ _ => ⟨rfl, rfl⟩) ((P.accounts p c hc).use hkept result) fun _ => id

/-- **What is told of promises is true in every run.** -/
theorem Reaches.pledged (h : (start config workers).Reaches j) : j.Pledged := by
  induction h with
  | refl => exact pledged_start config workers
  | turn hreach heedStop self hturn ih => exact ih.turn hreach hturn
  | move _ hmove hpromises ih => exact ih.around hmove hpromises
  | resolve _ t result hresolve ih => exact ih.resolve hresolve

/-- The resolver is used once at most, and the setup ends once at most. -/
theorem Pledged.once (P : j.Pledged) (t : TaskId) :
    (j.toldOf t).countP Happening.isUse ≤ 1 ∧ (j.toldOf t).countP Happening.isEnd ≤ 1 := by
  by_cases hsome : ∃ (p : Nat) (c : PromiseCell α), j.machine.promises[p]? = some c ∧ c.task = t
  · obtain ⟨p, c, hc, rfl⟩ := hsome
    have haccount := P.accounts p c hc
    have huses := haccount.uses
    have honce := haccount.once
    omega
  · rw [P.toldOf_eq_nil fun p c hc htask => hsome ⟨p, c, hc, htask⟩]
    exact ⟨Nat.zero_le 1, Nat.zero_le 1⟩

/-- **What has happened to a promise first stands**, however things go on. -/
theorem Reaches.settlement_later (h : (start config workers).Reaches j) (h' : j.Reaches k)
    {r : TaskResult α} (hr : settlement (j.toldOf t) = some r) :
    settlement (k.toldOf t) = some r := by
  obtain ⟨more, hmore⟩ := h'.toldOf_later t
  obtain ⟨huses, hends⟩ := (h.trans h').pledged.once t
  rw [hmore] at huses hends ⊢
  exact settlement_append huses hends hr

end Journal

/-- The promise of the task gives the result. -/
def Machine.Promised (m : Machine α) (t : TaskId) (r : TaskResult α) : Prop :=
  ∃ (p : Nat) (c : PromiseCell α), m.promises[p]? = some c ∧ c.task = t ∧ c.result? = some r

namespace Journal

open Machine Chronicle

variable {j k : Journal α} {t : TaskId} {config : LoopConfig} {workers : Nat} {r : TaskResult α}

/-- **The promise of a task gives what its happenings amount to.** -/
theorem Pledged.promised_iff (P : j.Pledged) :
    j.machine.Promised t r ↔ settlement (j.toldOf t) = some r := by
  constructor
  · rintro ⟨p, c, hc, rfl, hr⟩
    exact (P.accounts p c hc).result?_eq ▸ hr
  · intro hr
    by_cases hsome : ∃ (p : Nat) (c : PromiseCell α), j.machine.promises[p]? = some c ∧ c.task = t
    · obtain ⟨p, c, hc, rfl⟩ := hsome
      exact ⟨p, c, hc, rfl, (P.accounts p c hc).result?_eq.trans hr⟩
    · rw [P.toldOf_eq_nil fun p c hc htask => hsome ⟨p, c, hc, htask⟩] at hr
      cases hr

end Journal

/-- What a promise gives does not change any more. -/
theorem Chronicle.Reaches.promised_later {c d : Chronicle α} {t : TaskId} {config : LoopConfig}
    {workers : Nat} {r : TaskResult α} (h : (Chronicle.start config workers).Reaches c)
    (h' : c.Reaches d) (hr : c.machine.Promised t r) : d.machine.Promised t r := by
  obtain ⟨j, hj, rfl⟩ := @Journal.exists_of_reaches α (Journal.start config workers) c h
  obtain ⟨k, hk, rfl⟩ := Journal.exists_of_reaches h'
  exact (hj.trans hk).pledged.promised_iff.mpr
    (hj.settlement_later hk (hj.pledged.promised_iff.mp hr))

end ManagedHost
