import ManagedHost.Proofs.Loop.Stopping

/-!
# Families of continuations

A family is a tree of tasks: a root, and continuations, each of which applies a function to the
value or to the error of a task that was created before it.  `Family.result` says what each of them
settles with, by recursion over the tree, and `Family.notes` which of the functions are called.

`Family.Unfolds` is any run in which the family is brought up: continuations are registered before
or after their parents settle, the root is run on the spot, given to a running loop, cancelled or
made to fail, and any of the tasks may be cancelled.  `Family.Admits` says which instructions come
up in such a run, and what is known when they do; `Family.Tended` is what is true at any time.
-/

namespace ManagedHost

variable {α : Type}

/-! ### Trees and their results -/

/-- How a continuation follows its parent: by a function of the value, or of the error. -/
inductive Link (α : Type) where
  | andThen (f : α → Completion α)
  | orElse (g : TaskError → Completion α)

namespace Link

/-- What a continuation gives that is not cancelled, by what its parent has given.  A value is
passed to the one kind of function and an error to the other; otherwise it is passed on. -/
def apply : Link α → TaskResult α → TaskResult α
  | andThen f, .ok value => (f value).result
  | andThen _, .error e => .error e
  | orElse _, .ok value => .ok value
  | orElse g, .error e => (g e).result

/-- Whether the function is called. -/
def calls : Link α → TaskResult α → Bool
  | andThen _, .ok _ | orElse _, .error _ => true
  | andThen _, .error _ | orElse _, .ok _ => false

end Link

/-- A continuation: the task that it continues, how, and what its function notes when called. -/
structure Node (α : Type) where
  parent : TaskId
  link : Link α
  text : Option String := none

namespace Node

/-- The body of the continuation. -/
def body (n : Node α) : Body α :=
  match n.link with
  | .andThen f => .andThen n.parent n.text f
  | .orElse g => .orElse n.parent n.text g

/-- What is noted when the parent has given the result. -/
def note? (n : Node α) (r : TaskResult α) : Option String := if n.link.calls r then n.text else none

theorem parent_ofBody (n : Node α) : (TaskCell.ofBody n.body).parent = some n.parent := by
  unfold body
  cases n.link <;> rfl

end Node

/-- **A tree of tasks.**  The root is the task 0, and its code ends in the given way.  The node `k`
is the task `k + 1`; it continues a task with a smaller number. -/
structure Family (α : Type) where
  root : Completion α
  nodes : List (Node α)
  parent_le : ∀ (k : Nat) (n : Node α), nodes[k]? = some n → n.parent ≤ k

namespace Family

/-- The body of a task. -/
def body? (F : Family α) : TaskId → Option (Body α)
  | 0 => some (.script [] (.done F.root))
  | k + 1 => F.nodes[k]?.map Node.body

/-- The task that a task continues. -/
def parent? (F : Family α) : TaskId → Option TaskId
  | 0 => none
  | k + 1 => F.nodes[k]?.map Node.parent

/-- **What a task settles with**, when the root has given `first` and the continuations in `cut` are
cancelled. -/
def result (F : Family α) (first : TaskResult α) (cut : List TaskId) : TaskId → TaskResult α
  | 0 => first
  | k + 1 =>
    match h : F.nodes[k]? with
    | none => first
    | some n =>
      if k + 1 ∈ cut then .error .cancelled else n.link.apply (F.result first cut n.parent)
termination_by t => t
decreasing_by exact Nat.lt_succ_of_le (F.parent_le k n h)

/-- What is noted by the functions that are called, each once: those of the continuations that are
not cancelled and whose parents give what they are for. -/
def notes (F : Family α) (first : TaskResult α) (cut : List TaskId) : List String :=
  (List.range F.nodes.length).filterMap fun k =>
    if k + 1 ∈ cut then none
    else F.nodes[k]?.bind fun n => n.note? (F.result first cut n.parent)

theorem result_zero (F : Family α) (first : TaskResult α) (cut : List TaskId) :
    F.result first cut 0 = first := by
  rw [result]

theorem result_of_none {F : Family α} {k : Nat} (hn : F.nodes[k]? = none) (first : TaskResult α)
    (cut : List TaskId) : F.result first cut (k + 1) = first := by
  rw [result]
  split
  · rfl
  · next hn' => cases hn.symm.trans hn'

theorem result_succ {F : Family α} {k : Nat} {n : Node α} (hn : F.nodes[k]? = some n)
    (first : TaskResult α) (cut : List TaskId) : F.result first cut (k + 1) =
      if k + 1 ∈ cut then .error .cancelled else n.link.apply (F.result first cut n.parent) := by
  rw [result]
  split
  · next hnone => cases hnone.symm.trans hn
  · next n' hn' =>
    obtain rfl := Option.some.inj (hn'.symm.trans hn)
    rfl

/-! ### Runs -/

/-- The calls by which a family is made to settle: the root is run, made to fail or given to a loop
that is running, and any task that is there may be cancelled. -/
def Asks (m : Machine α) : Instr α → Prop
  | .start t | .fail t _ => t = 0
  | .cancel t => t < m.tasks.length
  | .submit t who => t = 0 ∧ who = .caller ∧ m.loop.phase = .running
  | .microtask t caller => t = 0 ∧ caller = true ∧ m.loop.phase = .running
  | _ => False

/-- **The runs of a family**, by any order of steps.  At any time, whether or not its parent has
settled, the next continuation may be created and its registration begin, a call may begin, the loop
may be started and time may pass.  The loop is not stopped, and it is started only while it is idle.
To start it once more would change nothing.  But such a call waits for the loop's state to itself,
and a worker who looks at the state waits behind it; if a submitter keeps the state while it waits
for room in a full queue, none of them goes on.  Those runs are left out. -/
inductive Unfolds (F : Family α) (config : LoopConfig) (workers : Nat) : Chronicle α → Prop where
  | planted : Unfolds F config workers ((Chronicle.start config workers).act fun m =>
      (m.newTask (.script [] (.done F.root))).2)
  | turn {c d : Chronicle α} (h : Unfolds F config workers c) (heedStop : Bool) (self : Nat)
      (hturn : c.turn heedStop self = some d) : Unfolds F config workers d
  | grown {c : Chronicle α} {k : Nat} {n : Node α} (h : Unfolds F config workers c)
      (hlength : c.machine.tasks.length = k + 1) (hn : F.nodes[k]? = some n) :
      Unfolds F config workers (c.act fun m => (m.continueWith n.parent n.body).2)
  | called {c : Chronicle α} (h : Unfolds F config workers c) (i : Instr α)
      (hi : Asks c.machine i) : Unfolds F config workers (c.call i)
  | started {c : Chronicle α} (h : Unfolds F config workers c)
      (hidle : c.machine.loop.phase = .idle) : Unfolds F config workers (c.act Machine.startLoop)
  | elapsed {c : Chronicle α} (h : Unfolds F config workers c) (micros : Nat) :
      Unfolds F config workers (c.act (·.elapse micros))

theorem Asks.isCall {m : Machine α} {i : Instr α} (h : Asks m i) :
    i.IsCall ∧ i.Grounded m.tasks.length := by
  cases i with
  | start => exact ⟨trivial, trivial⟩
  | fail => exact ⟨trivial, trivial⟩
  | cancel => exact ⟨trivial, trivial⟩
  | submit => exact ⟨trivial, trivial⟩
  | microtask => exact ⟨trivial, trivial⟩
  | _ => exact h.elim

theorem parent?_of_node {F : Family α} {k : Nat} {n : Node α} (hn : F.nodes[k]? = some n) :
    F.parent? (k + 1) = some n.parent :=
  congrArg (Option.map Node.parent) hn

theorem Unfolds.reaches {F : Family α} {config : LoopConfig} {workers : Nat} {c : Chronicle α}
    (h : F.Unfolds config workers c) : (Chronicle.start config workers).Reaches c := by
  induction h with
  | planted => exact .move .refl (.newTask _ none rfl)
  | turn _ heedStop self hturn ih => exact ih.turn heedStop self hturn
  | @grown c k n _ hlength hn ih =>
    have hlt : n.parent < c.machine.tasks.length :=
      hlength ▸ Nat.lt_succ_of_le (F.parent_le k n hn)
    exact ih.act (.continueWith n.parent n.body hlt n.parent_ofBody)
  | called _ i hi ih => exact ih.act (.call [i] (List.forall_mem_singleton.mpr hi.isCall))
  | started _ _ ih => exact ih.act .startLoop
  | elapsed _ micros ih => exact ih.act (.elapse micros)

end Family

/-! ### What is recorded -/

namespace Instr

/-- The task, if it is cancelled. -/
def cancelled? : Instr α → Option TaskId
  | cancel t => some t
  | _ => none

/-- The error, if a task is made to fail. -/
def failure? : Instr α → Option TaskError
  | fail _ e => some e
  | _ => none

/-- The task, if the body of a continuation is carried out. -/
def applied? : Instr α → Option TaskId
  | andThen t _ _ _ | orElse t _ _ _ => some t
  | _ => none

/-- Whether the instruction takes the task's body. -/
def isEnter (t : TaskId) : Instr α → Bool
  | enter k => k = t
  | _ => false

/-- Whether the instruction takes the body of the continuation, or carries it out. -/
def isEntry (t : TaskId) : Instr α → Bool
  | enter k | andThen k _ _ _ | orElse k _ _ _ => k = t
  | _ => false

/-- Whether the instruction asks for the task to be run or settled. -/
def Urges (t : TaskId) : Instr α → Prop
  | start k | cancel k | fail k _ | submit k _ | microtask k _ => k = t
  | _ => False

/-- Whether the instruction submits a task to the queue. -/
def IsSubmission : Instr α → Prop
  | submit _ _ | enqueue _ _ => True
  | _ => False

end Instr

/-- How far a task is from being settled. -/
def TaskState.rank : TaskState → Nat
  | pending => 2
  | running => 1
  | completed | failed | cancelled => 0

theorem TaskState.rank_le_pending (s : TaskState) : s.rank ≤ TaskState.pending.rank := by
  cases s <;> decide

theorem TaskState.rank_of_isTerminal {s : TaskState} (h : s.isTerminal = true) : s.rank = 0 := by
  cases s with
  | pending => cases h
  | running => cases h
  | _ => rfl

/-- A task that has left the state `old` is nearer to being settled. -/
theorem TaskState.rank_lt {s old : TaskState} (hold : old.isTerminal = false)
    (hle : s.rank ≤ old.rank) (hne : s ≠ old) : s.rank < old.rank := by
  cases old with
  | pending =>
    cases s with
    | pending => exact absurd rfl hne
    | _ => decide
  | running =>
    cases s with
    | pending => exact absurd hle (by decide)
    | running => exact absurd rfl hne
    | _ => decide
  | _ => cases hold

namespace Chronicle

/-- The tasks on which a cancellation was carried out. -/
def cancels (c : Chronicle α) : List TaskId := c.events.filterMap (·.instr.cancelled?)

/-- The errors with which tasks were made to fail. -/
def failures (c : Chronicle α) : List TaskError := c.events.filterMap (·.instr.failure?)

/-- The continuations whose bodies were carried out. -/
def applied (c : Chronicle α) : List TaskId := c.events.filterMap (·.instr.applied?)

/-- The tasks whose bodies were begun. -/
def starts (c : Chronicle α) : List TaskId := c.begun.map Prod.snd

/-- What becomes known is not forgotten. -/
structure Extends (c d : Chronicle α) : Prop where
  length : c.machine.tasks.length ≤ d.machine.tasks.length
  rank : ∀ t, (d.machine.state t).rank ≤ (c.machine.state t).rank
  outcome : ∀ t r, c.machine.outcome t = some r → d.machine.outcome t = some r
  phase : c.machine.loop.phase = .running → d.machine.loop.phase = .running
  events : ∃ new, d.events = c.events ++ new

theorem Extends.isSome {c d : Chronicle α} (h : c.Extends d) {t : TaskId}
    (ht : (c.machine.outcome t).isSome = true) : (d.machine.outcome t).isSome = true := by
  obtain ⟨r, hr⟩ := Option.isSome_iff_exists.mp ht
  exact Option.isSome_iff_exists.mpr ⟨r, h.outcome t r hr⟩

theorem Extends.mem_filterMap {c d : Chronicle α} (h : c.Extends d) {β : Type}
    {f : Event α → Option β} {x : β} (hx : x ∈ c.events.filterMap f) :
    x ∈ d.events.filterMap f := by
  obtain ⟨new, hevents⟩ := h.events
  rw [hevents, List.filterMap_append]
  exact List.mem_append_left _ hx

theorem Extends.mem_starts {c d : Chronicle α} (h : c.Extends d) {t : TaskId} (ht : t ∈ c.starts) :
    t ∈ d.starts := by
  obtain ⟨x, hx, rfl⟩ := List.mem_map.mp ht
  exact List.mem_map.mpr ⟨x, h.mem_filterMap hx, rfl⟩

end Chronicle

/-! ### What comes up in a run -/

namespace Family

/-- Whether the task continues none, or one that has settled. -/
def Ready (F : Family α) (m : Machine α) (t : TaskId) : Prop :=
  ∀ p, F.parent? t = some p → (m.outcome p).isSome = true

/-- Whether the body of the task gives the result. -/
def Gives (F : Family α) (m : Machine α) (t : TaskId) (r : TaskResult α) : Prop :=
  t = 0 ∧ r = F.root.result ∨
    ∃ k n q, t = k + 1 ∧ F.nodes[k]? = some n ∧ m.outcome n.parent = some q ∧ r = n.link.apply q

/-- Whether the task has settled without its body: it was cancelled, or is the root and was made to
fail. -/
def Spent (c : Chronicle α) (t : TaskId) : Prop :=
  (c.machine.outcome t).isSome = true ∧ (t = 0 ∨ t ∈ c.cancels)

/-- Whether the task may have come to the outcome: its body has given it, or it was cancelled, or is
the root and was made to fail. -/
def Explains (F : Family α) (c : Chronicle α) (t : TaskId) (r : TaskResult α) : Prop :=
  t ∈ c.starts ∧ F.Gives c.machine t r ∨ r = .error .cancelled ∧ t ∈ c.cancels ∨
    t = 0 ∧ ∃ e ∈ c.failures, r = .error e

/-- **The instructions that come up in a run of the family**, and what is known by then. -/
inductive Admits (F : Family α) (c : Chronicle α) : Instr α → Prop where
  | start {t : TaskId} (hready : F.Ready c.machine t) : Admits F c (.start t)
  | enter {t : TaskId} (hready : F.Ready c.machine t) (hbegun : t ∈ c.starts) :
      Admits F c (.enter t)
  | perform (hbegun : 0 ∈ c.starts) : Admits F c (.perform 0 [] (.done F.root))
  | andThen {k : Nat} {p : TaskId} {text : Option String} {f : α → Completion α}
      (hn : F.nodes[k]? = some ⟨p, .andThen f, text⟩) (hready : (c.machine.outcome p).isSome = true)
      (hbegun : k + 1 ∈ c.starts) : Admits F c (.andThen (k + 1) p text f)
  | orElse {k : Nat} {p : TaskId} {text : Option String} {g : TaskError → Completion α}
      (hn : F.nodes[k]? = some ⟨p, .orElse g, text⟩) (hready : (c.machine.outcome p).isSome = true)
      (hbegun : k + 1 ∈ c.starts) : Admits F c (.orElse (k + 1) p text g)
  | ending {t : TaskId} {r : TaskResult α} (hbegun : t ∈ c.starts)
      (hgives : F.Gives c.machine t r) : Admits F c (.settle t .running r .run)
  | late {t : TaskId} {r : TaskResult α} (hspent : Spent c t) :
      Admits F c (.settle t .running r .run)
  | cancelling {t : TaskId} {old : TaskState} (hcancel : t ∈ c.cancels)
      (ht : t < c.machine.tasks.length) (hrank : (c.machine.state t).rank ≤ old.rank) :
      Admits F c (.settle t old (.error .cancelled) .cancel)
  | failing {old : TaskState} {e : TaskError} (hfail : e ∈ c.failures) :
      Admits F c (.settle 0 old (.error e) .fail)
  | signal {t : TaskId} : Admits F c (.signal t)
  | release {t : TaskId} (hsettled : (c.machine.outcome t).isSome = true) : Admits F c (.release t)
  | dispatch {p : TaskId} {children : List TaskId} (hsettled : (c.machine.outcome p).isSome = true)
      (hchildren : ∀ k ∈ children, F.parent? k = some p) : Admits F c (.dispatch p children)
  | register {p k : TaskId} (hparent : F.parent? k = some p) : Admits F c (.register p k)
  | dropBody {t : TaskId} (hspent : Spent c t) : Admits F c (.dropBody t)
  | cancel {t : TaskId} (ht : t < c.machine.tasks.length) : Admits F c (.cancel t)
  | fail {e : TaskError} : Admits F c (.fail 0 e)
  | submit (hphase : c.machine.loop.phase = .running) : Admits F c (.submit 0 .caller)
  | enqueue (hphase : c.machine.loop.phase = .running) : Admits F c (.enqueue 0 .caller)
  | microtask {t : TaskId} {caller : Bool} (hready : F.Ready c.machine t)
      (hphase : c.machine.loop.phase = .running) : Admits F c (.microtask t caller)
  | answer {r : TaskResult Unit} : Admits F c (.answer r)
  | leave {t : TaskId} : Admits F c (.leave t)
  | record {t : TaskId} : Admits F c (.record t)

section Mono

variable {F : Family α} {c d : Chronicle α} {t : TaskId} {i : Instr α}

theorem Ready.mono (h : F.Ready c.machine t) (hext : c.Extends d) : F.Ready d.machine t :=
  fun p hp => hext.isSome (h p hp)

theorem Gives.mono {r : TaskResult α} (h : F.Gives c.machine t r) (hext : c.Extends d) :
    F.Gives d.machine t r := by
  refine h.imp_right ?_
  rintro ⟨k, n, q, ht, hn, hq, hr⟩
  exact ⟨k, n, q, ht, hn, hext.outcome _ q hq, hr⟩

theorem Spent.mono (h : Spent c t) (hext : c.Extends d) : Spent d t :=
  ⟨hext.isSome h.1, h.2.imp_right hext.mem_filterMap⟩

theorem Explains.mono {r : TaskResult α} (h : F.Explains c t r) (hext : c.Extends d) :
    F.Explains d t r := by
  rcases h with ⟨hbegun, hgives⟩ | ⟨hr, hcut⟩ | ⟨ht, e, he, hr⟩
  · exact Or.inl ⟨hext.mem_starts hbegun, hgives.mono hext⟩
  · exact Or.inr (Or.inl ⟨hr, hext.mem_filterMap hcut⟩)
  · exact Or.inr (Or.inr ⟨ht, e, hext.mem_filterMap he, hr⟩)

/-- What may come up may still come up later. -/
theorem Admits.mono (h : F.Admits c i) (hext : c.Extends d) : F.Admits d i := by
  cases h with
  | start hready => exact .start (hready.mono hext)
  | enter hready hbegun => exact .enter (hready.mono hext) (hext.mem_starts hbegun)
  | perform hbegun => exact .perform (hext.mem_starts hbegun)
  | andThen hn hready hbegun => exact .andThen hn (hext.isSome hready) (hext.mem_starts hbegun)
  | orElse hn hready hbegun => exact .orElse hn (hext.isSome hready) (hext.mem_starts hbegun)
  | ending hbegun hgives => exact .ending (hext.mem_starts hbegun) (hgives.mono hext)
  | late hspent => exact .late (hspent.mono hext)
  | cancelling hcancel ht hrank =>
    exact .cancelling (hext.mem_filterMap hcancel) (Nat.lt_of_lt_of_le ht hext.length)
      (Nat.le_trans (hext.rank _) hrank)
  | failing hfail => exact .failing (hext.mem_filterMap hfail)
  | signal => exact .signal
  | release hsettled => exact .release (hext.isSome hsettled)
  | dispatch hsettled hchildren => exact .dispatch (hext.isSome hsettled) hchildren
  | register hparent => exact .register hparent
  | dropBody hspent => exact .dropBody (hspent.mono hext)
  | cancel ht => exact .cancel (Nat.lt_of_lt_of_le ht hext.length)
  | fail => exact .fail
  | submit hphase => exact .submit (hext.phase hphase)
  | enqueue hphase => exact .enqueue (hext.phase hphase)
  | microtask hready hphase => exact .microtask (hready.mono hext) (hext.phase hphase)
  | answer => exact .answer
  | leave => exact .leave
  | record => exact .record

end Mono

/-! ### What is true at any time -/

/-- What is true of the cell of a task. -/
structure Cell (F : Family α) (m : Machine α) (t : TaskId) (x : TaskCell α) : Prop where
  parent : x.parent = F.parent? t
  body : x.body = none ∨ x.body = F.body? t
  unused : x.state = .pending → x.body ≠ none
  bound : x.bound = true → m.loop.phase = .running
  continuations : ∀ k ∈ x.continuations, F.parent? k = some t

/-- What is true of the loop: once started it goes on, and only callers submit tasks to it. -/
structure OnDuty (F : Family α) (m : Machine α) : Prop where
  signal : m.loop.stopSignal = false
  phase : m.loop.phase ≠ .stopped
  timers : m.loop.timers = []
  queue : ∀ t ∈ m.loop.queue, t = 0 ∧ m.loop.phase = .running
  microtasks : ∀ t ∈ m.loop.microtasks, F.Ready m t ∧ m.loop.phase = .running
  strands : ∀ s ∈ m.strands, s.exited = false ∧ s.role ≠ .dispatcher ∧
    (s.role ≠ .caller → ∀ j ∈ s.code, ¬ j.IsSubmission)
  threads : m.loop.phase = .running →
    (∃ s ∈ m.strands, s.role = .worker) ∧ ∃ s ∈ m.strands, s.role = .microtasks

/-- What a continuation notes by what its parent has given so far. -/
def noteNow? (F : Family α) (m : Machine α) : TaskId → Option String
  | 0 => none
  | k + 1 => F.nodes[k]?.bind fun n => (m.outcome n.parent).bind n.note?

/-- What the record says about the tasks: how they came to their outcomes, that each body is begun
at most once and, if it is that of a continuation that is not cancelled, carried out once it was
begun. -/
structure Recorded (F : Family α) (c : Chronicle α) : Prop where
  outcome : ∀ t r, c.machine.outcome t = some r → F.Explains c t r
  once : ∀ t, c.starts.count t ≤ 1
  pending : ∀ t, c.machine.state t = .pending → c.starts.count t = 0
  entries : ∀ t, c.applied.count t + c.machine.work.countP (fun w => w.2.isEntry t) ≤
    c.starts.count t
  exact : ∀ t, t ≠ 0 → t ∉ c.cancels →
    c.applied.count t + c.machine.work.countP (fun w => w.2.isEntry t) = c.starts.count t
  entering : ∀ t x, c.machine.tasks[t]? = some x → x.body = none →
    Spent c t ∨ c.machine.work.countP (fun w => w.2.isEnter t) = 0
  applied : ∀ t ∈ c.applied, t ≠ 0 ∧ F.Ready c.machine t
  notes : c.machine.notes = c.applied.filterMap (F.noteNow? c.machine)

/-- **What is true at any time in a run of the family.** -/
structure Tended (F : Family α) (c : Chronicle α) : Prop where
  length : 0 < c.machine.tasks.length ∧ c.machine.tasks.length ≤ F.nodes.length + 1
  cell : ∀ t x, c.machine.tasks[t]? = some x → F.Cell c.machine t x
  holds : ∀ j, c.machine.Holds j → F.Admits c j
  duty : F.OnDuty c.machine
  recorded : F.Recorded c
  urged : (∃ v ∈ c.events, v.instr.Urges 0) → c.machine.state 0 = .pending →
    c.machine.Attends 0 ∨ c.machine.Holds (.enqueue 0 .caller)

end Family

end ManagedHost
