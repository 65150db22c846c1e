import ManagedHost.Proofs.Schedule.Pile
import ManagedHost.Schedule.DeadlineQueue
import Mathlib.Data.List.Induction
import Mathlib.Data.List.Nodup
import Mathlib.Data.List.Sort

/-!
# Deadline queues serve in order

The order in which a queue serves its entries is `Scheduled.Precedes`: the earlier deadline, then
the higher priority, then the earlier push.  As no two entries of a queue have the same number, the
entries are in one such order only, the `agenda` of the queue, and each operation is an operation
on that list:

* `Kept.pop_cases`: `pop` takes the head of the agenda, and `Kept.popMany` a part of it;
* `Kept.popDue_eq`: `popDue` takes the head if it is due, and if it is not, nothing is due;
* `Kept.push`: a push adds one entry, with a number that no entry has had before.

A `Session` is a queue with the lists of what went in and what came out of it, and
`Session.run_serves_in_order` is the main result about all sequences of calls.
-/

namespace ManagedHost

namespace Scheduled

variable {τ : Type}

/-! ### The order of service -/

/-- `a` is served before `b`: it is due earlier, or it is due at the same time and more urgent, or
it is just as urgent and was pushed earlier. -/
def Precedes (a b : Scheduled τ) : Prop :=
  a.deadline < b.deadline ∨ a.deadline = b.deadline ∧
    (b.priority < a.priority ∨ a.priority = b.priority ∧ a.seq < b.seq)

theorem order_eq_gt {a b : Scheduled τ} : a.order b = .gt ↔ a.Precedes b := by
  unfold order Precedes
  rw [Ordering.then_eq_gt, Ordering.then_eq_gt, Nat.compare_eq_gt, Nat.compare_eq_eq,
    Int.compare_eq_gt, Int.compare_eq_eq, Nat.compare_eq_gt]
  exact or_congr Iff.rfl (and_congr eq_comm Iff.rfl)

theorem order_eq_lt {a b : Scheduled τ} : a.order b = .lt ↔ b.Precedes a := by
  unfold order Precedes
  rw [Ordering.then_eq_lt, Ordering.then_eq_lt, Nat.compare_eq_lt, Nat.compare_eq_eq,
    Int.compare_eq_lt, Int.compare_eq_eq, Nat.compare_eq_lt]
  exact or_congr Iff.rfl (and_congr Iff.rfl (or_congr Iff.rfl (and_congr eq_comm Iff.rfl)))

theorem before_iff {a b : Scheduled τ} : a.before b = true ↔ a.Precedes b := by
  rw [before, beq_iff_eq, order_eq_gt]

theorem Precedes.trans {a b c : Scheduled τ} (hab : a.Precedes b) (hbc : b.Precedes c) :
    a.Precedes c := by
  unfold Precedes at *
  omega

theorem Precedes.asymm {a b : Scheduled τ} (hab : a.Precedes b) : ¬ b.Precedes a := by
  unfold Precedes at *
  omega

theorem Precedes.deadline_le {a b : Scheduled τ} (hab : a.Precedes b) :
    a.deadline ≤ b.deadline := by
  unfold Precedes at hab
  omega

/-- Entries with different numbers are served one after the other. -/
theorem precedes_of_not {a b : Scheduled τ} (hseq : a.seq ≠ b.seq) (hba : ¬ b.Precedes a) :
    a.Precedes b := by
  unfold Precedes at *
  omega

/-- `before` ranks the entries, so that a pile can be ordered by it. -/
theorem ranking : Pile.Ranking (before (τ := τ)) where
  asymm hab := Bool.eq_false_iff.mpr fun hba => (before_iff.mp hab).asymm (before_iff.mp hba)
  negTrans {a b c} hab hbc := by
    rw [Bool.eq_false_iff, ne_eq, before_iff] at *
    unfold Precedes at *
    omega

end Scheduled

namespace DeadlineQueue

open Scheduled

variable {τ : Type}

/-! ### The agenda -/

/-- The waiting entries in the order in which they are served. -/
def agenda (q : DeadlineQueue τ) : List (Scheduled τ) :=
  q.entries.mergeSort fun a b => !b.before a

theorem agenda_perm (q : DeadlineQueue τ) : q.agenda.Perm q.entries := List.mergeSort_perm _ _

/-- **What every operation keeps true of a queue**: its pile is in order, and its entries have
different numbers, all of them used. -/
structure Kept (q : DeadlineQueue τ) : Prop where
  ordered : q.pile.Ordered before
  distinct : (q.entries.map Scheduled.seq).Nodup
  numbered : ∀ e ∈ q.entries, e.seq < q.pushed

/-- Nothing waits after a drain. -/
theorem drain_kept (q : DeadlineQueue τ) : q.drain.2.Kept where
  ordered := trivial
  distinct := List.nodup_nil
  numbered := nofun

theorem agenda_drain (q : DeadlineQueue τ) : q.drain.2.agenda = [] :=
  List.perm_nil.mp (agenda_perm q.drain.2)

namespace Kept

variable {q : DeadlineQueue τ}

theorem agenda_pairwise (k : q.Kept) : q.agenda.Pairwise Precedes := by
  have hsorted : q.agenda.Pairwise fun a b => (!b.before a) = true := by
    refine List.pairwise_mergeSort (fun a b c hab hbc => ?_) (fun a b => ?_) q.entries
    · rw [Bool.not_eq_true'] at *
      exact ranking.negTrans hbc hab
    · cases hba : b.before a with
      | false => rfl
      | true => rw [ranking.asymm hba]; rfl
  -- no two numbers are the same, so of two entries the one that does not come later comes earlier
  have hdistinct : q.agenda.Pairwise fun a b => a.seq ≠ b.seq :=
    List.pairwise_map.mp ((q.agenda_perm.map Scheduled.seq).nodup_iff.mpr k.distinct)
  refine hsorted.imp₂ (fun a b hle hne => precedes_of_not hne ?_) hdistinct
  rwa [← before_iff, ← ne_eq, ← Bool.eq_false_iff, ← Bool.not_eq_true']

/-- There is only one way to list the entries in order. -/
theorem agenda_eq (k : q.Kept) {l : List (Scheduled τ)} (hperm : l.Perm q.entries)
    (hsorted : l.Pairwise Precedes) : q.agenda = l := by
  have hantisymm : ∀ a b, a ∈ q.agenda → b ∈ l → a.Precedes b → b.Precedes a → a = b :=
    fun a b _ _ hab hba => absurd hba hab.asymm
  exact List.Perm.eq_of_pairwise hantisymm k.agenda_pairwise hsorted
    (q.agenda_perm.trans hperm.symm)

theorem of_perm_cons {q' : DeadlineQueue τ} {e : Scheduled τ} (k : q.Kept)
    (hperm : q.entries.Perm (e :: q'.entries)) (hpushed : q'.pushed = q.pushed)
    (ordered : q'.pile.Ordered before) : q'.Kept where
  ordered := ordered
  distinct := (List.nodup_cons.mp ((hperm.map Scheduled.seq).nodup_iff.mp k.distinct)).2
  numbered d hd := by
    rw [hpushed]
    exact k.numbered d (hperm.mem_iff.mpr (List.mem_cons_of_mem e hd))

/-- **`pop` takes the head of the agenda.** -/
theorem pop_cases (k : q.Kept) :
    (q.agenda = [] ∧ q.pop = none) ∨
      ∃ e q', q.pop = some (e, q') ∧ q.agenda = e :: q'.agenda ∧ q'.Kept ∧
        q.entries.Perm (e :: q'.entries) ∧ q'.pushed = q.pushed ∧
        q.nextDeadline = some e.deadline := by
  rcases Pile.pop_spec ranking k.ordered q.length with ⟨hempty, hpop⟩ | ⟨e, p, htop, hpop, hperm,
    hord, hfirst⟩
  · refine Or.inl ⟨?_, ?_⟩
    · have hentries : q.entries = [] := by
        unfold entries
        rw [hempty, Pile.toList_empty]
      exact List.perm_nil.mp (hentries ▸ q.agenda_perm)
    · unfold pop
      rw [hpop, Option.map_none]
  · have k' : Kept { q with pile := p } := k.of_perm_cons hperm rfl hord
    refine Or.inr ⟨e, { q with pile := p }, ?_, ?_, k', hperm, rfl, ?_⟩
    · unfold pop
      rw [hpop, Option.map_some]
    · refine k.agenda_eq ((List.Perm.cons e (agenda_perm _)).trans hperm.symm)
        (List.pairwise_cons.mpr ⟨fun d hd => ?_, k'.agenda_pairwise⟩)
      -- an entry that stays has another number, and does not come before the one that is taken
      have hd' : d ∈ p.toList := (agenda_perm _).mem_iff.mp hd
      have hseqs := (hperm.map Scheduled.seq).nodup_iff.mp k.distinct
      refine precedes_of_not (fun heq => ?_) fun hde => ?_
      · exact (List.nodup_cons.mp hseqs).1 (heq ▸ List.mem_map_of_mem hd')
      · have hnot := hfirst d (hperm.mem_iff.mpr (List.mem_cons_of_mem e hd'))
        exact absurd (before_iff.mpr hde) (Bool.eq_false_iff.mp hnot)
    · unfold nextDeadline
      rw [htop, Option.map_some]

/-- The head of the agenda is due first. -/
theorem head_deadline_le (k : q.Kept) {e : Scheduled τ} (hhead : q.agenda.head? = some e) :
    ∀ d ∈ q.entries, e.deadline ≤ d.deadline := by
  intro d hd
  have hmem : d ∈ q.agenda := q.agenda_perm.mem_iff.mpr hd
  have hsorted := k.agenda_pairwise
  obtain ⟨rest, hagenda⟩ := List.head?_eq_some_iff.mp hhead
  rw [hagenda] at hmem hsorted
  rcases List.mem_cons.mp hmem with rfl | hmem
  · exact le_rfl
  · exact ((List.pairwise_cons.mp hsorted).1 d hmem).deadline_le

/-- **`popDue` takes the head of the agenda if it is due**, and answers `none` otherwise. -/
theorem popDue_eq (k : q.Kept) (now : Nat) :
    q.popDue now = if q.agenda.head?.any (·.deadline ≤ now) then q.pop else none := by
  unfold popDue
  rcases k.pop_cases with ⟨hagenda, hpop⟩ | ⟨e, q', hpop, hagenda, -, -, -, hnext⟩
  · rw [hagenda, hpop]
    cases q.nextDeadline <;> simp
  · rw [hnext, hagenda]
    simp

/-- **`popDue` answers `none` only if nothing is due.** -/
theorem popDue_eq_none (k : q.Kept) (now : Nat) :
    q.popDue now = none ↔ ∀ e ∈ q.entries, now < e.deadline := by
  rw [k.popDue_eq]
  rcases k.pop_cases with ⟨hagenda, hpop⟩ | ⟨e, q', hpop, hagenda, -, hperm, -, -⟩
  · have hentries : q.entries = [] := List.perm_nil.mp (hagenda ▸ q.agenda_perm).symm
    rw [hpop, hentries]
    simp
  · have hfirst := k.head_deadline_le (e := e) (by rw [hagenda]; rfl)
    rw [hpop, hagenda]
    simp only [List.head?_cons, Option.any_some, decide_eq_true_eq, ite_eq_right_iff,
      reduceCtorEq, imp_false, Nat.not_le]
    constructor
    · exact fun hlate d hd => hlate.trans_le (hfirst d hd)
    · exact fun hlate => hlate e (hperm.mem_iff.mpr List.mem_cons_self)

/-- What `popDue` takes is due, and the rest stays. -/
theorem popDue_eq_some (k : q.Kept) {now : Nat} {e : Scheduled τ} {q' : DeadlineQueue τ}
    (h : q.popDue now = some (e, q')) : e.deadline ≤ now ∧ q'.Kept ∧
      q.entries.Perm (e :: q'.entries) ∧ q'.pushed = q.pushed := by
  rw [k.popDue_eq] at h
  split_ifs at h with hdue
  rcases k.pop_cases with ⟨-, hpop⟩ | ⟨d, q'', hpop, hagenda, k', hperm, hpushed, -⟩
  · cases hpop.symm.trans h
  · obtain ⟨rfl, rfl⟩ := Prod.mk.inj (Option.some.inj (hpop.symm.trans h))
    rw [hagenda] at hdue
    exact ⟨by simpa using hdue, k', hperm, hpushed⟩

/-- **A push adds its entry**, with the next number. -/
theorem push (k : q.Kept) (task : τ) (priority : Int) (deadline : Nat) :
    (q.push task priority deadline).Kept ∧ (q.push task priority deadline).entries.Perm
      (⟨task, priority, deadline, q.pushed⟩ :: q.entries) := by
  have hperm : (q.push task priority deadline).entries.Perm
      (⟨task, priority, deadline, q.pushed⟩ :: q.entries) := Pile.toList_push _ _ _ _
  refine ⟨⟨k.ordered.insert ranking _ _, ?_, fun e he => ?_⟩, hperm⟩
  · rw [(hperm.map Scheduled.seq).nodup_iff, List.map_cons, List.nodup_cons]
    refine ⟨fun hmem => ?_, k.distinct⟩
    obtain ⟨d, hd, hseq⟩ := List.mem_map.mp hmem
    exact (k.numbered d hd).ne hseq
  · show e.seq < q.pushed + 1
    rcases List.mem_cons.mp (hperm.mem_iff.mp he) with rfl | he
    · exact Nat.lt_succ_self _
    · exact Nat.lt_succ_of_lt (k.numbered e he)

/-- **Popping again and again follows the agenda.** -/
theorem popMany (k : q.Kept) (n : Nat) :
    (q.popMany n).1 = q.agenda.take n ∧ (q.popMany n).2.agenda = q.agenda.drop n := by
  induction n generalizing q with
  | zero => exact ⟨rfl, rfl⟩
  | succ n ih =>
    rcases k.pop_cases with ⟨hagenda, hpop⟩ | ⟨e, q', hpop, hagenda, k', -, -, -⟩
    · rw [DeadlineQueue.popMany, hpop, hagenda]
      exact ⟨rfl, rfl⟩
    · obtain ⟨htaken, hleft⟩ := ih k'
      rw [DeadlineQueue.popMany, hpop, hagenda, List.take_succ_cons, List.drop_succ_cons]
      exact ⟨congrArg (e :: ·) htaken, hleft⟩

end Kept

/-! ### Sessions -/

/-- A call on a queue. -/
inductive Call (τ : Type) where
  | push (task : τ) (priority : Int) (deadline : Nat)
  | pop
  | popDue (now : Nat)
  | drain

/-- What the call asks to add, if it is a push. -/
def Call.request? : Call τ → Option (τ × Int × Nat)
  | .push task priority deadline => some (task, priority, deadline)
  | _ => none

/-- A queue, and what went in and came out of it. -/
structure Session (τ : Type) where
  queue : DeadlineQueue τ := {}
  /-- The entries that were pushed, oldest first. -/
  received : List (Scheduled τ) := []
  /-- The entries that were returned, oldest first. -/
  returned : List (Scheduled τ) := []

namespace Session

/-- The session after a call that may have taken an entry off the queue. -/
def took (s : Session τ) : Option (Scheduled τ × DeadlineQueue τ) → Session τ
  | some (e, queue) => { s with queue, returned := s.returned ++ [e] }
  | none => s

/-- The session after one more call. -/
def step (s : Session τ) : Call τ → Session τ
  | .push task priority deadline =>
    { s with
      queue := s.queue.push task priority deadline
      received := s.received ++ [⟨task, priority, deadline, s.queue.pushed⟩] }
  | .pop => s.took s.queue.pop
  | .popDue now => s.took (s.queue.popDue now)
  | .drain =>
    { s with queue := s.queue.drain.2, returned := s.returned ++ s.queue.drain.1 }

/-- The calls made on an empty queue. -/
def run (calls : List (Call τ)) : Session τ := calls.foldl step {}

theorem run_concat (calls : List (Call τ)) (c : Call τ) :
    run (calls ++ [c]) = (run calls).step c := List.foldl_concat ..

/-- **The account of a session**: what was pushed has been returned or is waiting. -/
structure Accounted (s : Session τ) (calls : List (Call τ)) : Prop where
  kept : s.queue.Kept
  requests : s.received.map (fun e => (e.task, e.priority, e.deadline)) =
    calls.filterMap Call.request?
  numbers : s.received.map Scheduled.seq = List.range s.queue.pushed
  balance : (s.returned ++ s.queue.entries).Perm s.received

theorem accounted_start : Accounted ({} : Session τ) [] :=
  ⟨⟨trivial, List.nodup_nil, nofun⟩, rfl, rfl, List.Perm.refl _⟩

namespace Accounted

variable {s : Session τ} {calls : List (Call τ)}

/-- Taking the entry that is served first, or nothing. -/
theorem took_pop (a : s.Accounted calls) {c : Call τ} (hc : c.request? = none) :
    (s.took s.queue.pop).Accounted (calls ++ [c]) := by
  have hrequests : (calls ++ [c]).filterMap Call.request? = calls.filterMap Call.request? := by
    rw [List.filterMap_append, List.filterMap_cons_none hc, List.filterMap_nil, List.append_nil]
  rcases a.kept.pop_cases with ⟨-, hpop⟩ | ⟨e, q', hpop, -, k', hperm, hpushed, -⟩
  · rw [hpop]
    exact ⟨a.kept, a.requests.trans hrequests.symm, a.numbers, a.balance⟩
  · rw [hpop]
    refine ⟨k', a.requests.trans hrequests.symm, ?_, ?_⟩
    · rw [took, hpushed]
      exact a.numbers
    · rw [took, List.append_assoc, List.singleton_append]
      exact (hperm.symm.append_left _).trans a.balance

/-- **Each call keeps the account.** -/
theorem step (a : s.Accounted calls) (c : Call τ) : (s.step c).Accounted (calls ++ [c]) := by
  cases c with
  | push task priority deadline =>
    obtain ⟨k', hperm⟩ := a.kept.push task priority deadline
    refine ⟨k', ?_, ?_, ?_⟩
    · rw [Session.step, List.map_append, a.requests, List.filterMap_append]
      rfl
    · rw [Session.step, List.map_append, a.numbers]
      exact List.range_succ.symm
    · refine (hperm.append_left _).trans (List.perm_middle.trans ?_)
      exact (a.balance.cons _).trans (List.perm_append_singleton _ _).symm
  | pop => exact a.took_pop rfl
  | popDue now =>
    rw [Session.step, a.kept.popDue_eq]
    split_ifs
    · exact a.took_pop rfl
    · refine ⟨a.kept, ?_, a.numbers, a.balance⟩
      rw [List.filterMap_append]
      exact a.requests.trans (List.append_nil _).symm
  | drain =>
    refine ⟨drain_kept _, ?_, a.numbers, ?_⟩
    · rw [List.filterMap_append]
      exact a.requests.trans (List.append_nil _).symm
    · show ((s.returned ++ s.queue.entries) ++ []).Perm s.received
      rw [List.append_nil]
      exact a.balance

end Accounted

theorem run_accounted (calls : List (Call τ)) : (run calls).Accounted calls := by
  induction calls using List.reverseRecOn with
  | nil => exact accounted_start
  | append_singleton calls c ih =>
    rw [run_concat]
    exact ih.step c

/-- **A deadline queue is a stable priority queue.**  After any calls: the entries pushed are those
that were asked for, numbered in the order of the pushes, and each has been returned once or is
waiting; the comparison is the order of service, and tells any two entries apart; the waiting
entries have an agenda, in that order, of which `pop` takes the head and `popDue` takes it exactly
if it is due; when `popDue` answers `none` then nothing is due; `drain` returns all that wait; and
popping again and again returns the agenda from its head on. -/
theorem run_serves_in_order (calls : List (Call τ)) :
    let s := run calls
    let q := s.queue
    s.received.map (fun e => (e.task, e.priority, e.deadline)) = calls.filterMap Call.request? ∧
      s.received.map Scheduled.seq = List.range s.received.length ∧
      (s.returned ++ q.entries).Perm s.received ∧
      (∀ a ∈ s.received, ∀ b ∈ s.received, (a.order b = .gt ↔ a.Precedes b) ∧
        (a.order b = .lt ↔ b.Precedes a) ∧ (a.order b = .eq ↔ a = b)) ∧
      (∀ a b c : Scheduled τ, a.Precedes b → b.Precedes c → a.Precedes c) ∧
      q.agenda.Perm q.entries ∧ q.agenda.Pairwise Precedes ∧
      q.pop.map Prod.fst = q.agenda.head? ∧
      (∀ e q', q.pop = some (e, q') → q'.agenda = q.agenda.tail) ∧
      (∀ now, q.popDue now = if q.agenda.head?.any (·.deadline ≤ now) then q.pop else none) ∧
      (∀ now, q.popDue now = none ↔ ∀ e ∈ q.entries, now < e.deadline) ∧
      q.drain.1.Perm q.agenda ∧ q.drain.2.agenda = [] ∧
      ∀ n, (q.popMany n).1 = q.agenda.take n ∧ (q.popMany n).2.agenda = q.agenda.drop n := by
  intro s q
  have a : s.Accounted calls := run_accounted calls
  have k : q.Kept := a.kept
  have hlength : s.received.length = q.pushed := by
    have hlengths := congrArg List.length a.numbers
    rwa [List.length_map, List.length_range] at hlengths
  -- an entry is known by its number
  have hsame : ∀ d ∈ s.received, ∀ e ∈ s.received, d.seq = e.seq → d = e := by
    have hnodup : (s.received.map Scheduled.seq).Nodup := by
      rw [a.numbers]
      exact List.nodup_range
    exact fun d hd e he => List.inj_on_of_nodup_map hnodup hd he
  refine ⟨a.requests, hlength ▸ a.numbers, a.balance, ?_, fun _ _ _ => Precedes.trans,
    q.agenda_perm, k.agenda_pairwise, ?_, ?_, k.popDue_eq, k.popDue_eq_none,
    q.agenda_perm.symm, q.agenda_drain, k.popMany⟩
  · intro d hd e he
    refine ⟨order_eq_gt, order_eq_lt, fun heq => ?_, fun heq => ?_⟩
    · by_contra hne
      have hseq : d.seq ≠ e.seq := fun hseq => hne (hsame d hd e he hseq)
      have hnot : ¬ e.Precedes d := by
        rw [← order_eq_lt, heq]
        exact Ordering.noConfusion
      exact absurd (order_eq_gt.mpr (precedes_of_not hseq hnot)) (by rw [heq]; nofun)
    · subst heq
      cases horder : d.order d with
      | eq => rfl
      | lt => exact absurd (order_eq_lt.mp horder) (order_eq_lt.mp horder).asymm
      | gt => exact absurd (order_eq_gt.mp horder) (order_eq_gt.mp horder).asymm
  · rcases k.pop_cases with ⟨hagenda, hpop⟩ | ⟨e, q', hpop, hagenda, -⟩
    · rw [hagenda, hpop]
      rfl
    · rw [hagenda, hpop]
      rfl
  · intro e q' hpop
    rcases k.pop_cases with ⟨-, hnone⟩ | ⟨d, q'', hsome, hagenda, -⟩
    · exact absurd (hnone.symm.trans hpop) nofun
    · obtain ⟨rfl, rfl⟩ := Prod.mk.inj (Option.some.inj (hsome.symm.trans hpop))
      rw [hagenda]
      rfl

end Session

end DeadlineQueue

end ManagedHost
