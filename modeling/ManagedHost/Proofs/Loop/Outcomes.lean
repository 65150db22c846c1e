import ManagedHost.Proofs.Loop.Rest
import Mathlib.Data.List.Nodup

/-!
# What a family comes to

Once a machine on which a family was brought up is at rest, every task of the family has settled
with the result that the recursive definition gives for it (`Family.result`), and just those
functions were called that it calls, once each.  This holds for every run, and so the outcomes do
not depend on whether the root was run on the spot, where the continuations of a task are run one
after the other by whoever settles it, or on a loop, where they are put behind the microtasks that
wait already.
-/

namespace ManagedHost

variable {α : Type}

namespace Family

open Machine

variable {F : Family α} {c : Chronicle α} {config : LoopConfig} {workers : Nat}

/-- A continuation that is not cancelled has come to its outcome by its body. -/
theorem outcome_of_uncut (T : F.Tended c) {k : Nat} {r : TaskResult α}
    (hr : c.machine.outcome (k + 1) = some r) (hcut : k + 1 ∉ c.cancels) :
    k + 1 ∈ c.starts ∧ ∃ n q, F.nodes[k]? = some n ∧ c.machine.outcome n.parent = some q ∧
      r = n.link.apply q := by
  rcases T.recorded.outcome (k + 1) r hr with ⟨hbegun, hgives⟩ | ⟨-, hmem⟩ | ⟨hzero, -⟩
  · rcases hgives with ⟨hzero, -⟩ | ⟨k', n, q, hk, hn, hq, happly⟩
    · cases hzero
    · obtain rfl := Nat.succ.inj hk
      exact ⟨hbegun, n, q, hn, hq, happly⟩
  · exact absurd hmem hcut
  · cases hzero

/-- **The outcomes are the results of the recursive definition.** -/
theorem outcome_eq_result (T : F.Tended c) (hcut : ∀ t ∈ c.cancels, t ≠ 0 → t ∉ c.starts)
    {first : TaskResult α} (hfirst : c.machine.outcome 0 = some first) (t : TaskId)
    (r : TaskResult α) (hr : c.machine.outcome t = some r) : r = F.result first c.cancels t := by
  induction t using Nat.strongRecOn generalizing r with
  | _ t ih =>
    cases t with
    | zero =>
      rw [result_zero]
      exact Option.some.inj (hr.symm.trans hfirst)
    | succ k =>
      by_cases hmem : k + 1 ∈ c.cancels
      · -- it was cancelled before its body began
        obtain ⟨x, hx, -⟩ := Option.bind_eq_some_iff.mp hr
        have hk := Nat.lt_of_lt_of_le (lt_length hx) T.length.2
        have hn := List.getElem?_eq_getElem (Nat.lt_of_succ_lt_succ hk)
        rw [result_succ hn, if_pos hmem]
        rcases T.recorded.outcome (k + 1) r hr with ⟨hbegun, -⟩ | ⟨hcancelled, -⟩ | ⟨hzero, -⟩
        · exact absurd hbegun (hcut _ hmem (Nat.succ_ne_zero k))
        · exact hcancelled
        · cases hzero
      · obtain ⟨-, n, q, hn, hq, rfl⟩ := outcome_of_uncut T hr hmem
        rw [result_succ hn, if_neg hmem, ih n.parent (Nat.lt_succ_of_le (F.parent_le k n hn)) q hq]

/-- The bodies that were carried out are those of the continuations that are not cancelled. -/
theorem applied_perm (T : F.Tended c) (hrest : c.machine.AtRest)
    (hcut : ∀ t ∈ c.cancels, t ≠ 0 → t ∉ c.starts)
    (hgrown : c.machine.tasks.length = F.nodes.length + 1)
    (hsettled : ∀ t, t < c.machine.tasks.length → ∃ r, c.machine.outcome t = some r) :
    c.applied.Perm
      (((List.range F.nodes.length).filter fun k => k + 1 ∉ c.cancels).map (· + 1)) := by
  have hcount : ∀ t, c.applied.count t ≤ c.starts.count t := fun t =>
    Nat.le_trans (Nat.le_add_right _ _) (T.recorded.entries t)
  have hnodup : c.applied.Nodup :=
    List.nodup_iff_count_le_one.mpr fun t => Nat.le_trans (hcount t) (T.recorded.once t)
  have hnodup' : (((List.range F.nodes.length).filter fun k => k + 1 ∉ c.cancels).map
      (· + 1)).Nodup :=
    List.Nodup.map (fun _ _ => Nat.succ.inj) (List.nodup_range.filter _)
  refine (List.perm_ext_iff_of_nodup hnodup hnodup').mpr fun t => ?_
  simp only [List.mem_map, List.mem_filter, List.mem_range, decide_eq_true_eq]
  constructor
  · intro ht
    have hbegun : t ∈ c.starts :=
      List.count_pos_iff.mp (Nat.lt_of_lt_of_le (List.count_pos_iff.mpr ht) (hcount t))
    obtain ⟨hzero, -⟩ := T.recorded.applied t ht
    obtain ⟨k, rfl⟩ : ∃ k, t = k + 1 := Nat.exists_eq_succ_of_ne_zero hzero
    have hlt : k + 1 < c.machine.tasks.length := by
      -- nobody begins a task that is not there
      by_contra hge
      have hnone := List.getElem?_eq_none_iff.mpr (Nat.not_lt.mp hge)
      have hzero := T.recorded.pending (k + 1) (by simp [state, hnone])
      have hpos := List.count_pos_iff.mpr hbegun
      omega
    refine ⟨k, ⟨?_, fun hmem => hcut _ hmem hzero hbegun⟩, rfl⟩
    rw [hgrown] at hlt
    exact Nat.lt_of_succ_lt_succ hlt
  · rintro ⟨k, ⟨hk, hmem⟩, rfl⟩
    obtain ⟨r, hr⟩ := hsettled (k + 1) (by rw [hgrown]; exact Nat.succ_lt_succ hk)
    obtain ⟨hbegun, -⟩ := outcome_of_uncut T hr hmem
    have hexact := T.recorded.exact (k + 1) (Nat.succ_ne_zero k) hmem
    have hnone : c.machine.work.countP (fun w => w.2.isEntry (k + 1)) = 0 := by
      refine List.countP_eq_zero.mpr fun w hw => ?_
      exact absurd (holds_of_mem_work hw) (not_holds_of_atRest T hrest w.2)
    have hpos := List.count_pos_iff.mpr hbegun
    exact List.count_pos_iff.mp (by omega)

/-- **The functions that were called are those that the recursive definition calls.** -/
theorem notes_perm (T : F.Tended c) (hrest : c.machine.AtRest)
    (hcut : ∀ t ∈ c.cancels, t ≠ 0 → t ∉ c.starts)
    (hgrown : c.machine.tasks.length = F.nodes.length + 1) {first : TaskResult α}
    (houtcome : ∀ t, t < c.machine.tasks.length →
      c.machine.outcome t = some (F.result first c.cancels t)) :
    c.machine.notes.Perm (F.notes first c.cancels) := by
  have happlied := applied_perm T hrest hcut hgrown fun t ht => ⟨_, houtcome t ht⟩
  rw [T.recorded.notes]
  refine (happlied.filterMap _).trans (List.Perm.of_eq ?_)
  rw [List.filterMap_map, List.filterMap_filter]
  refine List.filterMap_congr fun k hk => ?_
  obtain ⟨n, hn⟩ : ∃ n, F.nodes[k]? = some n :=
    ⟨_, List.getElem?_eq_getElem (List.mem_range.mp hk)⟩
  have hlt : n.parent < c.machine.tasks.length := by
    rw [hgrown]
    have hle := Nat.le_trans (F.parent_le k n hn) (Nat.le_of_lt (List.mem_range.mp hk))
    exact Nat.lt_succ_of_le hle
  by_cases hmem : k + 1 ∈ c.cancels
  · simp [hmem]
  · simp [hmem, noteNow?, hn, houtcome _ hlt]

/-- The results depend on no more than the set of the continuations that are cancelled. -/
theorem result_congr {first : TaskResult α} {cut cut' : List TaskId}
    (hcut : ∀ t, t ≠ 0 → (t ∈ cut ↔ t ∈ cut')) (t : TaskId) :
    F.result first cut t = F.result first cut' t := by
  induction t using Nat.strongRecOn with
  | _ t ih =>
    cases t with
    | zero => rw [result_zero, result_zero]
    | succ k =>
      cases hn : F.nodes[k]? with
      | none => rw [result_of_none hn, result_of_none hn]
      | some n =>
        rw [result_succ hn, result_succ hn, ih n.parent (Nat.lt_succ_of_le (F.parent_le k n hn))]
        exact if_congr (hcut (k + 1) (Nat.succ_ne_zero k)) rfl rfl

/-- The run has come to its end: the whole tree is there, somebody has asked for the root to be run
or settled, the continuations on which a cancellation was carried out were cancelled before their
bodies began, and nothing will happen any more. -/
structure Finished (F : Family α) (c : Chronicle α) : Prop where
  grown : c.machine.tasks.length = F.nodes.length + 1
  urged : ∃ v ∈ c.events, v.instr.Urges 0
  cut : ∀ t ∈ c.cancels, t ≠ 0 → t ∉ c.starts
  rest : c.machine.AtRest

/-- The outcomes at the end of a run, by that of the root. -/
theorem Unfolds.settled (h : F.Unfolds config workers c) (hend : F.Finished c) :
    ∃ first, c.machine.outcome 0 = some first ∧
      ∀ t, t < c.machine.tasks.length → (c.machine.state t).isTerminal = true ∧
        c.machine.outcome t = some (F.result first c.cancels t) := by
  have T := h.tended
  have g := h.reaches.governed
  have hterminal : ∀ t, t < c.machine.tasks.length →
      (c.machine.state t).isTerminal = true ∧ ∃ r, c.machine.outcome t = some r := by
    intro t ht
    have hx := List.getElem?_eq_getElem ht
    have hfinal := isTerminal_of_atRest T g h.reaches.attended hend.urged hend.rest t _ hx
    rw [(cell_eq hx).1, (cell_eq hx).2.1]
    exact ⟨hfinal, Option.isSome_iff_exists.mp ((g.isSome_eq hx).trans hfinal)⟩
  obtain ⟨-, first, hfirst⟩ := hterminal 0 T.length.1
  refine ⟨first, hfirst, fun t ht => ?_⟩
  obtain ⟨hfinal, r, hr⟩ := hterminal t ht
  exact ⟨hfinal, hr.trans (congrArg some (outcome_eq_result T hend.cut hfirst t r hr))⟩

/-- The ways in which the root comes to its outcome. -/
theorem Tended.first_eq (T : F.Tended c) {first : TaskResult α}
    (hfirst : c.machine.outcome 0 = some first) :
    0 ∈ c.starts ∧ first = F.root.result ∨ 0 ∈ c.cancels ∧ first = .error .cancelled ∨
      ∃ e ∈ c.failures, first = .error e := by
  rcases T.recorded.outcome 0 first hfirst with ⟨hbegun, hgives⟩ | ⟨hr, hmem⟩ | ⟨-, e, he, hr⟩
  · rcases hgives with ⟨-, hr⟩ | ⟨k, n, q, hk, -⟩
    · exact Or.inl ⟨hbegun, hr⟩
    · cases hk
  · exact Or.inr (Or.inl ⟨hmem, hr⟩)
  · exact Or.inr (Or.inr ⟨e, he, hr⟩)

/-- **A tree of continuations comes to what the recursive definition says.**  When nobody calls any
more the run comes to rest, whatever the order of the turns.  Once everything is at rest, the root
has given what its code ends in, or was cancelled, or failed with an error that somebody gave it.
From that, every task of the tree has settled with its result in the definition, and the functions
that were called are those that the definition calls, once each.  Any other run in which the root
gives the same and the same continuations are cancelled, on the spot or on a loop, has the same
outcomes. -/
theorem Unfolds.outcomes_at_rest (h : F.Unfolds config workers c) :
    (∃ bound, ∀ n d, c.Continues n d → n ≤ bound) ∧
      (∃ n d, c.Continues n d ∧ F.Unfolds config workers d ∧ d.machine.AtRest) ∧
      (F.Finished c → ∃ first : TaskResult α,
        (0 ∈ c.starts ∧ first = F.root.result ∨ 0 ∈ c.cancels ∧ first = .error .cancelled ∨
          ∃ e ∈ c.failures, first = .error e) ∧
        (∀ t, t ≤ F.nodes.length → (c.machine.state t).isTerminal = true ∧
          c.machine.outcome t = some (F.result first c.cancels t)) ∧
        c.machine.notes.Perm (F.notes first c.cancels) ∧
        ∀ (config' : LoopConfig) (workers' : Nat) (d : Chronicle α),
          F.Unfolds config' workers' d → F.Finished d → d.machine.outcome 0 = some first →
          (∀ t, t ≠ 0 → (t ∈ d.cancels ↔ t ∈ c.cancels)) →
          ∀ t, t ≤ F.nodes.length → d.machine.outcome t = c.machine.outcome t) := by
  obtain ⟨hbound, hrests⟩ := h.comes_to_rest
  refine ⟨⟨_, hbound⟩, hrests, fun hend => ?_⟩
  have T := h.tended
  obtain ⟨first, hfirst, hsettled⟩ := h.settled hend
  have hgrown := hend.grown
  refine ⟨first, T.first_eq hfirst, fun t ht => ?_, ?_,
    fun config' workers' d hd hend' hfirst' hcut t ht => ?_⟩
  · exact hsettled t (by omega)
  · exact notes_perm T hend.rest hend.cut hgrown fun t ht => (hsettled t ht).2
  · obtain ⟨first', hfirst'', hsettled'⟩ := hd.settled hend'
    obtain rfl := Option.some.inj (hfirst''.symm.trans hfirst')
    have hgrown' := hend'.grown
    rw [(hsettled t (by omega)).2, (hsettled' t (by omega)).2, result_congr hcut]

/-! ### Two runs -/

/-- Let the next continuation be created and its registration begin. -/
def grow (F : Family α) (c : Chronicle α) : Chronicle α :=
  match F.nodes[c.machine.tasks.length - 1]? with
  | some n => c.act fun m => (m.continueWith n.parent n.body).2
  | none => c

theorem Unfolds.grow (h : F.Unfolds config workers c) : F.Unfolds config workers (F.grow c) := by
  unfold Family.grow
  split
  · next n hn =>
    have hpos := h.tended.length.1
    exact h.grown (Nat.sub_add_cancel hpos).symm hn
  · exact h

theorem Unfolds.run (h : F.Unfolds config workers c) (selves : List Nat) :
    F.Unfolds config workers (c.run selves) := by
  induction selves generalizing c with
  | nil => exact h
  | cons self rest ih =>
    refine ih ?_
    show F.Unfolds config workers ((c.turn true self).getD c)
    cases hturn : c.turn true self with
    | none => exact h
    | some d => exact h.turn true self hturn

/-- A tree of six tasks: the second continuation is not needed, the third panics, the fourth is to
be cancelled and the fifth recovers from the panic. -/
def sapling : Family Nat where
  root := .returns (.ok 2)
  nodes := [⟨0, .andThen fun v => .returns (.ok (v * 10)), some "tenfold"⟩,
    ⟨0, .orElse fun _ => .returns (.ok 0), some "unneeded"⟩,
    ⟨1, .andThen fun _ => .panics "broken", some "panic"⟩,
    ⟨3, .andThen fun v => .returns (.ok v), some "cut off"⟩,
    ⟨3, .orElse fun _ => .returns (.ok 7), some "recovered"⟩]
  parent_le := by
    intro k n hn
    match k with
    | 0 | 1 | 2 | 3 | 4 =>
      obtain rfl := Option.some.inj hn
      decide
    | k + 5 => cases hn

/-- What becomes of the six tasks. -/
example : (List.range 6).map (sapling.result (.ok 2) [4]) =
    [.ok 2, .ok 20, .ok 2, .error (.panicked "broken"), .error .cancelled, .ok 7] := by
  cbv

/-- The root is there, and the loop is idle. -/
def sown : Chronicle Nat := (Chronicle.start { workers := 1 } 0).act fun m =>
  (m.newTask (.script [] (.done sapling.root))).2

/-- Four continuations are registered, by the strands from `n` on. -/
def sprouted (n : Nat) (c : Chronicle Nat) : Chronicle Nat :=
  (sapling.grow (sapling.grow (sapling.grow (sapling.grow c)))).run [n, n + 1, n + 2, n + 3]

/-- One is cancelled, the root is run on the spot, and the last continuation comes afterwards. -/
def onTheSpot : Chronicle Nat :=
  (sapling.grow ((((sprouted 0 sown).call (.cancel 4)).run (List.replicate 8 4)).call (.start 0)
    |>.run (List.replicate 40 5))).run (List.replicate 20 6)

/-- The same on a loop, whose threads are the strands 0, 1 and 2. -/
def onTheLoop : Chronicle Nat :=
  (sapling.grow (((((sprouted 3 (sown.act startLoop)).call (.cancel 4)).run
    (List.replicate 8 7)).call (.submit 0 .caller)).run (List.replicate 5 8 ++ List.replicate 12 0)
      |>.act (·.elapse 2000) |>.run (List.replicate 40 1))).run
        (List.replicate 20 9 ++ List.replicate 20 1)

theorem Unfolds.sprouted {c : Chronicle Nat} (h : sapling.Unfolds config workers c) (n : Nat) :
    sapling.Unfolds config workers (sprouted n c) :=
  h.grow.grow.grow.grow.run _

theorem unfolds_onTheSpot : sapling.Unfolds { workers := 1 } 0 onTheSpot := by
  have hsown : sapling.Unfolds { workers := 1 } 0 sown := .planted
  have hcancel : Asks (sprouted 0 sown).machine (.cancel 4) := by
    unfold Asks
    decide +kernel
  exact ((((hsown.sprouted 0).called (.cancel 4) hcancel).run _).called (.start 0) rfl |>.run _
    |>.grow).run _

theorem unfolds_onTheLoop : sapling.Unfolds { workers := 1 } 0 onTheLoop := by
  have hsown : sapling.Unfolds { workers := 1 } 0 (sown.act startLoop) :=
    Unfolds.planted.started rfl
  have hcancel : Asks (sprouted 3 (sown.act startLoop)).machine (.cancel 4) := by
    unfold Asks
    decide +kernel
  have hsubmit : Asks (((sprouted 3 (sown.act startLoop)).call (.cancel 4)).run
      (List.replicate 8 7)).machine (.submit 0 .caller) := by
    unfold Asks
    decide +kernel
  exact (((((hsown.sprouted 3).called (.cancel 4) hcancel).run _).called (.submit 0 .caller)
    hsubmit).run _ |>.elapsed 2000 |>.run _ |>.grow).run _

/-- What has to be evaluated to see that a run has come to its end. -/
theorem finished_of_eval {starts cancels : List TaskId}
    (hgrown : c.machine.tasks.length = F.nodes.length + 1) (hstarts : c.starts = starts)
    (hcancels : c.cancels = cancels) (hroot : 0 ∈ starts)
    (hcut : ∀ t ∈ cancels, t ≠ 0 → t ∉ starts) (hloop : c.machine.loop.stopSignal = false ∧
      c.machine.loop.queue = [] ∧ c.machine.loop.microtasks = [] ∧ c.machine.loop.timers = [])
    (hstrands : (c.machine.strands.all fun s => s.code.isEmpty && s.role != .dispatcher) = true) :
    F.Finished c := by
  subst hstarts hcancels
  refine ⟨hgrown, ?_, hcut, atRest_of_idle hloop.1 hloop.2.1 hloop.2.2.1 hloop.2.2.2 fun s hs => ?_⟩
  · obtain ⟨x, hx, hzero⟩ := List.mem_map.mp hroot
    obtain ⟨v, hv, hbegun⟩ := List.mem_filterMap.mp hx
    refine ⟨v, hv, ?_⟩
    rw [(Chronicle.begun?_eq_some hbegun).2.1, hzero]
    exact rfl
  · have hs := List.all_eq_true.mp hstrands s hs
    simpa using hs

theorem first_eq_two {c : Chronicle Nat} {first : TaskResult Nat} (hcancels : c.cancels = [4])
    (hfailures : c.failures = []) (hway : 0 ∈ c.starts ∧ first = sapling.root.result ∨
      0 ∈ c.cancels ∧ first = .error .cancelled ∨ ∃ e ∈ c.failures, first = .error e) :
    first = .ok 2 := by
  rw [hcancels, hfailures] at hway
  rcases hway with ⟨-, hroot⟩ | ⟨hmem, -⟩ | ⟨e, he, -⟩
  · exact hroot
  · exact absurd hmem (by decide)
  · exact absurd he List.not_mem_nil

/-- **On the spot the continuations are run depth first, on the loop breadth first; the outcomes are
the same.** -/
theorem sapling_outcomes :
    onTheSpot.starts = [0, 1, 3, 2, 5] ∧ onTheLoop.starts = [0, 1, 2, 3, 5] ∧
      (∀ t, t ≤ 5 → onTheSpot.machine.outcome t = some (sapling.result (.ok 2) [4] t)) ∧
      onTheSpot.machine.notes.Perm (sapling.notes (.ok 2) [4]) ∧
      ∀ t, t ≤ 5 → onTheLoop.machine.outcome t = onTheSpot.machine.outcome t := by
  have hstarts : onTheSpot.starts = [0, 1, 3, 2, 5] := by decide +kernel
  have hstarts' : onTheLoop.starts = [0, 1, 2, 3, 5] := by decide +kernel
  have hcancels : onTheSpot.cancels = [4] := by decide +kernel
  have hcancels' : onTheLoop.cancels = [4] := by decide +kernel
  have hfinished : sapling.Finished onTheSpot := finished_of_eval (by decide +kernel) hstarts
    hcancels (by decide) (by decide) (by decide +kernel) (by decide +kernel)
  have hfinished' : sapling.Finished onTheLoop := finished_of_eval (by decide +kernel) hstarts'
    hcancels' (by decide) (by decide) (by decide +kernel) (by decide +kernel)
  obtain ⟨first, hway, hsettled, hnotes, hsame⟩ := unfolds_onTheSpot.outcomes_at_rest.2.2 hfinished
  obtain rfl := first_eq_two hcancels (by decide +kernel) hway
  obtain ⟨first', hfirst', -⟩ := unfolds_onTheLoop.settled hfinished'
  have hway' := unfolds_onTheLoop.tended.first_eq hfirst'
  obtain rfl := first_eq_two hcancels' (by decide +kernel) hway'
  rw [hcancels] at hsettled hnotes hsame
  refine ⟨hstarts, hstarts', fun t ht => (hsettled t ht).2, hnotes, ?_⟩
  exact hsame _ _ onTheLoop unfolds_onTheLoop hfinished' hfirst' fun t _ => by rw [hcancels']

end Family

end ManagedHost
