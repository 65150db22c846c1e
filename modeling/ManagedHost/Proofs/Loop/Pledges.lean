import ManagedHost.Proofs.Loop.Awaiting

/-!
# What happens to a promise

The setup of a promise settles it, drops the resolver or keeps it for later, and then returns or
panics; a resolver that was kept is used or dropped by somebody else, at any time.  Each of these is
a `Happening`, and the cell of the promise is what its happenings make of a new one.

`Machine.exec_pledges` says which instructions have to do with promises, and `settlement` what the
happenings of one promise amount to.  Where these are such as there can be (`Account`), its cell
gives just that (`Account.result?_eq`), and what comes later changes nothing of it.
-/

namespace ManagedHost

variable {α : Type}

/-! ### Happenings -/

/-- What can happen to a promise. -/
inductive Happening (α : Type) where
  /-- The resolver is used to settle the promise. -/
  | settled (result : TaskResult α)
  /-- The resolver is kept by the setup for later. -/
  | kept
  /-- The resolver is dropped. -/
  | dropped
  /-- The setup returns. -/
  | returned
  /-- The setup panics. -/
  | panicked (message : String)

namespace Happening

/-- The result that is sent to the promise. -/
def result? : Happening α → Option (TaskResult α)
  | settled r => some r
  | panicked message => some (.error (.panicked message))
  | _ => none

/-- Whether the resolver is used up. -/
def isUse : Happening α → Bool
  | settled _ | dropped => true
  | _ => false

/-- Whether the setup comes to its end. -/
def isEnd : Happening α → Bool
  | returned | panicked _ => true
  | _ => false

def isDropped : Happening α → Bool
  | dropped => true
  | _ => false

def isReturned : Happening α → Bool
  | returned => true
  | _ => false

/-- What the setup does with the resolver. -/
def ofStep : SetupStep α → Happening α
  | .settle result => settled result
  | .keep => kept
  | .drop => dropped

/-- How the setup ends. -/
def ofPanic : Option String → Happening α
  | some message => panicked message
  | none => returned

/-- What is done with a resolver that was kept. -/
def ofUse : Option (TaskResult α) → Happening α
  | some result => settled result
  | none => dropped

end Happening

namespace PromiseCell

/-- The cell of a promise after something has happened to it. -/
def after (c : PromiseCell α) : Happening α → PromiseCell α
  | .settled r => { c with message := c.message <|> some r, resolver := false, kept := false }
  | .kept => { c with resolver := true, kept := true }
  | .dropped => { c with resolver := false, kept := false }
  | .returned => { c with settingUp := false }
  | .panicked message =>
    { c with message := c.message <|> some (.error (.panicked message)), settingUp := false }

/-- What the promise gives, by the state of its cell: what was sent first, or that it is abandoned
when nothing can be sent any more. -/
def result? (c : PromiseCell α) : Option (TaskResult α) :=
  c.message <|>
    (if !c.resolver && !c.settingUp then some (.error .abandoned) else none :
      Option (TaskResult α))

@[simp]
theorem task_after (c : PromiseCell α) (h : Happening α) : (c.after h).task = c.task := by
  cases h <;> rfl

theorem message_after (c : PromiseCell α) (h : Happening α) :
    (c.after h).message = (c.message <|> h.result?) := by
  cases h <;> simp [after, Happening.result?]

end PromiseCell

namespace Instr

/-- The promise whose setup is about to run. -/
def setup? : Instr α → Option Nat
  | setup p _ => some p
  | _ => none

/-- The promise whose setup has run. -/
def setupEnd? : Instr α → Option Nat
  | setupEnd p _ => some p
  | _ => none

/-- Whether the instruction belongs to the setup of a promise. -/
def isSetup (j : Instr α) : Bool := j.setup?.isSome || j.setupEnd?.isSome

theorem IsCall.isSetup_eq_false {j : Instr α} (h : j.IsCall) : j.isSetup = false := by
  cases j with
  | setup => exact h.elim
  | setupEnd => exact h.elim
  | _ => rfl

end Instr

/-- **The effect of an instruction on the promises**: the instructions that follow, and the machine
afterwards. -/
inductive PledgeEffect (m m' : Machine α) : Instr α → List (Instr α) → Prop where
  | aside {i : Instr α} {code : List (Instr α)} (hi : i.isSetup = false)
      (hcode : code.all (!·.isSetup) = true) (hpromises : m'.promises = m.promises)
      (hcodes : m'.codes = m.codes) : PledgeEffect m m' i code
  | pledged {t : TaskId} {setup : PromiseSetup α}
      (hbody : m.tasks[t]?.bind TaskCell.body = some (.promise setup))
      (hpromises : m'.promises = m.promises ++ [{ task := t }])
      (hcodes : m'.codes = m.codes ++ [[Instr.setup m.promises.length setup]]) :
      PledgeEffect m m' (.enter t) [.awaitPromise t m.promises.length]
  | begun {p : Nat} {setup : PromiseSetup α}
      (hpromises : m'.promises = m.promises.modify p (·.after (.ofStep setup.step)))
      (hcodes : m'.codes = m.codes) :
      PledgeEffect m m' (.setup p setup) [.setupEnd p setup.panic]
  | ended {p : Nat} {panic : Option String}
      (hpromises : m'.promises = m.promises.modify p (·.after (.ofPanic panic)))
      (hcodes : m'.codes = m.codes) : PledgeEffect m m' (.setupEnd p panic) []

namespace Machine

variable {m m' : Machine α} {t : TaskId} {self : Nat} {heedStop : Bool} {i j : Instr α}
  {code : List (Instr α)}

/-! ### Carrying out an instruction -/

/-- What the instruction does to promises if it need not wait. -/
def Pledges (m : Machine α) (i : Instr α) (result : Option (Machine α × List (Instr α))) : Prop :=
  ∀ m' code, result = some (m', code) → PledgeEffect m m' i code

theorem Rule.pledges (h : m.Rule heedStop self i m' code) : PledgeEffect m m' i code := by
  cases h with
  | @enterPromise t c setup hc hbody =>
    exact .pledged (Option.bind_eq_some_iff.mpr ⟨c, hc, hbody⟩) rfl List.map_append
  | @setup p setup =>
    refine .begun ?_ rfl
    obtain ⟨text, step, panic⟩ := setup
    cases step <;> rfl
  | @setupEnd p panic => exact .ended (by cases panic <;> rfl) rfl
  -- the others have nothing to do with promises
  | settle => exact .aside rfl (all_settled rfl rfl rfl _ _) rfl rfl
  | settleLate => exact .aside rfl (all_retried rfl _) rfl rfl
  | dispatch => exact .aside rfl (all_dispatched (fun _ => rfl) (fun _ => rfl) _ _) rfl rfl
  | @submitRefused t who | @enqueueRefused t who | @enqueue t who =>
    cases who <;> exact .aside rfl rfl rfl rfl
  | @microtask t caller | @microtaskRefused t caller =>
    exact .aside rfl (by cases caller <;> rfl) rfl rfl
  | answer => exact .aside rfl rfl rfl (codes_answer m self _)
  | scanDone => exact .aside rfl (all_due (fun _ => rfl) _) rfl rfl
  | sweepLoop => exact .aside rfl (all_swept (fun _ => rfl) (fun _ => rfl) _ _) rfl rfl
  | stopScheduler => exact .aside rfl (all_drained rfl (fun _ => rfl) rfl _) rfl rfl
  | _ => exact .aside rfl rfl rfl rfl

/-- **What an instruction does to promises.** -/
theorem exec_pledges (heedStop : Bool) (i : Instr α) : m.Pledges i (m.exec heedStop self i) :=
  fun _ _ h => (exec_ruled h).pledges

/-! ### What is to be done -/

theorem held_eq_codes (m : Machine α) (f : Instr α → Option TaskId) :
    m.held f = m.codes.flatMap (·.filterMap f) := by
  unfold held codes
  rw [List.flatMap_map]

/-- After a strand has carried out an instruction, when all strands are known that were added. -/
theorem count_held_codes {code rest : List (Instr α)} {added : List (List (Instr α))}
    (f : Instr α → Option TaskId) (hs : m.codes[self]? = some (i :: rest))
    (hcodes : m'.codes = m.codes.set self (code ++ rest) ++ added) (k : TaskId) :
    (m'.held f).count k + (f i).toList.count k =
      (m.held f).count k + (code.filterMap f).count k +
        (added.flatMap (·.filterMap f)).count k := by
  have hset := count_flatMap_set hs (code ++ rest) (fun code => code.filterMap f) k
  have hfirst : (i :: rest).filterMap f = (f i).toList ++ rest.filterMap f := by
    cases hi : f i with
    | none => rw [List.filterMap_cons_none hi, Option.toList_none, List.nil_append]
    | some k => rw [List.filterMap_cons_some hi, Option.toList_some, List.singleton_append]
  rw [held_eq_codes, held_eq_codes, hcodes, List.flatMap_append, List.count_append]
  rw [hfirst, List.filterMap_append, List.count_append, List.count_append] at hset
  omega

theorem holds_iff_codes : m.Holds j ↔ ∃ code ∈ m.codes, j ∈ code := by
  unfold Holds codes
  simp only [List.mem_map, exists_exists_and_eq_and]

/-- What is to be done after a strand has carried out an instruction. -/
theorem holds_codes {rest : List (Instr α)} {added : List (List (Instr α))}
    (hs : m.codes[self]? = some (i :: rest))
    (hcodes : m'.codes = m.codes.set self (code ++ rest) ++ added) (h : m'.Holds j) :
    j ∈ code ∨ m.Holds j ∨ ∃ more ∈ added, j ∈ more := by
  obtain ⟨new, hnew, hj⟩ := holds_iff_codes.mp h
  rw [hcodes] at hnew
  rcases List.mem_append.mp hnew with hnew | hnew
  · rcases List.mem_or_eq_of_mem_set hnew with hold | rfl
    · exact Or.inr (Or.inl (holds_iff_codes.mpr ⟨new, hold, hj⟩))
    · refine (List.mem_append.mp hj).imp_right fun hj => Or.inl (holds_iff_codes.mpr ?_)
      exact ⟨_, List.mem_of_getElem? hs, List.mem_cons_of_mem _ hj⟩
  · exact Or.inr (Or.inr ⟨new, hnew, hj⟩)

/-- The code of the strands after one of them has carried out an instruction. -/
theorem step_codes {s : Strand α} {rest : List (Instr α)} {added : List (List (Instr α))}
    (h : m.step heedStop self = some m') (hs : m.strands[self]? = some s)
    (hexited : s.exited = false) (hcode : s.code = i :: rest) {m₁ : Machine α}
    (hexec : m.exec heedStop self i = some (m₁, code)) (hcodes : m₁.codes = m.codes ++ added) :
    m'.codes = m.codes.set self (code ++ rest) ++ added ∧ m'.promises = m₁.promises := by
  simp only [step, hs, hexited, hcode, hexec] at h
  obtain rfl := Option.some.inj h
  refine ⟨?_, rfl⟩
  have hlt := (List.getElem?_eq_some_iff.mp (getElem?_codes hs)).1
  rw [← List.set_append_left _ _ hlt, ← hcodes]
  exact codes_put m₁ self fun _ => rfl

end Machine

/-! ### One promise -/

/-- **What the happenings amount to**: the result that was sent first, or that the promise is
abandoned, when the resolver was dropped and the setup has returned and nothing was sent.  `none`
while that is open. -/
def settlement (told : List (Happening α)) : Option (TaskResult α) :=
  told.findSome? Happening.result? <|>
    (if told.any Happening.isDropped && told.any Happening.isReturned then
        some (.error .abandoned)
      else none : Option (TaskResult α))

/-- What the happenings amount to is that the promise is abandoned when it was, or when this is the
error that was sent first. -/
theorem settlement_eq_abandoned {told : List (Happening α)} :
    settlement told = some (.error .abandoned) ↔
      told.findSome? Happening.result? = some (.error .abandoned) ∨
        (∀ e ∈ told, e.result? = none) ∧ .dropped ∈ told ∧ .returned ∈ told := by
  have hdropped : told.any Happening.isDropped = true ↔ .dropped ∈ told := by
    rw [List.any_eq_true]
    refine ⟨fun ⟨e, he, hdropped⟩ => ?_, fun h => ⟨_, h, rfl⟩⟩
    cases e with
    | dropped => exact he
    | _ => cases hdropped
  have hreturned : told.any Happening.isReturned = true ↔ .returned ∈ told := by
    rw [List.any_eq_true]
    refine ⟨fun ⟨e, he, hreturned⟩ => ?_, fun h => ⟨_, h, rfl⟩⟩
    cases e with
    | returned => exact he
    | _ => cases hreturned
  unfold settlement
  rw [← List.findSome?_eq_none_iff, ← hdropped, ← hreturned, ← Bool.and_eq_true]
  generalize (told.any Happening.isDropped && told.any Happening.isReturned) = ended
  cases told.findSome? Happening.result? with
  | some r => simp
  | none => cases ended <;> simp

/-- **What some happenings amount to stands**, whatever comes later, when the resolver is used once
at most and the setup ends once at most. -/
theorem settlement_append {told more : List (Happening α)} {r : TaskResult α}
    (huses : (told ++ more).countP Happening.isUse ≤ 1)
    (hends : (told ++ more).countP Happening.isEnd ≤ 1) (h : settlement told = some r) :
    settlement (told ++ more) = some r := by
  unfold settlement at h ⊢
  rw [List.findSome?_append]
  cases hfirst : told.findSome? Happening.result? with
  | some r' =>
    rw [hfirst] at h
    exact h
  | none =>
    rw [hfirst] at h
    by_cases hover : (told.any Happening.isDropped && told.any Happening.isReturned) = true
    · obtain ⟨hdropped, hreturned⟩ := Bool.and_eq_true_iff.mp hover
      -- the resolver is used up and the setup is over, so nothing more is sent
      have hpos : ∀ f g : Happening α → Bool, (∀ e, f e = true → g e = true) →
          told.any f = true → 0 < told.countP g := fun f g hfg hany => by
        obtain ⟨e, he, hf⟩ := List.any_eq_true.mp hany
        exact List.countP_pos_iff.mpr ⟨e, he, hfg e hf⟩
      have huse := hpos _ Happening.isUse (fun e => by cases e <;> simp [Happening.isDropped,
        Happening.isUse]) hdropped
      have hend := hpos _ Happening.isEnd (fun e => by cases e <;> simp [Happening.isReturned,
        Happening.isEnd]) hreturned
      rw [List.countP_append] at huses hends
      have hmore : more.findSome? Happening.result? = none := by
        refine List.findSome?_eq_none_iff.mpr fun e he => ?_
        have hunused := List.countP_eq_zero.mp (by omega : more.countP Happening.isUse = 0) e he
        have hopen := List.countP_eq_zero.mp (by omega : more.countP Happening.isEnd = 0) e he
        cases e with
        | settled => exact absurd rfl hunused
        | panicked => exact absurd rfl hopen
        | _ => rfl
      rw [hmore, List.any_append, List.any_append, hdropped, hreturned]
      rw [hdropped, hreturned] at h
      exact h
    · rw [if_neg hover] at h
      cases h

/-- **The account of a promise**: its cell is what has happened to it, the setup is about to run
(`before`), about to end (`during`), or over, and the resolver is used once at most. -/
structure Account (told : List (Happening α)) (before during : Nat) (c : PromiseCell α) : Prop where
  folded : c = told.foldl PromiseCell.after { task := c.task }
  once : before + during + told.countP Happening.isEnd = 1
  fresh : before ≠ 0 → told = []
  uses : told.countP Happening.isUse + (if c.resolver then 1 else 0) = 1
  kept : before = 0 → c.resolver = c.kept

namespace Account

variable {told : List (Happening α)} {before during : Nat} {c : PromiseCell α} {r : TaskResult α}

theorem new (t : TaskId) : Account (α := α) [] 1 0 { task := t } :=
  ⟨rfl, rfl, fun _ => rfl, rfl, fun h => absurd h Nat.one_ne_zero⟩

theorem folded_concat (h : c = told.foldl PromiseCell.after { task := c.task })
    (e : Happening α) :
    c.after e = (told ++ [e]).foldl PromiseCell.after { task := (c.after e).task } := by
  rw [List.foldl_concat, PromiseCell.task_after, ← h]

/-- The setup does something with the resolver. -/
theorem begin (h : Account told 1 0 c) (step : SetupStep α) :
    Account (told ++ [Happening.ofStep step]) 0 1 (c.after (.ofStep step)) := by
  obtain rfl := h.fresh Nat.one_ne_zero
  refine
    { folded := folded_concat h.folded _, once := ?once, fresh := fun h => absurd rfl h,
      uses := ?uses, kept := fun _ => ?kept }
  case once => cases step <;> rfl
  case uses => cases step <;> rfl
  case kept => cases step <;> rfl

/-- The setup returns or panics. -/
theorem finish (h : Account told 0 1 c) (panic : Option String) :
    Account (told ++ [Happening.ofPanic panic]) 0 0 (c.after (.ofPanic panic)) := by
  have honce := h.once
  have huses := h.uses
  have hkept := h.kept rfl
  refine
    { folded := folded_concat h.folded _, once := ?once, fresh := fun h => absurd rfl h,
      uses := ?uses, kept := fun _ => ?kept }
  case once =>
    rw [List.countP_append]
    cases panic <;> simp [Happening.ofPanic, Happening.isEnd] at * <;> omega
  case uses =>
    rw [List.countP_append]
    cases panic <;> exact huses
  case kept => cases panic <;> exact hkept

/-- Once its setup has begun, something has happened to the promise. -/
theorem told_ne_nil (h : Account told 0 during c) : told ≠ [] := by
  rintro rfl
  have hkept := h.kept rfl
  rw [h.folded] at hkept
  cases hkept

/-- A resolver that was kept is there. -/
theorem resolver_of_kept (h : Account told before during c) (hkept : c.kept = true) :
    before = 0 ∧ c.resolver = true := by
  have hbefore : before = 0 := by
    by_contra hne
    have hfolded := h.folded
    rw [h.fresh hne] at hfolded
    rw [hfolded] at hkept
    cases hkept
  exact ⟨hbefore, (h.kept hbefore).trans hkept⟩

/-- A resolver that was kept is used or dropped. -/
theorem use (h : Account told before during c) (hkept : c.kept = true)
    (result : Option (TaskResult α)) :
    Account (told ++ [Happening.ofUse result]) before during (c.after (.ofUse result)) := by
  obtain ⟨rfl, hresolver⟩ := h.resolver_of_kept hkept
  have honce := h.once
  have huses := h.uses
  refine
    { folded := folded_concat h.folded _, once := ?once, fresh := fun h => absurd rfl h,
      uses := ?uses, kept := fun _ => ?kept }
  case once =>
    rw [List.countP_append]
    cases result <;> simpa [Happening.ofUse, Happening.isEnd] using honce
  case uses =>
    rw [List.countP_append]
    rw [hresolver] at huses
    cases result <;> simp [Happening.ofUse, Happening.isUse, PromiseCell.after] at * <;> omega
  case kept => cases result <;> rfl

/-- What was sent first is in the cell. -/
theorem message_eq (h : Account told before during c) :
    c.message = told.findSome? Happening.result? := by
  have hfold : ∀ (told : List (Happening α)) (c : PromiseCell α),
      (told.foldl PromiseCell.after c).message =
        (c.message <|> told.findSome? Happening.result?) := by
    intro told
    induction told with
    | nil =>
      intro c
      show c.message = (c.message <|> none)
      cases c.message <;> rfl
    | cons e rest ih =>
      intro c
      rw [List.foldl_cons, ih, PromiseCell.message_after, List.findSome?_cons]
      cases c.message <;> cases e.result? <;> rfl
  rw [h.folded, hfold]
  rfl

/-- The setup is under way until its end. -/
theorem settingUp_eq (h : Account told before during c) :
    c.settingUp = !told.any Happening.isEnd := by
  have hfold : ∀ (told : List (Happening α)) (c : PromiseCell α),
      (told.foldl PromiseCell.after c).settingUp = (c.settingUp && !told.any Happening.isEnd) := by
    intro told
    induction told with
    | nil => exact fun c => (Bool.and_true _).symm
    | cons e rest ih =>
      intro c
      rw [List.foldl_cons, ih, List.any_cons]
      cases e <;> simp [PromiseCell.after, Happening.isEnd]
  rw [h.folded, hfold]
  exact Bool.true_and _

theorem resolver_eq (h : Account told before during c) :
    c.resolver = !told.any Happening.isUse := by
  have huses := h.uses
  cases hresolver : c.resolver with
  | true =>
    rw [hresolver] at huses
    have hnone : told.countP Happening.isUse = 0 := by simpa using huses
    rw [List.countP_eq_zero] at hnone
    symm
    simpa using hnone
  | false =>
    rw [hresolver] at huses
    have hsome : 0 < told.countP Happening.isUse := by
      simp at huses
      omega
    obtain ⟨e, he, huse⟩ := List.countP_pos_iff.mp hsome
    symm
    simpa using ⟨e, he, huse⟩

/-- **What the promise gives is what its happenings amount to.** -/
theorem result?_eq (h : Account told before during c) : c.result? = settlement told := by
  unfold PromiseCell.result? settlement
  rw [h.message_eq, h.settingUp_eq, h.resolver_eq]
  cases hfirst : told.findSome? Happening.result? with
  | some r => rfl
  | none =>
    -- nothing was sent, so the resolver was dropped if it is gone, and no setup has panicked
    have hnone := List.findSome?_eq_none_iff.mp hfirst
    have hany : ∀ f g : Happening α → Bool, (∀ e, e.result? = none → f e = g e) →
        told.any f = told.any g := by
      intro f g hfg
      rw [Bool.eq_iff_iff, List.any_eq_true, List.any_eq_true]
      exact exists_congr fun e => and_congr_right fun he => by rw [hfg e (hnone e he)]
    have huse := hany Happening.isUse Happening.isDropped fun e he => by
      cases e <;> first | rfl | cases he
    have hend := hany Happening.isEnd Happening.isReturned fun e he => by
      cases e <;> first | rfl | cases he
    rw [huse, hend, Bool.not_not, Bool.not_not]

end Account

namespace Machine

theorem Finds.promises_eq {m m' : Machine α} {role : Role} {code : List (Instr α)} {exited : Bool}
    (h : m.Finds role m' code exited) : m'.promises = m.promises := by
  cases h <;> rfl

theorem Finds.all_not_isSetup {m m' : Machine α} {role : Role} {code : List (Instr α)}
    {exited : Bool} (h : m.Finds role m' code exited) : code.all (!·.isSetup) = true :=
  List.all_eq_true.mpr <|
    h.forall_code (fun _ => rfl) (fun _ => rfl) (fun _ => rfl) (fun _ _ => rfl) fun _ _ => rfl

end Machine

/-- Code that has nothing to do with setups. -/
theorem Instr.setup?_of_all {code : List (Instr α)} (h : code.all (!·.isSetup) = true) :
    code.filterMap setup? = [] ∧ code.filterMap setupEnd? = [] := by
  have hnone : ∀ j ∈ code, j.setup? = none ∧ j.setupEnd? = none := fun j hj => by
    simpa [isSetup] using List.all_eq_true.mp h j hj
  exact ⟨List.filterMap_eq_nil_iff.mpr fun j hj => (hnone j hj).1,
    List.filterMap_eq_nil_iff.mpr fun j hj => (hnone j hj).2⟩

end ManagedHost
