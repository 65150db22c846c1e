import ManagedHost.Schedule.Pile
import Mathlib.Data.List.Basic
import Mathlib.Tactic.SplitIfs

/-!
# Piles serve the first entry

In an ordered pile no entry stands below one that it comes before (`Ordered`), and every operation
keeps it so.  What an operation does to the entries is said up to their order:

* `toList_push`: a push adds its entry;
* `pop_spec`: a pop answers `none` on the empty pile only, and otherwise takes away an entry that
  no other comes before.

The places of the tree are of no account here.  `insert` and `takeLast` do the right thing along
every way, so the size that `push` and `pop` are given serves only to keep the tree balanced.
-/

namespace ManagedHost

namespace Pile

open scoped List

variable {α : Type}

/-! ### The entries -/

theorem flatten_beside (left right : List (List α)) :
    (beside left right).flatten.Perm (left.flatten ++ right.flatten) := by
  fun_induction beside left right with
  | case1 right => exact List.Perm.refl _
  | case2 left _ =>
    rw [List.flatten_nil, List.append_nil]
  | case3 l left r right ih =>
    simp only [List.flatten_cons, List.append_assoc]
    refine List.Perm.append_left l ?_
    refine (List.Perm.append_left r ih).trans ?_
    -- the level on the right passes the levels below the one on the left
    rw [← List.append_assoc, ← List.append_assoc]
    exact List.Perm.append_right _ List.perm_append_comm

@[simp] theorem toList_empty : (empty : Pile α).toList = [] := rfl

/-- The entries of a tree are its top and those of its branches. -/
theorem toList_node (top : α) (left right : Pile α) :
    (node top left right).toList.Perm (top :: (left.toList ++ right.toList)) :=
  List.Perm.cons top (flatten_beside left.levels right.levels)

/-- One entry more on the left is one entry more in all. -/
theorem toList_node_left {top e : α} {left left' right : Pile α}
    (hleft : left'.toList.Perm (e :: left.toList)) :
    (node top left' right).toList.Perm (e :: (node top left right).toList) := by
  calc (node top left' right).toList
    _ ~ top :: (left'.toList ++ right.toList) := toList_node top left' right
    _ ~ top :: (e :: left.toList ++ right.toList) := (hleft.append_right _).cons top
    _ ~ e :: top :: (left.toList ++ right.toList) := List.Perm.swap e top _
    _ ~ e :: (node top left right).toList := (toList_node top left right).symm.cons e

/-- One entry more on the right is one entry more in all. -/
theorem toList_node_right {top e : α} {left right right' : Pile α}
    (hright : right'.toList.Perm (e :: right.toList)) :
    (node top left right').toList.Perm (e :: (node top left right).toList) := by
  calc (node top left right').toList
    _ ~ top :: (left.toList ++ right'.toList) := toList_node top left right'
    _ ~ top :: (left.toList ++ e :: right.toList) := (hright.append_left _).cons top
    _ ~ top :: e :: (left.toList ++ right.toList) := List.perm_middle.cons top
    _ ~ e :: top :: (left.toList ++ right.toList) := List.Perm.swap e top _
    _ ~ e :: (node top left right).toList := (toList_node top left right).symm.cons e

/-! ### Order -/

/-- What `before` has to be for the operations to make sense: a strict weak order. -/
structure Ranking (before : α → α → Bool) : Prop where
  asymm : ∀ {a b}, before a b = true → before b a = false
  negTrans : ∀ {a b c}, before a b = false → before b c = false → before a c = false

/-- No entry of the pile stands below one that it comes before. -/
def Ordered (before : α → α → Bool) : Pile α → Prop
  | empty => True
  | node top left right =>
    (∀ e ∈ left.toList ++ right.toList, before e top = false) ∧
      left.Ordered before ∧ right.Ordered before

/-- The top of an ordered pile is served no later than any entry. -/
theorem Ordered.top_first {before : α → α → Bool} (rank : Ranking before) {p : Pile α}
    (ord : p.Ordered before) {top : α} (htop : p.top? = some top) :
    ∀ e ∈ p.toList, before e top = false := by
  cases p with
  | empty => exact absurd htop nofun
  | node t left right =>
    obtain rfl : t = top := Option.some.inj htop
    intro e he
    rcases List.mem_cons.mp ((toList_node t left right).mem_iff.mp he) with rfl | he
    · cases hself : before e e with
      | false => rfl
      | true => exact hself.symm.trans (rank.asymm hself)
    · exact ord.1 e he

/-! ### Adding an entry -/

/-- **Inversion of `insert`**: of the new entry and the top, the one that comes first stays, and the
other goes on into a branch. -/
theorem insert_cases (before : α → α → Bool) (e top : α) (left right : Pile α) (way : List Bool) :
    ∃ upper lower, (upper = e ∧ lower = top ∧ before e top = true ∨
        upper = top ∧ lower = e ∧ before e top = false) ∧
      ((node top left right).insert before e way =
          node upper left (right.insert before lower way.tail) ∨
        (node top left right).insert before e way =
          node upper (left.insert before lower way.tail) right) := by
  rw [insert]
  refine ⟨if before e top then e else top, if before e top then top else e, ?_, ?_⟩
  · cases before e top with
    | true => exact Or.inl ⟨rfl, rfl, rfl⟩
    | false => exact Or.inr ⟨rfl, rfl, rfl⟩
  · cases way.headD false with
    | true => exact Or.inl rfl
    | false => exact Or.inr rfl

theorem toList_insert (before : α → α → Bool) (e : α) (way : List Bool) (p : Pile α) :
    (p.insert before e way).toList.Perm (e :: p.toList) := by
  induction p generalizing e way with
  | empty => exact toList_node e empty empty
  | node top left right ihl ihr =>
    obtain ⟨upper, lower, hcase, hinsert⟩ := insert_cases before e top left right way
    have hperm : ((node top left right).insert before e way).toList.Perm
        (lower :: upper :: (left.toList ++ right.toList)) := by
      refine List.Perm.trans ?_ ((toList_node upper left right).cons lower)
      rcases hinsert with hinsert | hinsert
      · rw [hinsert]
        exact toList_node_right (ihr lower way.tail)
      · rw [hinsert]
        exact toList_node_left (ihl lower way.tail)
    refine (hperm.trans ?_).trans ((toList_node top left right).symm.cons e)
    rcases hcase with ⟨rfl, rfl, -⟩ | ⟨rfl, rfl, -⟩
    · exact List.Perm.swap _ _ _
    · exact List.Perm.refl _

/-- **A new entry passes those that it comes before**, and what moves down stays in order. -/
theorem Ordered.insert {before : α → α → Bool} (rank : Ranking before) {p : Pile α}
    (ord : p.Ordered before) (e : α) (way : List Bool) :
    (p.insert before e way).Ordered before := by
  induction p generalizing e way with
  | empty => exact ⟨nofun, trivial, trivial⟩
  | node top left right ihl ihr =>
    obtain ⟨upper, lower, hcase, hinsert⟩ := insert_cases before e top left right way
    have htop : ∀ x ∈ (node top left right).toList, before x top = false :=
      ord.top_first rank rfl
    obtain ⟨-, hleft, hright⟩ := ord
    -- nothing in the tree, and not the entry that moves down, comes before the one that stays
    have hupper : ∀ x ∈ lower :: (left.toList ++ right.toList), before x upper = false := by
      have hbelow : ∀ x ∈ top :: (left.toList ++ right.toList), before x top = false :=
        fun x hx => htop x ((toList_node top left right).mem_iff.mpr hx)
      intro x hx
      rcases hcase with ⟨rfl, rfl, hbefore⟩ | ⟨rfl, rfl, hbefore⟩
      · exact rank.negTrans (hbelow x hx) (rank.asymm hbefore)
      · rcases List.mem_cons.mp hx with rfl | hx
        · exact hbefore
        · exact hbelow x (List.mem_cons_of_mem _ hx)
    rcases hinsert with hinsert | hinsert
    · rw [hinsert]
      refine ⟨fun x hx => hupper x ?_, hleft, ihr hright _ _⟩
      have hperm := (toList_insert before lower way.tail right).append_left left.toList
      exact List.perm_middle.mem_iff.mp (hperm.mem_iff.mp hx)
    · rw [hinsert]
      refine ⟨fun x hx => hupper x ?_, ihl hleft _ _, hright⟩
      have hperm := (toList_insert before lower way.tail left).append_right right.toList
      exact hperm.mem_iff.mp hx

/-- A push adds its entry. -/
theorem toList_push (before : α → α → Bool) (e : α) (size : Nat) (p : Pile α) :
    (p.push before e size).toList.Perm (e :: p.toList) := toList_insert before e _ p

/-! ### Removing the top -/

/-- What is left of a pile when an entry is taken away from below: the order stays, and so does the
top as long as anything does. -/
def Removes (p : Pile α) : Option (α × Pile α) → Prop
  | none => p = empty
  | some (e, q) => p.toList.Perm (e :: q.toList) ∧ (q = empty ∨ q.top? = p.top?) ∧
      ∀ before, p.Ordered before → q.Ordered before

theorem Removes.left {top e : α} {left left' : Pile α} (h : Removes left (some (e, left')))
    (right : Pile α) : Removes (node top left right) (some (e, node top left' right)) := by
  obtain ⟨hperm, -, hord⟩ := h
  refine ⟨toList_node_left hperm, Or.inr rfl, fun before ord => ⟨fun x hx => ord.1 x ?_, ?_, ?_⟩⟩
  · exact (hperm.append_right _).mem_iff.mpr (List.mem_cons_of_mem e hx)
  · exact hord before ord.2.1
  · exact ord.2.2

theorem Removes.right {top e : α} {right right' : Pile α} (h : Removes right (some (e, right')))
    (left : Pile α) : Removes (node top left right) (some (e, node top left right')) := by
  obtain ⟨hperm, -, hord⟩ := h
  refine ⟨toList_node_right hperm, Or.inr rfl, fun before ord => ⟨fun x hx => ord.1 x ?_, ?_, ?_⟩⟩
  · refine (hperm.append_left _).mem_iff.mpr (List.perm_middle.mem_iff.mpr ?_)
    exact List.mem_cons_of_mem e hx
  · exact ord.2.1
  · exact hord before ord.2.2

/-- **Every way leads to an entry that can be taken away.** -/
theorem takeLast_removes (way : List Bool) (p : Pile α) : Removes p (p.takeLast way) := by
  induction p generalizing way with
  | empty => rfl
  | node top left right ihl ihr =>
    have hl := ihl way.tail
    have hr := ihr way.tail
    have hlast : Removes (node top empty empty) (some (top, empty)) :=
      ⟨List.Perm.refl _, Or.inl rfl, fun _ _ => trivial⟩
    rw [takeLast]
    split_ifs
    · cases hright : takeLast way.tail right with
      | some taken => rw [hright] at hr; exact hr.right left
      | none =>
        rw [hright] at hr
        cases hleft : takeLast way.tail left with
        | some taken => rw [hleft] at hl; exact hl.left right
        | none =>
          rw [hleft] at hl
          obtain rfl : left = empty := hl
          obtain rfl : right = empty := hr
          exact hlast
    · cases hleft : takeLast way.tail left with
      | some taken => rw [hleft] at hl; exact hl.left right
      | none =>
        rw [hleft] at hl
        cases hright : takeLast way.tail right with
        | some taken => rw [hright] at hr; exact hr.right left
        | none =>
          rw [hright] at hr
          obtain rfl : left = empty := hl
          obtain rfl : right = empty := hr
          exact hlast

/-- Which entry takes the place of the top when `e` sinks into the pile: `e`, or the top of a
branch, whose own top is then replaced. -/
inductive Sinks (before : α → α → Bool) (e : α) (left right : Pile α) : Pile α → Prop where
  | stays (hleft : ∀ l, left.top? = some l → before l e = false)
      (hright : ∀ r, right.top? = some r → before r e = false) :
      Sinks before e left right (node e left right)
  | left {l : α} (hl : left.top? = some l) (hbefore : before l e = true)
      (hright : ∀ r, right.top? = some r → before r l = false) :
      Sinks before e left right (node l (left.replaceTop before e) right)
  | right {r : α} (hr : right.top? = some r) (hbefore : before r e = true)
      (hleft : ∀ l, left.top? = some l → before l r = false) :
      Sinks before e left right (node r left (right.replaceTop before e))

/-- **Inversion of `replaceTop`.** -/
theorem replaceTop_sinks {before : α → α → Bool} (rank : Ranking before) (e top : α)
    (left right : Pile α) :
    Sinks before e left right ((node top left right).replaceTop before e) := by
  rw [replaceTop]
  split
  · next l r hl hr =>
    split_ifs with hlr hle hre
    · refine .left hl hle fun r' hr' => ?_
      obtain rfl := Option.some.inj (hr.symm.trans hr')
      exact rank.asymm hlr
    · -- the right branch waits for the left one, and the left one for the entry
      have hle := Bool.eq_false_iff.mpr hle
      refine .stays (fun l' hl' => ?_) (fun r' hr' => ?_)
      · obtain rfl := Option.some.inj (hl.symm.trans hl')
        exact hle
      · obtain rfl := Option.some.inj (hr.symm.trans hr')
        exact rank.negTrans (rank.asymm hlr) hle
    · refine .right hr hre fun l' hl' => ?_
      obtain rfl := Option.some.inj (hl.symm.trans hl')
      exact Bool.eq_false_iff.mpr hlr
    · have hre := Bool.eq_false_iff.mpr hre
      refine .stays (fun l' hl' => ?_) (fun r' hr' => ?_)
      · obtain rfl := Option.some.inj (hl.symm.trans hl')
        exact rank.negTrans (Bool.eq_false_iff.mpr hlr) hre
      · obtain rfl := Option.some.inj (hr.symm.trans hr')
        exact hre
  · next l hl hr =>
    have hright : ∀ r, right.top? = some r → before r l = false := by
      intro r hr'
      exact absurd (hr.symm.trans hr') nofun
    split_ifs with hle
    · exact .left hl hle hright
    · refine .stays (fun l' hl' => ?_) (fun r' hr' => absurd (hr.symm.trans hr') nofun)
      obtain rfl := Option.some.inj (hl.symm.trans hl')
      exact Bool.eq_false_iff.mpr hle
  · next r hl hr =>
    have hleft : ∀ l, left.top? = some l → before l r = false := by
      intro l hl'
      exact absurd (hl.symm.trans hl') nofun
    split_ifs with hre
    · exact .right hr hre hleft
    · refine .stays (fun l' hl' => absurd (hl.symm.trans hl') nofun) (fun r' hr' => ?_)
      obtain rfl := Option.some.inj (hr.symm.trans hr')
      exact Bool.eq_false_iff.mpr hre
  · next hl hr =>
    exact .stays (fun l' hl' => absurd (hl.symm.trans hl') nofun)
      (fun r' hr' => absurd (hr.symm.trans hr') nofun)

/-- An entry that sinks takes the place of the top among the entries. -/
theorem toList_replaceTop {before : α → α → Bool} (rank : Ranking before) (e : α) {p : Pile α}
    {top : α} (htop : p.top? = some top) :
    (top :: (p.replaceTop before e).toList).Perm (e :: p.toList) := by
  induction p generalizing top with
  | empty => exact absurd htop nofun
  | node t left right ihl ihr =>
    obtain rfl : t = top := Option.some.inj htop
    generalize hq : (node t left right).replaceTop before e = q
    have hsinks := replaceTop_sinks rank e t left right
    rw [hq] at hsinks
    have hnode := toList_node t left right
    cases hsinks with
    | stays _ _ =>
      calc t :: (node e left right).toList
        _ ~ t :: e :: (left.toList ++ right.toList) := (toList_node e left right).cons t
        _ ~ e :: t :: (left.toList ++ right.toList) := List.Perm.swap e t _
        _ ~ e :: (node t left right).toList := hnode.symm.cons e
    | @left l hl _ _ =>
      calc t :: (node l (left.replaceTop before e) right).toList
        _ ~ t :: (l :: (left.replaceTop before e).toList ++ right.toList) :=
          (toList_node l _ right).cons t
        _ ~ t :: (e :: left.toList ++ right.toList) := ((ihl hl).append_right _).cons t
        _ ~ e :: t :: (left.toList ++ right.toList) := List.Perm.swap e t _
        _ ~ e :: (node t left right).toList := hnode.symm.cons e
    | @right r hr _ _ =>
      calc t :: (node r left (right.replaceTop before e)).toList
        _ ~ t :: r :: (left.toList ++ (right.replaceTop before e).toList) :=
          (toList_node r left _).cons t
        _ ~ t :: (left.toList ++ r :: (right.replaceTop before e).toList) :=
          List.perm_middle.symm.cons t
        _ ~ t :: (left.toList ++ e :: right.toList) := ((ihr hr).append_left _).cons t
        _ ~ t :: e :: (left.toList ++ right.toList) := List.perm_middle.cons t
        _ ~ e :: t :: (left.toList ++ right.toList) := List.Perm.swap e t _
        _ ~ e :: (node t left right).toList := hnode.symm.cons e

/-- What is in a branch whose top was replaced was there before, or is the entry that sank. -/
theorem mem_replaceTop {before : α → α → Bool} (rank : Ranking before) {e x : α} {p : Pile α}
    {top : α} (htop : p.top? = some top) (hx : x ∈ (p.replaceTop before e).toList) :
    x = e ∨ x ∈ p.toList :=
  List.mem_cons.mp ((toList_replaceTop rank e htop).mem_iff.mp (List.mem_cons_of_mem _ hx))

/-- **An entry that sinks stops in order.** -/
theorem Ordered.replaceTop {before : α → α → Bool} (rank : Ranking before) {p : Pile α}
    (ord : p.Ordered before) (e : α) : (p.replaceTop before e).Ordered before := by
  induction p with
  | empty => exact trivial
  | node t left right ihl ihr =>
    obtain ⟨-, hleft, hright⟩ := ord
    generalize hq : (node t left right).replaceTop before e = q
    have hsinks := replaceTop_sinks rank e t left right
    rw [hq] at hsinks
    -- an entry that does not come after the top of a branch does not come after the branch
    have hbranch : ∀ {b : Pile α} {y : α}, b.Ordered before →
        (∀ t, b.top? = some t → before t y = false) → ∀ x ∈ b.toList, before x y = false := by
      intro b y hb hy x hx
      cases htop : b.top? with
      | none =>
        cases b with
        | empty => exact absurd hx List.not_mem_nil
        | node _ _ _ => exact absurd htop nofun
      | some t => exact rank.negTrans (hb.top_first rank htop x hx) (hy t htop)
    cases hsinks with
    | stays hle hre =>
      refine ⟨fun x hx => ?_, hleft, hright⟩
      rcases List.mem_append.mp hx with hx | hx
      · exact hbranch hleft hle x hx
      · exact hbranch hright hre x hx
    | @left l hl hbefore hrl =>
      refine ⟨fun x hx => ?_, ihl hleft, hright⟩
      rcases List.mem_append.mp hx with hx | hx
      · rcases mem_replaceTop rank hl hx with rfl | hx
        · exact rank.asymm hbefore
        · exact hleft.top_first rank hl x hx
      · exact hbranch hright hrl x hx
    | @right r hr hbefore hlr =>
      refine ⟨fun x hx => ?_, hleft, ihr hright⟩
      rcases List.mem_append.mp hx with hx | hx
      · exact hbranch hleft hlr x hx
      · rcases mem_replaceTop rank hr hx with rfl | hx
        · exact rank.asymm hbefore
        · exact hright.top_first rank hr x hx

/-- **A pop takes away the top**, which no entry comes before, and nothing else; what is left is in
order. -/
theorem pop_spec {before : α → α → Bool} (rank : Ranking before) {p : Pile α}
    (ord : p.Ordered before) (size : Nat) :
    (p = empty ∧ p.pop before size = none) ∨
      ∃ top q, p.top? = some top ∧ p.pop before size = some (top, q) ∧
        p.toList.Perm (top :: q.toList) ∧ q.Ordered before ∧
        ∀ e ∈ p.toList, before e top = false := by
  have htake := takeLast_removes (wayTo size) p
  cases htop : p.top? with
  | none =>
    cases p with
    | empty => exact Or.inl ⟨rfl, rfl⟩
    | node _ _ _ => exact absurd htop nofun
  | some top =>
    cases htaken : p.takeLast (wayTo size) with
    | none =>
      rw [htaken] at htake
      obtain rfl : p = empty := htake
      exact absurd htop nofun
    | some taken =>
      obtain ⟨last, rest⟩ := taken
      rw [htaken] at htake
      obtain ⟨hperm, hrest, hord⟩ := htake
      have hpop : p.pop before size = some (top, rest.replaceTop before last) := by
        unfold pop
        rw [htop, htaken]
      refine Or.inr ⟨top, _, rfl, hpop, ?_, (hord before ord).replaceTop rank last,
        ord.top_first rank htop⟩
      rcases hrest with rfl | hsame
      · -- the last entry of the pile was its top
        have hmem : top ∈ p.toList := by
          cases p with
          | empty => exact absurd htop nofun
          | node t left right =>
            obtain rfl : t = top := Option.some.inj htop
            exact (toList_node t left right).mem_iff.mpr List.mem_cons_self
        obtain rfl : top = last := List.mem_singleton.mp (hperm.mem_iff.mp hmem)
        exact hperm
      · exact hperm.trans (toList_replaceTop rank last (hsame.trans htop)).symm

end Pile

end ManagedHost
