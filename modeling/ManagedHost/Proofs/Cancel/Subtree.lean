import ManagedHost.Proofs.Cancel.Shape
import Mathlib.Data.List.Induction
import Mathlib.Data.List.Perm.Subperm

/-!
# Cancelling a subtree

`TaskTree.cancel` works off a stack of names.  `TaskTree.Turns` is that loop without any bound on
the number of its turns, `TaskTree.Preorder` the order in which a subtree is read from a page.  In a
tree the loop ends, and meets the subtree in pre-order (`TaskTree.Rooted.subtree_preorder`,
`TaskTree.Preorder.turns`).

The main results are `TaskTree.built_cancel_subtree`, what cancelling does to a tree, and
`TaskTree.built_cancelled_iff`, which nodes are cancelled in the end.
-/

namespace ManagedHost

namespace TaskTree

variable {t : TaskTree} {id x : String} {stack rest trail : List String}

/-! ### Orders of visit -/

/-- The subtrees below the given nodes, one after the other, each with its root first. -/
inductive Preorder (t : TaskTree) : List String → List String → Prop where
  | nil : Preorder t [] []
  | cons {id : String} {rest below after : List String} (hid : id ∈ t.ids)
      (hbelow : Preorder t (t.children id) below) (hafter : Preorder t rest after) :
      Preorder t (id :: rest) (id :: (below ++ after))

/-- The turns of the loop from a tree and a stack to a tree and an empty stack, with the nodes that
it has met: each is cancelled when it is taken from the stack, and its children take its place. -/
inductive Turns : TaskTree → List String → TaskTree → List String → Prop where
  | done {t : TaskTree} : Turns t [] t []
  | visit {t t' : TaskTree} {id : String} {node : TreeNode} {stack trail : List String}
      (hfind : t.find? id = some node)
      (next : Turns (t.cancelOne id) (node.children ++ stack) t' trail) :
      Turns t (id :: stack) t' (id :: trail)
  | skip {t t' : TaskTree} {id : String} {stack trail : List String} (hfind : t.find? id = none)
      (next : Turns t stack t' trail) : Turns t (id :: stack) t' trail

theorem exists_find? (hid : id ∈ t.ids) : ∃ node, t.find? id = some node :=
  Option.ne_none_iff_exists'.mp fun hnone => find?_eq_none.mp hnone hid

namespace Preorder

theorem mem_iff (h : Preorder t stack trail) : x ∈ trail ↔ ∃ a ∈ stack, t.Above a x := by
  induction h with
  | nil => simp
  | @cons id rest below after hid hbelow hafter ihbelow ihafter =>
    have hhead : t.Above id x ↔ id = x ∨ ∃ c ∈ t.children id, t.Above c x :=
      Relation.ReflTransGen.cases_head_iff
    simp only [List.mem_cons, List.mem_append, ihbelow, ihafter, exists_eq_or_imp, hhead,
      or_assoc, eq_comm (a := x)]

/-- The nodes are met once, if none of those on the stack is above another. -/
theorem nodup (h : Preorder t stack trail) (ht : t.Rooted)
    (hapart : stack.Pairwise fun a b => ¬ t.Above a b ∧ ¬ t.Above b a) : trail.Nodup := by
  induction h with
  | nil => exact List.nodup_nil
  | @cons id rest below after hid hbelow hafter ihbelow ihafter =>
    obtain ⟨hid_rest, hrest⟩ := List.pairwise_cons.mp hapart
    have hchildren : (t.children id).Pairwise fun a b => ¬ t.Above a b ∧ ¬ t.Above b a := by
      refine (ht.children_nodup id).imp_of_mem fun ha hb hne => ?_
      exact ⟨ht.not_above_sibling ha hb hne, ht.not_above_sibling hb ha hne.symm⟩
    have hnot_below : id ∉ below := by
      intro hmem
      obtain ⟨c, hc, habove⟩ := hbelow.mem_iff.mp hmem
      exact ht.not_above_of_child hc habove
    have hnot_after : id ∉ after := by
      intro hmem
      obtain ⟨a, ha, habove⟩ := hafter.mem_iff.mp hmem
      exact (hid_rest a ha).2 habove
    have hdisjoint : below.Disjoint after := by
      intro y hy hy'
      obtain ⟨c, hc, hcy⟩ := hbelow.mem_iff.mp hy
      obtain ⟨a, ha, hay⟩ := hafter.mem_iff.mp hy'
      -- both `id` and `a` are above `y`
      rcases ht.above_total (Relation.ReflTransGen.head hc hcy) hay with habove | habove
      · exact (hid_rest a ha).1 habove
      · exact (hid_rest a ha).2 habove
    refine List.nodup_cons.mpr ⟨?_, (ihbelow hchildren).append (ihafter hrest) hdisjoint⟩
    exact fun hmem => (List.mem_append.mp hmem).elim hnot_below hnot_after

/-- With fuel for each of its nodes, a forest is worked off before the rest of the stack. -/
theorem traverse_eq (h : Preorder t stack trail) (fuel : Nat) (rest : List String) :
    t.traverse (trail.length + fuel) (stack ++ rest) = trail ++ t.traverse fuel rest := by
  induction h generalizing fuel rest with
  | nil => rw [List.length_nil, Nat.zero_add, List.nil_append, List.nil_append]
  | @cons id more below after hid hbelow hafter ihbelow ihafter =>
    obtain ⟨node, hnode⟩ := exists_find? hid
    have hlength : (id :: (below ++ after)).length + fuel =
        (below.length + (after.length + fuel)) + 1 := by
      rw [List.length_cons, List.length_append]
      omega
    rw [hlength, List.cons_append, traverse, hnode]
    dsimp only
    rw [← children_of_find? hnode, ihbelow, ihafter, List.cons_append, List.append_assoc]

/-- The loop works off a forest before the rest of the stack, and cancels its nodes one by one. -/
theorem turns (h : Preorder t stack trail) {t₁ t' : TaskTree} {rest after : List String}
    (hblank : t₁.blank = t.blank) (hnext : Turns (trail.foldl cancelOne t₁) rest t' after) :
    Turns t₁ (stack ++ rest) t' (trail ++ after) := by
  induction h generalizing t₁ rest after with
  | nil => exact hnext
  | @cons id more below beside hid hbelow hbeside ihbelow ihbeside =>
    have hmem : id ∈ t₁.ids := by rwa [← ids_blank, hblank, ids_blank]
    obtain ⟨node, hnode⟩ := exists_find? hmem
    have hchildren : node.children = t.children id := by
      rw [← children_of_find? hnode, ← children_blank, hblank, children_blank]
    rw [List.cons_append, List.cons_append, List.append_assoc]
    refine .visit hnode ?_
    -- what has been cancelled so far makes no difference to what comes next
    have hone : (t₁.cancelOne id).blank = t.blank := blank_cancelOne.trans hblank
    rw [hchildren]
    refine ihbelow hone (ihbeside ((blank_foldl_cancelOne below).trans hone) ?_)
    rw [← List.foldl_append]
    exact hnext

end Preorder

namespace Rooted

/-- A forest can be read, because children come after their parents. -/
theorem exists_preorder (ht : t.Rooted) (n : Nat) (stack : List String)
    (h : ∀ a ∈ stack, a ∈ t.ids ∧ t.ids.length ≤ t.ids.idxOf a + n) :
    ∃ trail, Preorder t stack trail := by
  induction n generalizing stack with
  | zero =>
    cases stack with
    | nil => exact ⟨[], .nil⟩
    | cons a rest =>
      obtain ⟨ha, hle⟩ := h a List.mem_cons_self
      exact absurd (List.idxOf_lt_length_of_mem ha) (by omega)
  | succ n ih =>
    induction stack with
    | nil => exact ⟨[], .nil⟩
    | cons a rest ihrest =>
      obtain ⟨ha, hle⟩ := h a List.mem_cons_self
      obtain ⟨below, hbelow⟩ := ih (t.children a) fun c hc => by
        have hlt := ht.ordered hc
        exact ⟨ht.child_mem hc, by omega⟩
      obtain ⟨after, hafter⟩ := ihrest fun b hb => h b (List.mem_cons_of_mem _ hb)
      exact ⟨_, .cons ha hbelow hafter⟩

/-- The bound on the turns of the loop is never met. -/
theorem subtree_preorder (ht : t.Rooted) (hid : id ∈ t.ids) :
    Preorder t [id] (t.subtree id) ∧ (t.subtree id).Nodup := by
  obtain ⟨trail, htrail⟩ := ht.exists_preorder t.ids.length [id]
    (List.forall_mem_singleton.mpr ⟨hid, Nat.le_add_left _ _⟩)
  have hnodup : trail.Nodup := htrail.nodup ht (List.pairwise_singleton _ _)
  have hsubset : trail ⊆ t.ids := by
    intro x hx
    obtain ⟨a, ha, habove⟩ := htrail.mem_iff.mp hx
    obtain rfl := List.mem_singleton.mp ha
    exact ht.above_mem hid habove
  have hlength : trail.length ≤ t.nodes.length := by
    have hle := (List.subperm_of_subset hnodup hsubset).length_le
    rwa [ids, List.length_map] at hle
  have hsubtree : t.subtree id = trail := by
    have htraverse := htrail.traverse_eq (t.nodes.length - trail.length) []
    rw [Nat.add_sub_cancel' hlength, List.append_nil] at htraverse
    rw [subtree, htraverse]
    cases t.nodes.length - trail.length <;> simp [traverse]
  rw [hsubtree]
  exact ⟨htrail, hnodup⟩

theorem mem_subtree (ht : t.Rooted) (hid : id ∈ t.ids) : x ∈ t.subtree id ↔ t.Above id x := by
  simpa using (ht.subtree_preorder hid).1.mem_iff (x := x)

end Rooted

/-! ### What is cancelled -/

/-- The tree with the nodes of the given names cancelled. -/
def mark (t : TaskTree) (names : List String) : TaskTree :=
  { nodes := t.nodes.map fun node =>
      if node.id ∈ names then { node with cancelled := true } else node }

theorem foldl_cancelOne (names : List String) : names.foldl cancelOne t = t.mark names := by
  induction names generalizing t with
  | nil => simp [mark]
  | cons name rest ih =>
    rw [List.foldl_cons, ih]
    simp only [mark, cancelOne, modify, List.map_map, mk.injEq]
    refine List.map_congr_left fun node _ => ?_
    rw [Function.comp_apply]
    by_cases hname : node.id = name <;> simp [hname]

theorem cancel_of_mem (hid : id ∈ t.ids) : t.cancel id = (true, t.mark (t.subtree id)) := by
  rw [cancel, if_pos (mem_ids.mp hid), foldl_cancelOne]

theorem cancel_of_not_mem (hid : id ∉ t.ids) : t.cancel id = (false, t) := by
  rw [cancel, if_neg (mt mem_ids.mpr hid)]

/-- **Cancelling cancels a subtree.**  Let a tree be built by any additions, cancellations of
subtrees and cancellations of single nodes.  Its nodes form a tree: names are not used twice, all
but the root are on the lists of children exactly once, the lists name nothing else, every node is
below the root, and no node is below itself.

Cancelling an unknown name changes nothing.  Otherwise the loop ends; it meets the node and what is
below it once, in pre-order, cancels these, and changes nothing else. -/
theorem built_cancel_subtree (ops : List Op) :
    let t := built ops
    t.ids.Nodup ∧
    rootId ∈ t.ids ∧
    (∀ x ∈ t.ids, x ≠ rootId → (t.nodes.flatMap TreeNode.children).count x = 1) ∧
    (∀ x ∈ t.nodes.flatMap TreeNode.children, x ∈ t.ids ∧ x ≠ rootId) ∧
    (∀ x ∈ t.ids, t.Above rootId x) ∧
    (∀ x, ¬ Relation.TransGen t.Child x x) ∧
    ∀ id, if id ∈ t.ids then
        t.cancel id = (true, t.mark (t.subtree id)) ∧
        Turns t [id] (t.cancel id).2 (t.subtree id) ∧
        Preorder t [id] (t.subtree id) ∧
        (t.subtree id).Nodup ∧
        ∀ x, x ∈ t.subtree id ↔ t.Above id x
      else t.cancel id = (false, t) := by
  intro t
  have ht : t.Rooted := rooted_built ops
  refine ⟨ht.nodup, ht.root_mem, ?_, ?_, fun x => ht.root_above, ht.acyclic, fun id => ?_⟩
  · intro x hx hne
    obtain ⟨p, hp⟩ := ht.exists_parent hx hne
    rw [ht.linked.count_eq]
    exact List.count_eq_one_of_mem ht.nodup.tail (ht.child_mem_tail hp)
  · intro x hx
    obtain ⟨p, hp⟩ := exists_child_of_mem ht.nodup hx
    refine ⟨ht.child_mem hp, ?_⟩
    rintro rfl
    exact ht.root_not_mem_tail (ht.child_mem_tail hp)
  · split_ifs with hid
    · obtain ⟨hpreorder, hnodup⟩ := ht.subtree_preorder hid
      have hcancel := cancel_of_mem hid
      have hturns : Turns t [id] ((t.subtree id).foldl cancelOne t) (t.subtree id) := by
        simpa using hpreorder.turns rfl .done
      rw [foldl_cancelOne] at hturns
      refine ⟨hcancel, ?_, hpreorder, hnodup, fun x => ht.mem_subtree hid⟩
      rw [hcancel]
      exact hturns
    · exact cancel_of_not_mem hid

/-- Below an unknown parent a task goes to the root, and a name that is taken stays where it is. -/
example :
    let t := built [.add "a" "nowhere", .add "b" "a", .add "c" "a", .add "d" "b", .add "a" "d",
      .add "root" "c"]
    t.subtree "a" = ["a", "b", "d", "c"] ∧ t.children "root" = ["a"] := by
  decide +kernel

/-! ### Who has cancelled it -/

/-- Whether at some point of the run `a` was cancelled while it was in the tree. -/
def WasCancelled (ops : List Op) (a : String) : Prop :=
  ∃ before after, ops = before ++ Op.cancel a :: after ∧ a ∈ (built before).ids

/-- Whether the operation is an addition. -/
def Op.isAdd : Op → Bool
  | .add _ _ => true
  | _ => false

theorem built_concat (ops : List Op) (op : Op) : built (ops ++ [op]) = (built ops).apply op := by
  simp [built]

theorem wasCancelled_concat {ops : List Op} {op : Op} {a : String} :
    WasCancelled (ops ++ [op]) a ↔ WasCancelled ops a ∨ op = .cancel a ∧ a ∈ (built ops).ids := by
  constructor
  · rintro ⟨before, after, heq, hmem⟩
    rcases List.eq_nil_or_concat after with rfl | ⟨after, last, rfl⟩
    · obtain ⟨rfl, hop⟩ := List.append_inj' heq rfl
      exact Or.inr ⟨by simpa using hop, hmem⟩
    · have heq' : ops ++ [op] = (before ++ .cancel a :: after) ++ [last] := by
        simpa using heq
      obtain ⟨rfl, -⟩ := List.append_inj' heq' rfl
      exact Or.inl ⟨before, after, rfl, hmem⟩
  · rintro (⟨before, after, rfl, hmem⟩ | ⟨rfl, hmem⟩)
    · exact ⟨before, after ++ [op], by simp, hmem⟩
    · exact ⟨ops, [], rfl, hmem⟩

/-- The shape of a tree is decided by the additions. -/
theorem built_blank (ops : List Op) : (built ops).blank = built (ops.filter Op.isAdd) := by
  induction ops using List.reverseRecOn with
  | nil => rfl
  | append_singleton ops op ih =>
    rw [built_concat, List.filter_append]
    cases op with
    | add id parent =>
      rw [show [Op.add id parent].filter Op.isAdd = [.add id parent] from rfl, built_concat, ← ih]
      exact blank_add parent
    | cancel id =>
      rw [show [Op.cancel id].filter Op.isAdd = [] from rfl, List.append_nil, ← ih]
      exact blank_cancel
    | cancelToken id =>
      rw [show [Op.cancelToken id].filter Op.isAdd = [] from rfl, List.append_nil, ← ih]
      exact blank_cancelOne

theorem mem_ids_apply (op : Op) (hx : x ∈ t.ids) : x ∈ (t.apply op).ids := by
  have hblank : ∀ t' : TaskTree, t'.blank = t.blank → x ∈ t'.ids := by
    intro t' h
    rwa [← ids_blank, h, ids_blank]
  cases op with
  | add id parent =>
    by_cases hid : id ∈ t.ids
    · rw [TaskTree.apply, add_of_mem parent hid]
      exact hx
    · rw [TaskTree.apply, ids_add parent hid]
      exact List.mem_append_left _ hx
  | cancel id => exact hblank _ blank_cancel
  | cancelToken id => exact hblank _ blank_cancelOne

theorem WasCancelled.mem_ids {ops : List Op} {a : String} (h : WasCancelled ops a) :
    a ∈ (built ops).ids := by
  induction ops using List.reverseRecOn with
  | nil =>
    obtain ⟨before, after, heq, -⟩ := h
    cases before <;> cases heq
  | append_singleton ops op ih =>
    rw [built_concat]
    refine mem_ids_apply op ?_
    rcases wasCancelled_concat.mp h with h | ⟨-, hmem⟩
    · exact ih h
    · exact hmem

theorem above_congr {t' : TaskTree} (h : t'.blank = t.blank) : t'.Above = t.Above := by
  rw [Above, Above, ← child_blank, h, child_blank]

/-- A new node is below its parent and what is above that; nothing else changes. -/
theorem Rooted.above_add (ht : t.Rooted) (parent : String) (hid : id ∉ t.ids) {a : String} :
    (t.add id parent).2.Above a x ↔ t.Above a x ∨ x = id ∧ t.Above a (t.place parent) := by
  have hplace := ht.place_mem parent
  have hchild : ∀ p c, (t.add id parent).2.Child p c ↔
      t.Child p c ∨ p = t.place parent ∧ c = id := by
    intro p c
    rw [Child, children_add parent hid hplace, Child]
    split_ifs with hp
    · rw [List.mem_append, List.mem_singleton, and_iff_right hp]
    · exact ⟨Or.inl, fun h => h.resolve_right fun h => hp h.1⟩
  constructor
  · intro habove
    induction habove with
    | refl => exact Or.inl .refl
    | @tail b c _ hbc ih =>
      -- the new node has no children
      have hb : t.Above a b := by
        refine ih.resolve_right ?_
        rintro ⟨hb, -⟩
        rcases (hchild b c).mp hbc with hold | ⟨hbp, -⟩
        · exact hid (hb ▸ mem_ids_of_child hold)
        · exact hid (hb ▸ hbp ▸ hplace)
      rcases (hchild b c).mp hbc with hold | ⟨rfl, rfl⟩
      · exact Or.inl (hb.tail hold)
      · exact Or.inr ⟨rfl, hb⟩
  · have hmono : ∀ b, t.Above a b → (t.add id parent).2.Above a b := fun b =>
      Relation.ReflTransGen.mono (fun p c h => (hchild p c).mpr (Or.inl h)) a b
    rintro (h | ⟨rfl, h⟩)
    · exact hmono x h
    · exact (hmono _ h).tail ((hchild _ _).mpr (Or.inr ⟨rfl, rfl⟩))

theorem cancelled?_add (parent : String) (hid : id ∉ t.ids) :
    (t.add id parent).2.cancelled? x =
      if x = id then some ((t.cancelled? (t.place parent)).getD false) else t.cancelled? x := by
  rw [cancelled?, find?_add parent hid]
  split_ifs with hx hplace
  · rfl
  · rw [Option.map_map, cancelled?]
    rfl
  · rw [Option.map_map, cancelled?]
    rfl

theorem cancelled?_mark (names : List String) :
    (t.mark names).cancelled? x = (t.cancelled? x).map (· || decide (x ∈ names)) := by
  have hid : ((·.id == x) ∘ fun node => if node.id ∈ names then { node with cancelled := true }
      else node) = ((·.id == x) : TreeNode → Bool) := by
    funext node
    rw [Function.comp_apply]
    split_ifs <;> rfl
  rw [cancelled?, find?, mark, List.find?_map, hid, cancelled?, find?]
  cases hfind : t.nodes.find? (·.id == x) with
  | none => rfl
  | some node =>
    have hnode : node.id = x := id_of_find? hfind
    by_cases hmem : x ∈ names <;> simp [hnode, hmem]

/-- Who is cancelled has been cancelled itself or below an ancestor. -/
theorem cancelled?_built {ops : List Op} (hops : ∀ id, Op.cancelToken id ∉ ops) :
    (built ops).cancelled? x = some true ↔ ∃ a, (built ops).Above a x ∧ WasCancelled ops a := by
  induction ops using List.reverseRecOn generalizing x with
  | nil =>
    have hnone : ∀ a, ¬ WasCancelled [] a := by
      rintro a ⟨before, after, heq, -⟩
      cases before <;> cases heq
    simp only [hnone, and_false, exists_false, iff_false]
    rw [show built [] = {} from rfl, cancelled?]
    by_cases hx : rootId = x <;> simp [find?, hx]
  | append_singleton ops op ih =>
    have hops' : ∀ id, Op.cancelToken id ∉ ops := fun id hmem =>
      hops id (List.mem_append_left _ hmem)
    have ht := rooted_built ops
    have ih := fun x => ih (x := x) hops'
    simp only [wasCancelled_concat]
    rw [built_concat]
    generalize hbuilt : built ops = t at ih ht ⊢
    cases op with
    | add id parent =>
      simp only [reduceCtorEq, false_and, or_false]
      show (t.add id parent).2.cancelled? x = some true ↔
        ∃ a, (t.add id parent).2.Above a x ∧ WasCancelled ops a
      have hmem : ∀ a, WasCancelled ops a → a ∈ t.ids := fun a ha => hbuilt ▸ ha.mem_ids
      by_cases hid : id ∈ t.ids
      · rw [add_of_mem parent hid]
        exact ih x
      rw [cancelled?_add parent hid]
      split_ifs with hx
      · -- the new node is cancelled if its parent is
        have hparent : some ((t.cancelled? (t.place parent)).getD false) = some true ↔
            t.cancelled? (t.place parent) = some true := by
          cases t.cancelled? (t.place parent) <;> simp
        rw [hparent, ih]
        refine exists_congr fun a => and_congr_left fun ha => ?_
        rw [ht.above_add parent hid, and_iff_right hx]
        refine ⟨Or.inr, fun h => h.resolve_left fun habove => hid ?_⟩
        exact hx ▸ ht.above_mem (hmem a ha) habove
      · rw [ih]
        refine exists_congr fun a => and_congr_left fun ha => ?_
        rw [ht.above_add parent hid]
        exact ⟨Or.inl, fun h => h.resolve_right fun h => hx h.1⟩
    | cancel id =>
      show (t.cancel id).2.cancelled? x = some true ↔ ∃ a, (t.cancel id).2.Above a x ∧
        (WasCancelled ops a ∨ Op.cancel id = Op.cancel a ∧ a ∈ t.ids)
      rw [above_congr blank_cancel]
      by_cases hid : id ∈ t.ids
      · rw [cancel_of_mem hid, cancelled?_mark]
        have hflag : (t.cancelled? x).map (· || decide (x ∈ t.subtree id)) = some true ↔
            t.cancelled? x = some true ∨ t.Above id x := by
          rw [← ht.mem_subtree hid]
          cases hx : t.cancelled? x with
          | some b => cases b <;> simp
          | none =>
            -- a name that is not there is below nothing
            have hnot : x ∉ t.subtree id := by
              intro hmem
              have hxid := ht.above_mem hid ((ht.mem_subtree hid).mp hmem)
              obtain ⟨node, hnode⟩ := exists_find? hxid
              rw [cancelled?, hnode] at hx
              cases hx
            simp [hnot]
        rw [hflag, ih]
        constructor
        · rintro (⟨a, habove, ha⟩ | habove)
          · exact ⟨a, habove, Or.inl ha⟩
          · exact ⟨id, habove, Or.inr ⟨rfl, hid⟩⟩
        · rintro ⟨a, habove, ha | ⟨heq, -⟩⟩
          · exact Or.inl ⟨a, habove, ha⟩
          · obtain rfl := Op.cancel.inj heq
            exact Or.inr habove
      · rw [cancel_of_not_mem hid, ih]
        refine exists_congr fun a => and_congr_right fun _ => ?_
        refine ⟨Or.inl, fun h => h.resolve_right ?_⟩
        rintro ⟨heq, ha⟩
        exact hid (Op.cancel.inj heq ▸ ha)
    | cancelToken id => exact absurd (List.mem_append_right _ List.mem_cons_self) (hops id)

/-- Two trees of one shape are equal if the same nodes are cancelled. -/
theorem eq_of_blank {t' : TaskTree} (hnodup : t.ids.Nodup) (hblank : t'.blank = t.blank)
    (hflags : ∀ x, t'.cancelled? x = some true ↔ t.cancelled? x = some true) : t' = t := by
  have hnodup' : t'.ids.Nodup := by rwa [← ids_blank, hblank, ids_blank]
  have hself : ∀ {t : TaskTree}, t.ids.Nodup → ∀ node ∈ t.nodes,
      t.cancelled? node.id = some node.cancelled := by
    intro t hnodup node hnode
    obtain ⟨found, hfound⟩ := exists_find? (t := t) (List.mem_map.mpr ⟨node, hnode, rfl⟩)
    have heq : found = node :=
      List.inj_on_of_nodup_map hnodup (List.mem_of_find?_eq_some hfound) hnode (id_of_find? hfound)
    rw [cancelled?, hfound, heq]
    rfl
  have hnodes := congrArg TaskTree.nodes hblank
  unfold blank at hnodes
  refine congrArg TaskTree.mk (List.ext_getElem? fun i => ?_)
  have hi := congrArg (·[i]?) hnodes
  simp only [List.getElem?_map] at hi
  cases h' : t'.nodes[i]? with
  | none => simpa [h'] using hi.symm
  | some node' =>
    rw [h', Option.map_some] at hi
    obtain ⟨node, h, heq⟩ := Option.map_eq_some_iff.mp hi.symm
    obtain ⟨hid, -, hchildren⟩ := TreeNode.mk.inj heq
    rw [h]
    have hflag := hflags node.id
    have hflag' : node'.cancelled = true ↔ node.cancelled = true := by
      rw [hself hnodup node (List.mem_of_getElem? h), hid,
        hself hnodup' node' (List.mem_of_getElem? h')] at hflag
      simpa using hflag
    have hcancelled : node'.cancelled = node.cancelled := Bool.eq_iff_iff.mpr hflag'
    obtain ⟨id, flag, children⟩ := node
    obtain ⟨id', flag', children'⟩ := node'
    simp only at hid hchildren hcancelled
    rw [hid, hchildren, hcancelled]

/-- **Who is cancelled.**  Let a tree be built by additions and cancellations of subtrees.  A node
is cancelled exactly if at some point of the run it or one of its ancestors was cancelled while it
was in the tree, whether the node was there already or was added later.

So what is below a cancelled node is cancelled.  And a run with the same additions in which the same
nodes have been cancelled, in any order between the additions, builds the same tree. -/
theorem built_cancelled_iff {ops : List Op} (hops : ∀ id, Op.cancelToken id ∉ ops) :
    (∀ x, (built ops).cancelled? x = some true ↔
      ∃ a, (built ops).Above a x ∧ WasCancelled ops a) ∧
    (∀ a x, (built ops).Above a x → (built ops).cancelled? a = some true →
      (built ops).cancelled? x = some true) ∧
    ∀ ops', (∀ id, Op.cancelToken id ∉ ops') →
      ops'.filter Op.isAdd = ops.filter Op.isAdd →
      (∀ a, WasCancelled ops' a ↔ WasCancelled ops a) → built ops' = built ops := by
  refine ⟨fun x => cancelled?_built hops, fun a x habove ha => ?_, fun ops' hops' hadds hsame => ?_⟩
  · rw [cancelled?_built hops] at ha ⊢
    obtain ⟨b, hb, hcancelled⟩ := ha
    exact ⟨b, hb.trans habove, hcancelled⟩
  · have hblank : (built ops').blank = (built ops).blank := by
      rw [built_blank, built_blank, hadds]
    refine eq_of_blank (rooted_built ops).nodup hblank fun x => ?_
    rw [cancelled?_built hops', cancelled?_built hops, above_congr hblank]
    exact exists_congr fun a => and_congr_right fun _ => hsame a

/-- A task is added below one that was cancelled before its own parent was there. -/
def lateAdditions : List Op :=
  [.add "a" "root", .cancel "a", .add "b" "a", .cancel "c", .add "c" "b", .add "d" "nowhere"]

theorem lateAdditions_cancelled :
    (built lateAdditions).cancelled? "c" = some true ∧
      (built lateAdditions).cancelled? "d" = some false ∧
      ∃ a, (built lateAdditions).Above a "c" ∧ WasCancelled lateAdditions a := by
  have hops : ∀ id, Op.cancelToken id ∉ lateAdditions := by
    intro id
    simp [lateAdditions]
  have hc : (built lateAdditions).cancelled? "c" = some true := by decide +kernel
  exact ⟨hc, by decide +kernel, ((built_cancelled_iff hops).1 "c").mp hc⟩

end TaskTree

end ManagedHost
