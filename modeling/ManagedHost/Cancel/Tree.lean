/-!
# Cancellation trees

Named tasks in a tree, each with a signal.  Cancelling a task cancels its whole subtree, and a task
added below a cancelled one starts out cancelled.  Nodes are never removed.
-/

namespace ManagedHost

/-- The name of the root of every tree. -/
def rootId : String := "root"

/-- A named task. -/
structure TreeNode where
  id : String
  cancelled : Bool := false
  /-- Names of the children, oldest first. -/
  children : List String := []
deriving DecidableEq, Inhabited

/-- The nodes of a tree in the order in which they were added, the root first. -/
structure TaskTree where
  nodes : List TreeNode := [{ id := rootId }]
deriving DecidableEq, Inhabited

namespace TaskTree

/-- The node with the given name. -/
def find? (t : TaskTree) (id : String) : Option TreeNode := t.nodes.find? (·.id == id)

/-- Whether the tree has a node of this name. -/
def contains (t : TaskTree) (id : String) : Bool := (t.find? id).isSome

/-- Whether the node is cancelled; `none` for an unknown name. -/
def cancelled? (t : TaskTree) (id : String) : Option Bool := (t.find? id).map TreeNode.cancelled

/-- The names of the node's children. -/
def children (t : TaskTree) (id : String) : List String :=
  match t.find? id with
  | some node => node.children
  | none => []

/-- Change the node of the given name. -/
def modify (t : TaskTree) (id : String) (f : TreeNode → TreeNode) : TaskTree :=
  { nodes := t.nodes.map fun node => if node.id = id then f node else node }

/-- Add a task below `parent`, or below the root if there is no such task.  A name that is taken
keeps its node.  Returns whether the task is cancelled. -/
def add (t : TaskTree) (id parent : String) : Bool × TaskTree :=
  match t.find? id with
  | some node => (node.cancelled, t)
  | none =>
    let parent := if t.contains parent then parent else rootId
    let cancelled := (t.cancelled? parent).getD false
    let t := t.modify parent fun node => { node with children := node.children ++ [id] }
    (cancelled, { nodes := t.nodes ++ [{ id, cancelled }] })

/-- The names met when working off a stack of names, each followed by its children, for at most
`fuel` nodes. -/
def traverse (t : TaskTree) : Nat → List String → List String
  | 0, _ => []
  | _, [] => []
  | fuel + 1, id :: stack =>
    match t.find? id with
    | some node => id :: t.traverse fuel (node.children ++ stack)
    | none => t.traverse fuel stack

/-- The names of the subtree below `id`, in pre-order.  No node is met twice. -/
def subtree (t : TaskTree) (id : String) : List String := t.traverse t.nodes.length [id]

/-- Cancel just the node of the given name. -/
def cancelOne (t : TaskTree) (id : String) : TaskTree :=
  t.modify id fun node => { node with cancelled := true }

/-- Cancel the subtree below `id`.  Returns whether there is such a node. -/
def cancel (t : TaskTree) (id : String) : Bool × TaskTree :=
  if t.contains id then (true, (t.subtree id).foldl cancelOne t) else (false, t)

end TaskTree

end ManagedHost
