/-!
# Piles

A pile is a binary tree with an entry at every node, in which no entry stands below one that it
comes before.  Which of two entries comes before the other is a parameter of the operations.

The places of a tree are numbered level by level, from 1 at the top and from left to right on each
level.  A pile that is built by `push` and `pop` occupies the places from 1 to its size: a new entry
takes the first free place and rises from there, and when the top is removed the entry in the last
place sinks from the top.
-/

namespace ManagedHost

/-- A binary tree of entries. -/
inductive Pile (α : Type) where
  | empty
  | node (top : α) (left right : Pile α)
deriving DecidableEq, Inhabited

namespace Pile

variable {α : Type}

/-! ### Views -/

/-- The entry at the top. -/
def top? : Pile α → Option α
  | empty => none
  | node top _ _ => some top

/-- Two lists of levels side by side. -/
def beside : List (List α) → List (List α) → List (List α)
  | [], right => right
  | left, [] => left
  | l :: left, r :: right => (l ++ r) :: beside left right

/-- The entries on each level, from left to right. -/
def levels : Pile α → List (List α)
  | empty => []
  | node top left right => [top] :: beside left.levels right.levels

/-- The entries in the order of their places. -/
def toList (p : Pile α) : List α := p.levels.flatten

/-! ### Operations -/

/-- The way from the top to a place, where `true` turns right: the binary digits of its number after
the first. -/
def wayTo (place : Nat) : List Bool := (Nat.toDigits 2 place).tail.map (· == '1')

/-- Add an entry at the end of the way.  The entries on the way that it comes before each give up
their place and move down. -/
def insert (before : α → α → Bool) (e : α) : List Bool → Pile α → Pile α
  | _, empty => node e empty empty
  | way, node top left right =>
    let upper := if before e top then e else top
    let lower := if before e top then top else e
    if way.headD false then node upper left (insert before lower way.tail right)
    else node upper (insert before lower way.tail left) right

/-- Remove the entry in the place at the end of the way.  Where the way leaves the tree, what stands
there is taken instead. -/
def takeLast : List Bool → Pile α → Option (α × Pile α)
  | _, empty => none
  | way, node top left right =>
    if way.headD false then
      match takeLast way.tail right with
      | some (e, right) => some (e, node top left right)
      | none =>
        match takeLast way.tail left with
        | some (e, left) => some (e, node top left right)
        | none => some (top, empty)
    else
      match takeLast way.tail left with
      | some (e, left) => some (e, node top left right)
      | none =>
        match takeLast way.tail right with
        | some (e, right) => some (e, node top left right)
        | none => some (top, empty)

/-- Put an entry in the place of the top and let it sink as long as another comes before it. -/
def replaceTop (before : α → α → Bool) (e : α) : Pile α → Pile α
  | empty => empty
  | node _ left right =>
    match left.top?, right.top? with
    | some l, some r =>
      if before l r then
        if before l e then node l (replaceTop before e left) right else node e left right
      else if before r e then node r left (replaceTop before e right)
      else node e left right
    | some l, none =>
      if before l e then node l (replaceTop before e left) right else node e left right
    | none, some r =>
      if before r e then node r left (replaceTop before e right) else node e left right
    | none, none => node e left right

/-- Add an entry to a pile of the given size. -/
def push (before : α → α → Bool) (e : α) (size : Nat) (p : Pile α) : Pile α :=
  p.insert before e (wayTo (size + 1))

/-- Remove the top of a pile of the given size. -/
def pop (before : α → α → Bool) (size : Nat) (p : Pile α) : Option (α × Pile α) :=
  match p.top?, p.takeLast (wayTo size) with
  | some top, some (last, rest) => some (top, rest.replaceTop before last)
  | _, _ => none

end Pile

end ManagedHost
