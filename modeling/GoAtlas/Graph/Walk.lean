/-!
# Walks in a finite graph

Searches over a successor function, each with a bound on its steps: what can be reached from some
nodes, and a closed walk through a node. A closed walk is looked for depth first, with the
successors in the order in which they are given. One search enters each node at most once and
forgets none that it has entered; the other tells the nodes on its stack from those that it is done
with.
-/

namespace GoAtlas.Walk

variable {α : Type} [DecidableEq α]

/-- The nodes reached from those in `todo`, on top of those already seen. -/
def closure (next : α → List α) : Nat → List α → List α → List α
  | 0, _, seen => seen
  | _ + 1, [], seen => seen
  | fuel + 1, node :: todo, seen =>
    if node ∈ seen then closure next fuel todo seen
    else closure next fuel (next node ++ todo) (node :: seen)

/-- What a search for a closed walk leaves: a walk, or the nodes entered in vain. -/
inductive Outcome (α : Type) where
  | closed (walk : List α)
  | spent (entered : List α)

/-! ## With the nodes that have been entered -/

/-- Tries one successor, unless a closed walk has been found: the walk ends when the successor is
`start`; otherwise `search` goes on from it, if it has not been entered yet. -/
def attempt (search : α → List α → Outcome α) (start : α) :
    Outcome α → α → Outcome α
  | .closed walk, _ => .closed walk
  | .spent entered, successor =>
    if successor = start then .closed [start]
    else if successor ∈ entered then .spent entered
    else
      match search successor (successor :: entered) with
      | .closed walk => .closed (successor :: walk)
      | .spent entered => .spent entered

/-- Goes on from `node` to `start`, entering none of the nodes already entered. -/
def close (next : α → List α) (start : α) : Nat → α → List α → Outcome α
  | 0, _, entered => .spent entered
  | fuel + 1, node, entered =>
    (next node).foldl (attempt (close next start fuel) start) (.spent entered)

/-- A closed walk through `start` that repeats no other node, found depth first. -/
def closedWalk? (next : α → List α) (fuel : Nat) (start : α) : Option (List α) :=
  match close next start fuel start [] with
  | .closed walk => some (start :: walk)
  | .spent _ => none

/-! ## With a stack -/

/-- Tries one successor of the last node of a stack, unless a closed walk has been found: the walk
is the stack when the successor is `start`; otherwise the successor is pushed and `search` goes on
from it, if it is neither on the stack nor done. A successor that is popped again is done. -/
def attemptOn (search : α → List α → List α → Outcome α) (start : α) (stack : List α) :
    Outcome α → α → Outcome α
  | .closed walk, _ => .closed walk
  | .spent done, successor =>
    if successor = start then .closed (stack ++ [start])
    else if successor ∈ done ∨ successor ∈ stack then .spent done
    else
      match search successor (stack ++ [successor]) done with
      | .closed walk => .closed walk
      | .spent done => .spent (successor :: done)

/-- Goes on from `node`, the last of a stack, to `start`, pushing none of the nodes that are done.
-/
def closeOn (next : α → List α) (start : α) : Nat → α → List α → List α → Outcome α
  | 0, _, _, done => .spent done
  | fuel + 1, node, stack, done =>
    (next node).foldl (attemptOn (closeOn next start fuel) start stack) (.spent done)

/-- A closed walk through `start` that repeats no other node, found depth first on a stack. -/
def closedWalkOnStack? (next : α → List α) (fuel : Nat) (start : α) : Option (List α) :=
  match closeOn next start fuel start [start] [] with
  | .closed walk => some walk
  | .spent _ => none

end GoAtlas.Walk
