namespace Dataflow

universe u v

-- Data nested to any depth: one leaf, or a list of nested data. With values at the
-- leaves it is what a user writes; with numbers at the leaves it is a shape whose
-- leaves point into a row of values. Lists of children may be very long, so the walks
-- below carry what they have built along instead of leaving work behind each child.
inductive Nested (α : Type u) where
  | leaf (value : α)
  | list (children : List (Nested α))
deriving Inhabited

namespace Nested

variable {α : Type u} {β : Type v}

mutual
def decEq [DecidableEq α] : (a b : Nested α) → Decidable (a = b)
  | leaf x, leaf y => decidable_of_iff (x = y) (by simp)
  | list xs, list ys =>
      match decEqAll xs ys with
      | isTrue h => isTrue (by rw [h])
      | isFalse h => isFalse (by simpa using h)
  | leaf _, list _ => isFalse (by simp)
  | list _, leaf _ => isFalse (by simp)

def decEqAll [DecidableEq α] : (as bs : List (Nested α)) → Decidable (as = bs)
  | [], [] => isTrue rfl
  | [], _ :: _ => isFalse (by simp)
  | _ :: _, [] => isFalse (by simp)
  | a :: as, b :: bs =>
      match decEq a b with
      | isTrue h =>
          match decEqAll as bs with
          | isTrue h' => isTrue (by rw [h, h'])
          | isFalse h' => isFalse (by simp [h'])
      | isFalse h => isFalse (by simp [h])
end

instance [DecidableEq α] : DecidableEq (Nested α) := decEq

mutual
-- Equality by the equality of the leaves, which need not be the logical one.
def same [BEq α] : Nested α → Nested α → Bool
  | leaf x, leaf y => x == y
  | list xs, list ys => sameAll xs ys
  | _, _ => false

def sameAll [BEq α] : List (Nested α) → List (Nested α) → Bool
  | [], [] => true
  | x :: xs, y :: ys => same x y && sameAll xs ys
  | _, _ => false
end

instance [BEq α] : BEq (Nested α) := ⟨same⟩

def isLeaf : Nested α → Bool
  | leaf _ => true
  | list _ => false

-- A single group with the given leaves.
def ofList (values : List α) : Nested α :=
  list (values.map leaf)

mutual
-- A leaf has depth 0, a list one more than its deepest child.
def depth : Nested α → Nat
  | leaf _ => 0
  | list children => 1 + deepest 0 children

-- The greatest depth among the children, and no less than `most`.
def deepest (most : Nat) : List (Nested α) → Nat
  | [] => most
  | child :: rest => deepest (max most (depth child)) rest
end

mutual
def leafCount : Nested α → Nat
  | leaf _ => 1
  | list children => countLeaves 0 children

def countLeaves (sum : Nat) : List (Nested α) → Nat
  | [] => sum
  | child :: rest => countLeaves (sum + leafCount child) rest
end

mutual
-- The leaves, last first, before those in `done`.
def pushLeaves (done : List α) : Nested α → List α
  | leaf value => value :: done
  | list children => pushLeavesAll done children

def pushLeavesAll (done : List α) : List (Nested α) → List α
  | [] => done
  | child :: rest => pushLeavesAll (pushLeaves done child) rest
end

-- The leaves, depth first.
def leaves (nested : Nested α) : List α :=
  (nested.pushLeaves []).reverse

mutual
-- Every leaf replaced by nested data of its own.
def bind (f : α → Nested β) : Nested α → Nested β
  | leaf value => f value
  | list children => list (bindAll f [] children)

def bindAll (f : α → Nested β) (done : List (Nested β)) : List (Nested α) → List (Nested β)
  | [] => done.reverse
  | child :: rest => bindAll f (bind f child :: done) rest
end

-- The same shape with every leaf mapped.
def map (f : α → β) (nested : Nested α) : Nested β :=
  nested.bind fun value => leaf (f value)

mutual
-- The same shape with its leaves numbered depth first from `start`.
def numberFrom (start : Nat) : Nested α → Nested Nat
  | leaf _ => leaf start
  | list children => list (numberAllFrom start [] children)

def numberAllFrom (start : Nat) (done : List (Nested Nat)) : List (Nested α) → List (Nested Nat)
  | [] => done.reverse
  | child :: rest =>
      numberAllFrom (start + leafCount child) (numberFrom start child :: done) rest
end

-- The shape alone: leaves numbered 0, 1, 2, … depth first.
def numbered (nested : Nested α) : Nested Nat :=
  nested.numberFrom 0

-- The children of a list, or the leaf itself: what is left when the outer brackets go.
def spliced : Nested α → List (Nested α)
  | leaf value => [leaf value]
  | list children => children

-- One level of nesting less: the children of each inner list take its place.
def flatten : Nested α → Nested α
  | leaf value => leaf value
  | list children => list (children.flatMap spliced)

mutual
-- Lists whose only child is a list are dropped, at every depth.
def simplify : Nested α → Nested α
  | leaf value => leaf value
  | list [list inner] => simplify (list inner)
  | list children => list (simplifyAll [] children)

def simplifyAll (done : List (Nested α)) : List (Nested α) → List (Nested α)
  | [] => done.reverse
  | child :: rest => simplifyAll (simplify child :: done) rest
end

-- Every leaf wrapped in a group of its own.
def graft (nested : Nested α) : Nested α :=
  nested.bind fun value => list [leaf value]

mutual
-- The innermost level folded up: a list made only of leaves becomes one leaf that
-- holds its members, and a leaf beside a list becomes a group of one.
def collapse : Nested α → Nested (List α)
  | leaf value => leaf [value]
  | list children =>
      if children.all isLeaf then leaf (pushLeavesAll [] children).reverse
      else list (collapseAll [] children)

def collapseAll (done : List (Nested (List α))) : List (Nested α) → List (Nested (List α))
  | [] => done.reverse
  | child :: rest => collapseAll (collapse child :: done) rest
end

-- A run in progress, last leaf first, is kept only if it holds something.
def closeRun (done : List (List α)) (run : List α) : List (List α) :=
  if run.isEmpty then done else run.reverse :: done

mutual
-- The runs of leaves that are neighbours in one list, last first, before those in `done`.
def pushRuns (done : List (List α)) : Nested α → List (List α)
  | leaf value => [value] :: done
  | list children => pushRunsAll done [] children

-- The same for the remaining children of a list, `run` being the run in progress.
def pushRunsAll (done : List (List α)) (run : List α) : List (Nested α) → List (List α)
  | [] => closeRun done run
  | child :: rest =>
      match child with
      | leaf value => pushRunsAll done (value :: run) rest
      | list _ => pushRunsAll (pushRuns (closeRun done run) child) [] rest
end

-- The leaves cut into runs of neighbours: a run ends where a list begins or ends.
def runs (nested : Nested α) : List (List α) :=
  (nested.pushRuns []).reverse

end Nested

end Dataflow
