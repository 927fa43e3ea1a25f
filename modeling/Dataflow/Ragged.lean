import Dataflow.Error
import Dataflow.Nested

namespace Dataflow

-- A nesting whose leaves are positions in a row of values.
abbrev Shape := Nested Nat

-- Nested values kept apart as one row and the nesting of its positions, so that a
-- change of the nesting never touches the values.
structure Ragged where
  flat : List Value
  shape : Shape
deriving DecidableEq, BEq

namespace Ragged

-- The values of `nested`, depth first, under its own nesting.
def ofNested (nested : Nested Value) : Ragged :=
  ⟨nested.leaves, nested.numbered⟩

-- A single bare leaf.
def scalar (value : Value) : Ragged :=
  ⟨[value], .leaf 0⟩

-- One group with all the values.
def ofList (values : List Value) : Ragged :=
  ⟨values, .ofList (List.range values.length)⟩

def empty : Ragged :=
  ⟨[], .list []⟩

instance : Inhabited Ragged := ⟨empty⟩

-- The first leaf that is out of range or comes a second time. `seen` has a mark for
-- every position of the row.
def firstBadLeaf (seen : Array Bool) : List Nat → Option Nat
  | [] => none
  | leaf :: rest =>
      if seen[leaf]? = some false then firstBadLeaf (seen.setIfInBounds leaf true) rest
      else some leaf

-- Pairs a row with a nesting that must address every value of it exactly once. The
-- result has its leaves in depth-first order.
def ofParts (flat : List Value) (shape : Shape) : Except EvalError Ragged :=
  let leaves := shape.leaves
  if leaves.length = flat.length then
    match firstBadLeaf (Array.replicate flat.length false) leaves with
    | some leaf => .error (.leafNotUnique leaf)
    | none =>
        let row := flat.toArray
        .ok ⟨leaves.filterMap fun leaf => row[leaf]?, shape.numbered⟩
  else
    .error (.shapeMismatch leaves.length flat.length)

def size (ragged : Ragged) : Nat :=
  ragged.flat.length

def isEmpty (ragged : Ragged) : Bool :=
  ragged.flat.isEmpty

def depth (ragged : Ragged) : Nat :=
  ragged.shape.depth

def first? (ragged : Ragged) : Option Value :=
  ragged.flat.head?

-- The values nested again, null standing for a position past the end of the row.
def toNested (ragged : Ragged) : Nested Value :=
  let row := ragged.flat.toArray
  ragged.shape.map fun position => row[position]?.getD .null

-- The values nested again, at most two levels deep: below that, leaves stay with their
-- neighbours and the outer levels go.
def keepLast (ragged : Ragged) : Nested Value :=
  if ragged.depth ≤ 2 then ragged.toNested
  else
    let row := ragged.flat.toArray
    .list (ragged.shape.runs.map fun run =>
      .ofList (run.map fun position => row[position]?.getD .null))

-- The nesting of the innermost groups, each of them one leaf.
def shapeKeepLast (ragged : Ragged) : Shape :=
  ragged.shape.collapse.numbered

-- The positions in each innermost group, in the order of the leaves of
-- `shapeKeepLast`.
def groups (ragged : Ragged) : List (List Nat) :=
  ragged.shape.collapse.leaves

def flatten (ragged : Ragged) : Ragged :=
  { ragged with shape := ragged.shape.flatten }

def simplify (ragged : Ragged) : Ragged :=
  { ragged with shape := ragged.shape.simplify }

def graft (ragged : Ragged) : Ragged :=
  { ragged with shape := ragged.shape.graft }

-- One group of positions for each list, counting on from `start`.
def blocksFrom (start : Nat) : List (List Value) → List Shape
  | [] => []
  | group :: rest =>
      .ofList (List.range' start group.length) :: blocksFrom (start + group.length) rest

-- The k-th leaf of the nesting, depth first, becomes a group of the k-th list's values.
def expand (shape : Shape) (groups : List (List Value)) : Except EvalError Ragged :=
  if shape.leafCount = groups.length then
    let blocks := (blocksFrom 0 groups).toArray
    .ok ⟨groups.flatten, shape.numbered.bind fun leaf => blocks[leaf]?.getD (.list [])⟩
  else
    .error (.shapeMismatch shape.leafCount groups.length)

end Ragged

end Dataflow
