import Dataflow.Ragged

namespace Dataflow

-- Operands matched for work row by row: each has either the common length or length
-- one, and then its only value stands in every row.
structure Broadcast where
  operands : List Ragged
  length : Nat
  shape : Shape

namespace Broadcast

def longest (operands : List Ragged) : Nat :=
  operands.foldl (fun most operand => max most operand.size) 0

-- The deepest nesting so far, the earlier one winning a tie.
def deeper (chosen : Option Ragged) (operand : Ragged) : Option Ragged :=
  match chosen with
  | none => some operand
  | some best => if best.depth < operand.depth then some operand else some best

-- The operand whose nesting the results take: the first of greatest depth among those
-- of full length.
def leading (length : Nat) (operands : List Ragged) : Option Ragged :=
  (operands.filter fun operand => operand.size = length).foldl deeper none

def ofOperands (operands : List Ragged) : Except EvalError Broadcast :=
  if operands.isEmpty then
    .error (.degenerate .noOperand)
  else if operands.any Ragged.isEmpty then
    .error (.degenerate .emptyOperand)
  else
    let length := longest operands
    match operands.find? fun operand => operand.size ≠ length ∧ operand.size ≠ 1 with
    | some bad => .error (.shapeMismatch length bad.size)
    | none => .ok ⟨operands, length, ((leading length operands).map (·.shape)).getD (.leaf 0)⟩

-- What an operand puts into row `i`: its only value, or its `i`-th.
def valueIn (column : Array Value) (i : Nat) : Option Value :=
  if column.size = 1 then column[0]? else column[i]?

-- Every row in order, with one value of each operand.
def rows (broadcast : Broadcast) : List (List Value) :=
  let columns := broadcast.operands.map fun operand => operand.flat.toArray
  (List.range broadcast.length).map fun i => columns.filterMap fun column => valueIn column i

-- Work on every row in order with its number. The first row that fails ends it.
def eachRow {α : Type} (broadcast : Broadcast) (f : Nat → List Value → Except EvalError α) :
    Except EvalError (List α) :=
  broadcast.rows.zipIdx.mapM fun (row, i) => f i row

-- One result for each row, nested like the leading operand.
def map (broadcast : Broadcast) (f : Nat → List Value → Except EvalError Value) :
    Except EvalError Ragged := do
  Ragged.ofParts (← broadcast.eachRow f) broadcast.shape

-- A group of results for each row, one level below the leading operand's leaves.
def expand (broadcast : Broadcast) (f : Nat → List Value → Except EvalError (List Value)) :
    Except EvalError Ragged := do
  Ragged.expand broadcast.shape (← broadcast.eachRow f)

end Broadcast

end Dataflow
