import Dataflow.NodeType
import Dataflow.Ragged.Broadcast

namespace Dataflow.Catalogue

def numberOf (value : Value) : Except EvalError Float :=
  match value.toFloat? with
  | some x => .ok x
  | none => .error (.typeMismatch .number value.type)

-- The numbers in one row, the first value that is none being the fault.
def numbersOf (row : List Value) : Except EvalError (List Float) :=
  row.mapM numberOf

-- A result of an operation, which must be a finite number.
def finite (operation : String) (x : Float) : Except EvalError Value :=
  if x.isFinite then .ok (.number x) else .error (.degenerate (.notFinite operation x))

-- Inputs matched row by row, one value of the first producer of each.
def broadcast (inputs : EvalInputs) (slots : List Nat) : Except EvalError Broadcast := do
  Broadcast.ofOperands (← slots.mapM inputs.get)

-- The result for one row of two numbers.
def binaryRow (operation : String) (f : Float → Float → Except EvalError Float) (row : List Value) :
    Except EvalError Value := do
  match ← numbersOf row with
  | [a, b] => finite operation (← f a b)
  | _ => .error (.degenerate .noOperand)

-- A node that works on two numbers at a time.
def binary (operation : String) (default : Float) (f : Float → Float → Except EvalError Float)
    (_ : Properties) : Except GraphError Template :=
  .ok
    { tag := operation
      inputs := [.number "a" 0, .number "b" default]
      outputs := [.plain "result" .number]
      units :=
        [{ output := 0
           inputs := [0, 1]
           run := fun inputs => do
             (← broadcast inputs [0, 1]).map fun _ row => binaryRow operation f row }]
      properties := .empty }

def quotient (a b : Float) : Except EvalError Float :=
  if b == 0 then .error (.degenerate .zeroDivisor) else .ok (a / b)

def add : NodeType :=
  .describe "add" "Add" "Math" "a + b" (binary "add" 0 fun a b => .ok (a + b))

def subtract : NodeType :=
  .describe "subtract" "Subtract" "Math" "a - b" (binary "subtract" 0 fun a b => .ok (a - b))

def multiply : NodeType :=
  .describe "multiply" "Multiply" "Math" "a * b" (binary "multiply" 1 fun a b => .ok (a * b))

def divide : NodeType :=
  .describe "divide" "Divide" "Math" "a / b" (binary "divide" 1 quotient)

end Dataflow.Catalogue
