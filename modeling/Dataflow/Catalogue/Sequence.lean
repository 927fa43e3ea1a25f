import Dataflow.Catalogue.Arithmetic
import Dataflow.Decimal.Binary

namespace Dataflow.Catalogue

def number : NodeType :=
  .describe "number" "Number" "Input" "Literal number or list of numbers" fun _ =>
    .ok
      { tag := "number"
        inputs := [.number "value" 0]
        outputs := [.plain "out" .number]
        units := [⟨0, [0], fun inputs => inputs.get 0⟩]
        properties := .empty }

-- No row of a range is longer than this.
def longestRange : Nat :=
  1000000

-- The numbers from `start` up to and without `stop`, `step` apart.
def rangeRow (start stop step : Float) : Except EvalError (List Value) :=
  if step == 0 then .error (.degenerate .zeroStep)
  else
    match (Binary.ofFloat ((stop - start) / step)).ceiling? with
    | none => .error (.degenerate (.longRange start stop step))
    | some count =>
        if longestRange < count then .error (.degenerate (.longRange start stop step))
        else .ok ((List.range count).map fun i => .number (start + Float.ofNat i * step))

def range : NodeType :=
  .describe "range" "Range" "Sequence" "Numbers from start up to (excluding) stop" fun _ =>
    .ok
      { tag := "range"
        inputs := [.number "start" 0, .number "stop" 10, .number "step" 1]
        outputs := [.plain "range" .number]
        units :=
          [{ output := 0
             inputs := [0, 1, 2]
             run := fun inputs => do
               (← broadcast inputs [0, 1, 2]).expand fun _ row => do
                 match ← numbersOf row with
                 | [start, stop, step] => rangeRow start stop step
                 | _ => .error (.degenerate .noOperand) }]
        properties := .empty }

-- One value for each innermost group, made of its members.
def perGroup (value : Ragged) (f : List Value → Except EvalError Value) :
    Except EvalError Ragged := do
  let row := value.flat.toArray
  let results ← value.groups.mapM fun group => f (group.filterMap fun i => row[i]?)
  Ragged.ofParts results value.shapeKeepLast

def length : NodeType :=
  .describe "length" "List Length" "Sequence" "Number of items in each innermost group" fun _ =>
    .ok
      { tag := "length"
        inputs := [.plain "list" .any]
        outputs := [.plain "length" .int]
        units :=
          [{ output := 0
             inputs := [0]
             run := fun inputs => do
               perGroup (← inputs.get 0) fun members =>
                 .ok (.int (Int64.ofNat members.length)) }]
        properties := .empty }

-- The members added up in order, from minus zero on.
def total (members : List Value) : Except EvalError Value := do
  let sum ← members.foldlM (fun sum member => do pure (sum + (← numberOf member))) (-0.0)
  finite "sum" sum

def sum : NodeType :=
  .describe "sum" "Sum" "Sequence" "Total of each innermost group" fun _ =>
    .ok
      { tag := "sum"
        inputs := [.plain "list" .number]
        outputs := [.plain "sum" .number]
        units := [⟨0, [0], fun inputs => do perGroup (← inputs.get 0) total⟩]
        properties := .empty }

end Dataflow.Catalogue
