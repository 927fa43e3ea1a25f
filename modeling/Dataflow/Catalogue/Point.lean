import Dataflow.Catalogue.Arithmetic

namespace Dataflow.Catalogue

def pointRow (row : List Value) : Except EvalError Value := do
  match ← numbersOf row with
  | [x, y, z] => pure (.point ⟨x, y, z⟩)
  | _ => .error (.degenerate .noOperand)

def point : NodeType :=
  .describe "point" "Point" "Geometry" "Point from x, y and z" fun _ =>
    .ok
      { tag := "point"
        inputs := [.number "x" 0, .number "y" 0, .number "z" 0]
        outputs := [.plain "point" .point]
        units :=
          [{ output := 0
             inputs := [0, 1, 2]
             run := fun inputs => do
               (← broadcast inputs [0, 1, 2]).map fun _ row => pointRow row }]
        properties := .empty }

end Dataflow.Catalogue
