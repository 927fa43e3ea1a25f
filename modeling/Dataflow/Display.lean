import Dataflow.Decimal.Layout
import Dataflow.Text.Escape
import Dataflow.Value

namespace Dataflow

-- A whole number below 2^53 in size is shown as an integer, minus zero as zero; every
-- other number with the fewest digits that read back.
def displayFloat (x : Float) : String :=
  match (Binary.ofFloat x).toInt? with
  | some n => if n.natAbs < Nat.pow 2 53 then toString n else Layout.plain.writeFloat x
  | none => Layout.plain.writeFloat x

def Value.display : Value → String
  | null => "null"
  | bool truth => if truth then "true" else "false"
  | int i => toString i.toInt
  | number x => displayFloat x
  | text s => Text.quoted s
  | point p =>
      "(" ++ Layout.plain.writeFloat p.x ++ ", " ++ Layout.plain.writeFloat p.y ++ ", " ++
        Layout.plain.writeFloat p.z ++ ")"

namespace Nested

variable {α : Type}

mutual
-- Lists in brackets, their members separated by a comma and a blank.
def display (leafText : α → String) : Nested α → String
  | leaf value => leafText value
  | list children => "[" ++ String.intercalate ", " (displayAll leafText [] children) ++ "]"

def displayAll (leafText : α → String) (done : List String) : List (Nested α) → List String
  | [] => done.reverse
  | child :: rest => displayAll leafText (display leafText child :: done) rest
end

end Nested

end Dataflow
