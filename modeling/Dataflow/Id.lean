namespace Dataflow

-- What an identifier names.
inductive Kind where
  | node
  | port
  | edge
  | item
deriving DecidableEq

-- An identifier of one kind. Live things count from one, so number zero names nothing.
structure Id (kind : Kind) where
  number : Nat
deriving DecidableEq, Inhabited

abbrev NodeId := Id .node
abbrev PortId := Id .port
abbrev EdgeId := Id .edge
abbrev ItemId := Id .item

def Id.null {kind : Kind} : Id kind := ⟨0⟩

-- Which end of a node a port is on.
inductive Direction where
  | input
  | output
deriving DecidableEq, BEq, Inhabited

def Direction.name : Direction → String
  | .input => "Input"
  | .output => "Output"

def Direction.ofName? (name : String) : Option Direction :=
  [Direction.input, .output].find? fun direction => direction.name = name

end Dataflow
