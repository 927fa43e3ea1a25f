import Dataflow.Ragged

namespace Dataflow

-- The changes that a port makes to a value's nesting as it passes through.
structure Flags where
  flatten : Bool
  simplify : Bool
  graft : Bool
deriving DecidableEq, BEq

namespace Flags

def none : Flags :=
  ⟨false, false, false⟩

instance : Inhabited Flags := ⟨none⟩

def isNone (flags : Flags) : Bool :=
  !flags.flatten && !flags.simplify && !flags.graft

-- One bit for each change; higher bits mean nothing.
def ofBits (bits : Nat) : Flags :=
  ⟨bits % 2 = 1, bits / 2 % 2 = 1, bits / 4 % 2 = 1⟩

def bits (flags : Flags) : Nat :=
  (if flags.flatten then 1 else 0) + (if flags.simplify then 2 else 0) +
    (if flags.graft then 4 else 0)

-- Flattening comes first and grafting last.
def apply (flags : Flags) (value : Ragged) : Ragged :=
  let value := if flags.flatten then value.flatten else value
  let value := if flags.simplify then value.simplify else value
  if flags.graft then value.graft else value

end Flags

end Dataflow
