import Dataflow.Catalogue
import Dataflow.Text.Case

namespace Dataflow

-- Kinds of nodes by tag. Tags are in lower case, and each is there once.
structure Registry where
  types : List (String × NodeType)

namespace Registry

def empty : Registry :=
  ⟨[]⟩

-- A tag that is taken goes to the new kind.
def register (registry : Registry) (tag : String) (type : NodeType) : Registry :=
  let key := Text.lowerCase tag
  ⟨registry.types.filter (fun entry => entry.1 ≠ key) ++ [(key, type)]⟩

-- The built-in kinds, each under its own id.
def core : Registry :=
  Catalogue.all.foldl (fun registry type => registry.register type.metadata.id type) empty

def find? (registry : Registry) (tag : String) : Option NodeType :=
  let key := Text.lowerCase tag
  (registry.types.find? fun entry => entry.1 = key).map (·.2)

-- A template of the kind under a tag, marked with the tag in lower case.
def create (registry : Registry) (tag : String) (properties : Properties) :
    Except GraphError Template :=
  match registry.find? tag with
  | none => .error (.unknownNodeType tag)
  | some type => (type.build properties).map fun template =>
      { template with tag := Text.lowerCase tag }

def tags (registry : Registry) : List String :=
  (registry.types.map (·.1)).mergeSort fun a b => a ≤ b

-- All descriptions in the order of their ids.
def metadata (registry : Registry) : List Metadata :=
  (registry.types.map (·.2.metadata)).mergeSort fun a b => a.id ≤ b.id

end Registry

end Dataflow
