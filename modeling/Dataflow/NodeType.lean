import Dataflow.Template

namespace Dataflow

-- What is told of a port to someone who chooses a node.
structure PortMetadata where
  name : String
  type : ValueType
deriving DecidableEq

-- What is told of a kind of node to someone who chooses one.
structure Metadata where
  id : String
  name : String
  category : String
  description : Option String
  inputs : List PortMetadata
  outputs : List PortMetadata
deriving DecidableEq

-- A kind of node: how it is described, and how a node of it is made for given
-- properties.
structure NodeType where
  metadata : Metadata
  build : Properties → Except GraphError Template

def PortSpec.metadata (spec : PortSpec) : PortMetadata :=
  ⟨spec.name, spec.type⟩

-- A port without flags and without a default.
def PortSpec.plain (name : String) (type : ValueType) : PortSpec :=
  ⟨name, type, .none, none⟩

-- A port for a number, with a default.
def PortSpec.number (name : String) (default : Float) : PortSpec :=
  ⟨name, .number, .none, some (.leaf (.number default))⟩

-- A description with the ports that a node has when no properties are given.
def Metadata.withPorts (metadata : Metadata) (template : Template) : Metadata :=
  { metadata with
    inputs := template.inputs.map PortSpec.metadata
    outputs := template.outputs.map PortSpec.metadata }

-- A template of a kind: the given properties win over its own.
def Template.configured (template : Template) (id : String) (properties : Properties) : Template :=
  { template with
    tag := id
    properties := template.properties.insertAll properties.entries }

-- A kind of node described once, by its template for no properties.
def NodeType.describe (id name category description : String)
    (template : Properties → Except GraphError Template) : NodeType :=
  let metadata : Metadata := ⟨id, name, category, some description, [], []⟩
  { metadata :=
      match template .empty with
      | .ok built => metadata.withPorts built
      | .error _ => metadata
    build := fun properties => (template properties).map fun built =>
      built.configured id properties }

end Dataflow
