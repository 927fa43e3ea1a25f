import Dataflow.Closure
import Dataflow.Graph

namespace Dataflow.Graph

-- The inputs of a node that computes anything lead to all of its outputs.
def throughNode (node : Node) : List (PortId × PortId) :=
  if node.units.isEmpty then []
  else node.inputs.flatMap fun input => node.outputs.map fun output => (input, output)

-- A port that stands for another depends on it.
def throughAlias (entry : PortId × Port) : Option (PortId × PortId) :=
  entry.2.aliasOf.map fun target => (target, entry.1)

-- All direct dependencies between ports: through nodes, along edges and through
-- aliases.
def dependencies (graph : Graph) : List (PortId × PortId) :=
  graph.nodes.values.flatMap throughNode ++
    graph.edges.values.map (fun edge => (edge.source, edge.destination)) ++
    graph.ports.entries.filterMap throughAlias

-- What depends directly on a port.
def stepsFrom (arcs : List (PortId × PortId)) (port : PortId) : List PortId :=
  arcs.filterMap fun arc => if arc.1 = port then some arc.2 else none

-- Whether dependencies lead from one port to another, in any number of steps.
def leadsTo (graph : Graph) (source target : PortId) : Bool :=
  (Closure.reached (stepsFrom graph.dependencies) graph.ports.size source).contains target

-- Whether a dependency of the second port on the first would close a loop.
def closesLoop (graph : Graph) (source target : PortId) : Bool :=
  source = target ||
    (graph.ports.contains source && graph.ports.contains target && graph.leadsTo target source)

-- Whether some port depends on itself.
def hasCycle (graph : Graph) : Bool :=
  let arcs := graph.dependencies
  arcs.any fun arc =>
    (Closure.reached (stepsFrom arcs) graph.ports.size arc.2).contains arc.1

end Dataflow.Graph
