import Dataflow.Evaluation.Session
import Dataflow.Proofs.Evaluation.Frame

namespace Dataflow

-- A node that keeps no results.
def Node.bare (node : Node) : Node :=
  { node with slots := node.slots.map fun _ => .empty }

namespace Graph

-- A graph that keeps no results. Evaluation changes nothing of it.
def bare (graph : Graph) : Graph :=
  { graph with nodes := graph.nodes.update fun _ node => node.bare }

theorem node?_bare (graph : Graph) (n : NodeId) :
    graph.bare.node? n = (graph.node? n).map Node.bare :=
  graph.nodes.find?_update _ n

theorem bare_withSlot (graph : Graph) (n : NodeId) (o : Nat) (slot : Slot) :
    (graph.withSlot n o slot).bare = graph.bare := by
  simp only [bare, withSlot, Arena.modify, Arena.update_update]
  congr 2
  funext id node
  split
  · simp [Node.bare, List.map_set]
  · rfl

@[simp] theorem bare_invalidate (graph : Graph) (id : NodeId) :
    (graph.invalidate id).bare = graph.bare := by
  simp only [bare, Graph.invalidate, Arena.update_update]
  congr 2
  funext n node
  split
  · simp only [Node.bare, Node.invalidate, List.map_map]
    rfl
  · rfl

theorem bare_invalidateAll (graph : Graph) (ids : List NodeId) :
    (ids.foldl invalidate graph).bare = graph.bare := by
  induction ids generalizing graph with
  | nil => rfl
  | cons id rest ih => rw [List.foldl_cons, ih, bare_invalidate]

section Node

-- Whatever can be told from a node without results is the same if the node is, but for them.
variable {graph other : Graph} {n : NodeId}
  (h : (other.node? n).map Node.bare = (graph.node? n).map Node.bare)

include h

theorem map_node?_of_node {α : Type} (f : Node → α) (hf : ∀ node, f node.bare = f node) :
    (other.node? n).map f = (graph.node? n).map f := by
  have hcomp : f ∘ Node.bare = f := funext hf
  rw [← hcomp, ← Option.map_map, h, Option.map_map]

theorem bind_node?_of_node {α : Type} (f : Node → Option α) (hf : ∀ node, f node.bare = f node) :
    (other.node? n).bind f = (graph.node? n).bind f := by
  have hmap := congrArg (·.bind id) (map_node?_of_node h f hf)
  rwa [Option.bind_map, Option.bind_map] at hmap

theorem outputOf_of_node (o : Nat) : other.outputOf n o = graph.outputOf n o := by
  have hmap := map_node?_of_node h (·.outputs) fun _ => rfl
  cases hother : other.node? n <;> cases hgraph : graph.node? n <;>
    simp_all only [outputOf, Option.map_none, Option.map_some, Option.some.injEq, reduceCtorEq]

end Node

section Alike

variable {graph other : Graph} (h : other.bare = graph.bare)

include h

theorem ports_of_bare : other.ports = graph.ports := by
  have h' := congrArg Graph.ports h
  exact h'

theorem edges_of_bare : other.edges = graph.edges := by
  have h' := congrArg Graph.edges h
  exact h'

theorem settings_of_bare : other.settings = graph.settings := by
  have h' := congrArg Graph.settings h
  exact h'

theorem node?_of_bare (n : NodeId) :
    (other.node? n).map Node.bare = (graph.node? n).map Node.bare := by
  rw [← node?_bare, h, node?_bare]

theorem port?_of_bare (p : PortId) : other.port? p = graph.port? p := by
  rw [port?, ports_of_bare h, port?]

theorem edge?_of_bare (e : EdgeId) : other.edge? e = graph.edge? e := by
  rw [edge?, edges_of_bare h, edge?]

theorem map_node?_of_bare {α : Type} (f : Node → α) (hf : ∀ node, f node.bare = f node)
    (n : NodeId) : (other.node? n).map f = (graph.node? n).map f :=
  map_node?_of_node (node?_of_bare h n) f hf

theorem frame_of_bare (n : NodeId) :
    (other.node? n).map Node.frame = (graph.node? n).map Node.frame :=
  map_node?_of_bare h Node.frame (fun node => by simp [Node.frame, Node.bare]) n

theorem agree_of_bare : Agree graph other fun _ => True where
  hops := by rw [settings_of_bare h]
  node := fun _ => map_node?_of_bare h Node.core (fun _ => rfl) _
  port := fun {p port} hp _ => ⟨port, (port?_of_bare h p).trans hp, rfl⟩
  edge := fun {_ _ e} _ _ _ _ => edge?_of_bare h e

theorem Wired.of_bare (hw : graph.Wired) : other.Wired :=
  hw.of_nodes (ports_of_bare h) (edges_of_bare h) (frame_of_bare h)

theorem Acyclic.of_bare (ha : graph.Acyclic) : other.Acyclic :=
  ha.of_nodes (ports_of_bare h) (edges_of_bare h) (frame_of_bare h)

theorem locate_of_bare (p : PortId) : other.locate p = graph.locate p := by
  rw [locate, port?_of_bare h, locate]

theorem unit?_of_bare (n : NodeId) (o : Nat) : other.unit? n o = graph.unit? n o :=
  (agree_of_bare h).unit? trivial o

theorem outputOf_of_bare (n : NodeId) (o : Nat) : other.outputOf n o = graph.outputOf n o :=
  outputOf_of_node (node?_of_bare h n) o

theorem inputPort?_of_bare (n : NodeId) (i : Nat) : other.inputPort? n i = graph.inputPort? n i :=
  bind_node?_of_node (node?_of_bare h n) (fun node => node.inputs[i]?) fun _ => rfl

theorem walkAliases_of_bare (stop : Port → Bool) (hops : Nat) (p : PortId) :
    other.walkAliases stop hops p = graph.walkAliases stop hops p := by
  fun_induction graph.walkAliases stop hops p <;>
    (unfold walkAliases; simp [port?_of_bare h, *])

theorem chainFrom_of_bare (stop : Port → Bool) (p : PortId) :
    other.chainFrom stop p = graph.chainFrom stop p := by
  rw [chainFrom, settings_of_bare h, walkAliases_of_bare h, chainFrom]

theorem aliasChain_of_bare (p : PortId) : other.aliasChain p = graph.aliasChain p :=
  chainFrom_of_bare h _ p

theorem aliasEnd_of_bare (p : PortId) : other.aliasEnd p = graph.aliasEnd p := by
  rw [aliasEnd, aliasChain_of_bare h, aliasEnd]

theorem resolveOutput_of_bare (n : NodeId) (o : Nat) :
    other.resolveOutput n o = graph.resolveOutput n o := by
  have hends : other.aliasEnd = graph.aliasEnd := funext (aliasEnd_of_bare h)
  rw [resolveOutput, outputOf_of_bare h, hends, resolveOutput]

theorem producers_of_bare (p : PortId) : other.producers p = graph.producers p := by
  have hedge : other.edge? = graph.edge? := funext (edge?_of_bare h)
  simp only [producers, inputChain, chainFrom_of_bare h, port?_of_bare h, hedge,
    aliasEnd_of_bare h]

theorem sources_of_bare (n : NodeId) (o : Nat) : other.sources n o = graph.sources n o := by
  have hport : other.inputPort? n = graph.inputPort? n := funext (inputPort?_of_bare h n)
  have hproducers : other.producers = graph.producers := funext (producers_of_bare h)
  simp only [sources, sourcesOf, unit?_of_bare h, hport, hproducers]

theorem means_of_bare (hw : graph.Wired) {n : NodeId} {o : Nat} {r : Except EvalError Ragged}
    (hm : graph.Means n o r) : other.Means n o r :=
  hm.frame (agree_of_bare h) (.all graph) hw trivial

end Alike

end Graph

end Dataflow
