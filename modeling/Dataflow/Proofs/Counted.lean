import Dataflow.Proofs.Stocked

namespace Dataflow

namespace Catalogue

theorem portCount_congr {a b : Properties} {key : String} (h : a.find? key = b.find? key) :
    portCount a key = portCount b key := by
  rw [portCount, portCount, h]

end Catalogue

-- The operation leaves the properties alone that the ports of a group depend on.
def Operation.SparesCounts : Operation → Prop
  | .setProperty _ key _ => key ≠ "inputs" ∧ key ≠ "outputs"
  | _ => True

namespace Graph

variable {graph other : Graph}

-- The properties of every group give the number of its ports.
def Counted (graph : Graph) : Prop :=
  ∀ id node, graph.node? id = some node → node.tag = "group" →
    Catalogue.portCount node.properties "inputs" = .ok node.inputs.length ∧
      Catalogue.portCount node.properties "outputs" = .ok node.outputs.length

namespace Counted

theorem new (settings : Settings) : (Graph.new settings).Counted := by
  intro id node hn
  cases hn

-- Properties under other keys do not count.
theorem part {keys : String → Prop} (hc : graph.Counted) (h : Part keys graph other)
    (hin : ¬ keys "inputs") (hout : ¬ keys "outputs") : other.Counted := by
  intro id node' hn' hgroup
  obtain ⟨node, hn, -, htag, -, hside, hkeys⟩ := h.node hn'
  have hinputs := (hkeys "inputs").resolve_right fun hset => hin hset.1
  have houtputs := (hkeys "outputs").resolve_right fun hset => hout hset.1
  rw [Catalogue.portCount_congr hinputs, Catalogue.portCount_congr houtputs,
    show node'.inputs = node.inputs from hside .input,
    show node'.outputs = node.outputs from hside .output]
  exact hc id node hn (htag ▸ hgroup)

theorem insert (hc : graph.Counted) {tag : String} {given : Properties} {template : Template}
    (hcreate : Registry.core.create tag given = .ok template) (uuid : Uuid) (parent : ItemId) :
    (graph.withNode template uuid parent).Counted := by
  intro id node hn hgroup
  rcases (node?_withNode_eq_some_iff ..).mp hn with ⟨-, rfl⟩ | hn
  · simpa [newNode, newInputs, newOutputs] using Registry.counts_of_create hcreate hgroup
  · exact hc id node hn hgroup

theorem performed (hc : graph.Counted) (h : Reachable graph) {operation : Operation}
    (hb : operation.BuiltIn) (hs : operation.SparesCounts) :
    (graph.perform operation).Counted := by
  have hkeys : ∀ id key value, operation = .setProperty id key value →
      key ≠ "inputs" ∧ key ≠ "outputs" := by
    rintro id key value rfl
    exact hs
  rcases h.part operation hkeys with ⟨template, uuid, parent, hop, heq⟩ | hpart
  · obtain ⟨tag, given, hcreate⟩ :
        ∃ tag given, Registry.core.create tag given = .ok template := by
      rcases hop with rfl | ⟨container, rfl⟩ <;> exact hb
    exact heq.symm ▸ hc.insert hcreate uuid parent
  · exact hc.part hpart (fun hkey => hkey.1 rfl) fun hkey => hkey.2 rfl

theorem answered (hc : graph.Counted) (h : Reachable graph) (query : Query) :
    (graph.answer query).Counted := by
  have hpart : Part (fun _ => False) graph (graph.answer query) :=
    .of_bare (h.healthy.asked query).1
  exact hc.part hpart id id

end Counted

-- The graphs with built-in nodes only on which nobody has set the number of a group's ports.
inductive Spared : Graph → Prop where
  | new (settings : Settings) : Spared (Graph.new settings)
  | performed {graph : Graph} {operation : Operation} (hb : operation.BuiltIn)
      (hs : operation.SparesCounts) (h : Spared graph) : Spared (graph.perform operation)
  | answered {graph : Graph} (query : Query) (h : Spared graph) : Spared (graph.answer query)

-- Only an operation that sets these properties can put them out of step with the ports.
theorem Spared.stocked_counted (h : Spared graph) : Stocked graph ∧ graph.Counted := by
  induction h with
  | new settings => exact ⟨.new settings, .new settings⟩
  | performed hb hs _ ih => exact ⟨ih.1.performed hb, ih.2.performed ih.1.reachable hb hs⟩
  | answered query _ ih => exact ⟨ih.1.answered query, ih.2.answered ih.1.reachable query⟩

theorem Spared.run (h : Spared graph) {operations : List Operation}
    (hb : ∀ operation ∈ operations, operation.BuiltIn)
    (hs : ∀ operation ∈ operations, operation.SparesCounts) : Spared (graph.run operations) := by
  induction operations generalizing graph with
  | nil => exact h
  | cons operation rest ih =>
      exact ih (h.performed (hb operation List.mem_cons_self) (hs operation List.mem_cons_self))
        (fun other hother => hb other (List.mem_cons_of_mem _ hother))
        fun other hother => hs other (List.mem_cons_of_mem _ hother)

end Graph

end Dataflow
