import Dataflow.Graph.Downstream
import Dataflow.Proofs.Closure
import Dataflow.Proofs.Graph.Integrity

namespace Dataflow.Graph

open Relation

variable {graph : Graph}

theorem mem_aliasReaders_iff {id : NodeId} {node : Node} (hn : graph.node? id = some node)
    (r : NodeId) :
    r ∈ graph.aliasReaders id ↔ r ≠ id ∧ ∃ p port t, graph.port? p = some port ∧ port.node = r ∧
      port.aliasOf = some t ∧ t ∈ node.ports := by
  simp only [aliasReaders, hn, List.mem_filterMap, Arena.mem_values_iff,
    Option.ite_none_right_eq_some, Bool.and_eq_true, Option.any_eq_true_iff_get,
    decide_eq_true_eq, List.contains_eq_mem, Option.some.injEq]
  constructor
  · rintro ⟨port, ⟨p, hp⟩, ⟨⟨hsome, ht⟩, hne⟩, rfl⟩
    exact ⟨hne, p, port, _, hp, rfl, (Option.some_get hsome).symm, ht⟩
  · rintro ⟨hne, p, port, t, hp, rfl, ha, ht⟩
    exact ⟨port, ⟨p, hp⟩, ⟨⟨by simp [ha], by simpa [ha] using ht⟩, hne⟩, rfl⟩

theorem mem_edgesOf_iff (ports : List PortId) (edge : Edge) :
    edge ∈ graph.edgesOf ports ↔ ∃ p ∈ ports, ∃ port e, graph.port? p = some port ∧
      e ∈ port.edges ∧ graph.edge? e = some edge := by
  simp only [edgesOf, List.mem_flatMap, List.mem_filterMap]
  constructor
  · rintro ⟨port, ⟨p, hp, hport⟩, e, he, hedge⟩
    exact ⟨p, hp, port, e, hport, he, hedge⟩
  · rintro ⟨p, hp, port, e, hport, he, hedge⟩
    exact ⟨port, ⟨p, hp, hport⟩, e, he, hedge⟩

namespace Wired

-- A node that reads another through an alias depends on it.
theorem dependent_of_alias (hw : graph.Wired) {p t : PortId} {port target : Port}
    (hp : graph.port? p = some port) (ha : port.aliasOf = some t)
    (ht : graph.port? t = some target) (hne : port.node ≠ target.node) :
    port.node ∈ graph.dependents target.node := by
  obtain ⟨node, hn⟩ := hw.owner ht
  have hmem := (hw.mem_ports_iff hn t).mpr ⟨target, ht, rfl⟩
  simp only [dependents, hn]
  exact List.mem_append_right _
    ((mem_aliasReaders_iff hn _).mpr ⟨hne, p, port, t, hp, rfl, ha, hmem⟩)

-- A node that reads another through an edge depends on it.
theorem dependent_of_edge (hw : graph.Wired) {p : PortId} {port source : Port} {e : EdgeId}
    {edge : Edge} (hp : graph.port? p = some port) (hd : port.direction = .input)
    (he : e ∈ port.edges) (hedge : graph.edge? e = some edge)
    (hs : graph.port? edge.source = some source) : port.node ∈ graph.dependents source.node := by
  obtain ⟨node, hn⟩ := hw.owner hs
  obtain ⟨source', hs', hout, hlist⟩ := hw.source hedge
  obtain rfl := Option.some.inj (hs.symm.trans hs')
  have hmem : edge.source ∈ node.outputs := by
    have ho := hw.owned hs
    rw [portAt?_eq, hn, hout] at ho
    exact List.mem_of_getElem? ho
  have hdest := hw.destination_eq hp hd he hedge
  simp only [dependents, hn]
  refine List.mem_append_left _ (List.mem_filterMap.mpr ⟨edge, ?_, ?_⟩)
  · exact (mem_edgesOf_iff _ _).mpr ⟨_, hmem, source, e, hs, hlist, hedge⟩
  · rw [hdest, hp]
    rfl

-- Dependents are nodes that are there.
theorem dependents_subset (hw : graph.Wired) (id : NodeId) :
    graph.dependents id ⊆ graph.nodes.ids := by
  intro r hr
  have hlive : ∃ p port, graph.port? p = some port ∧ port.node = r := by
    simp only [dependents] at hr
    split at hr
    · simp at hr
    next node hn =>
    rcases List.mem_append.mp hr with hr | hr
    · obtain ⟨edge, -, hedge⟩ := List.mem_filterMap.mp hr
      obtain ⟨port, hp, hnode⟩ := Option.map_eq_some_iff.mp hedge
      exact ⟨_, port, hp, hnode⟩
    · obtain ⟨-, p, port, -, hp, hnode, -⟩ := (mem_aliasReaders_iff hn r).mp hr
      exact ⟨p, port, hp, hnode⟩
  obtain ⟨p, port, hp, rfl⟩ := hlive
  exact (graph.nodes.mem_ids_iff _).mpr (hw.owner hp)

theorem mem_downstream_iff (hw : graph.Wired) (a n : NodeId) :
    n ∈ graph.downstream a ↔ ReflTransGen (Closure.Step graph.dependents) a n :=
  Closure.mem_reached_iff _ graph.nodes.ids hw.dependents_subset _ (by simp) a n

theorem mem_downstream_self (hw : graph.Wired) (a : NodeId) : a ∈ graph.downstream a :=
  (hw.mem_downstream_iff a a).mpr .refl

theorem downstream_trans (hw : graph.Wired) {a b c : NodeId} (hb : b ∈ graph.downstream a)
    (hc : c ∈ graph.dependents b) : c ∈ graph.downstream a := by
  rw [hw.mem_downstream_iff] at hb ⊢
  exact hb.tail hc

end Wired

-- Results that are out of date change nothing in who reads whom.
@[simp] theorem dependents_invalidate (a n : NodeId) :
    (graph.invalidate a).dependents n = graph.dependents n := by
  have hports : ∀ node : Node, node.invalidate.ports = node.ports := fun _ => rfl
  simp only [dependents, aliasReaders, node?_invalidate]
  cases graph.node? n with
  | none => rfl
  | some node =>
      simp only [Option.map_some]
      split <;> rfl

@[simp] theorem downstream_invalidate (a n : NodeId) :
    (graph.invalidate a).downstream n = graph.downstream n := by
  have hnext : (graph.invalidate a).dependents = graph.dependents :=
    funext fun n => dependents_invalidate a n
  have hsize : (graph.invalidate a).nodes.size = graph.nodes.size := Arena.size_update _ _
  rw [downstream, hnext, hsize, downstream]

end Dataflow.Graph
