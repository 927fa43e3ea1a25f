import Dataflow.Graph.Dependency
import Dataflow.Proofs.Closure
import Dataflow.Proofs.Graph.Wired

namespace Dataflow.Graph

open Relation

-- A direct dependency of the second port on the first.
inductive Arc (graph : Graph) : PortId → PortId → Prop where
  | through {id : NodeId} {node : Node} {i o : PortId} (hn : graph.node? id = some node)
      (hu : node.units ≠ []) (hi : i ∈ node.inputs) (ho : o ∈ node.outputs) : Arc graph i o
  | along {e : EdgeId} {edge : Edge} (he : graph.edge? e = some edge) :
      Arc graph edge.source edge.destination
  | forwards {p t : PortId} {port : Port} (hp : graph.port? p = some port)
      (ht : port.aliasOf = some t) : Arc graph t p

-- No port depends on itself.
def Acyclic (graph : Graph) : Prop :=
  ∀ p, ¬ TransGen graph.Arc p p

theorem mem_throughNode_iff (node : Node) (a b : PortId) :
    (a, b) ∈ throughNode node ↔ node.units ≠ [] ∧ a ∈ node.inputs ∧ b ∈ node.outputs := by
  simp only [throughNode]
  split
  · next h => simp [List.isEmpty_iff.mp h]
  · next h => simpa using fun _ _ => mt List.isEmpty_iff.mpr h

theorem throughAlias_eq_some_iff (entry : PortId × Port) (a b : PortId) :
    throughAlias entry = some (a, b) ↔ entry.1 = b ∧ entry.2.aliasOf = some a := by
  simp only [throughAlias, Option.map_eq_some_iff, Prod.mk.injEq]
  constructor
  · rintro ⟨t, ht, rfl, rfl⟩
    exact ⟨rfl, ht⟩
  · rintro ⟨rfl, ht⟩
    exact ⟨a, ht, rfl, rfl⟩

theorem mem_dependencies_iff (graph : Graph) (a b : PortId) :
    (a, b) ∈ graph.dependencies ↔ graph.Arc a b := by
  simp only [dependencies, List.mem_append, List.mem_flatMap, List.mem_map, List.mem_filterMap,
    Arena.mem_values_iff, mem_throughNode_iff, throughAlias_eq_some_iff]
  constructor
  · rintro ((⟨node, ⟨id, hn⟩, hu, hi, ho⟩ | ⟨edge, ⟨e, he⟩, heq⟩) | ⟨⟨p, port⟩, hp, rfl, ht⟩)
    · exact .through hn hu hi ho
    · obtain ⟨rfl, rfl⟩ := Prod.mk.inj heq
      exact .along he
    · exact .forwards ((graph.ports.mem_entries_iff _ _).mp hp) ht
  · intro h
    cases h with
    | through hn hu hi ho => exact .inl (.inl ⟨_, ⟨_, hn⟩, hu, hi, ho⟩)
    | along he => exact .inl (.inr ⟨_, ⟨_, he⟩, rfl⟩)
    | forwards hp ht => exact .inr ⟨(_, _), (graph.ports.mem_entries_iff _ _).mpr hp, rfl, ht⟩

theorem mem_stepsFrom_iff (arcs : List (PortId × PortId)) (a b : PortId) :
    b ∈ stepsFrom arcs a ↔ (a, b) ∈ arcs := by
  simp only [stepsFrom, List.mem_filterMap, Option.ite_none_right_eq_some, Option.some.injEq]
  constructor
  · rintro ⟨⟨x, y⟩, h, rfl, rfl⟩
    exact h
  · intro h
    exact ⟨(a, b), h, rfl, rfl⟩

theorem step_stepsFrom (graph : Graph) :
    Closure.Step (stepsFrom graph.dependencies) = graph.Arc := by
  funext a b
  rw [Closure.Step, mem_stepsFrom_iff, mem_dependencies_iff]

namespace Wired

variable {graph : Graph}

-- Dependencies are between ports that are there.
theorem live_of_arc (hw : graph.Wired) {a b : PortId} (h : graph.Arc a b) :
    (∃ port, graph.port? a = some port) ∧ ∃ port, graph.port? b = some port := by
  cases h with
  | through hn _ hi ho =>
      obtain ⟨a', ha, -⟩ := (hw.mem_ports_iff hn a).mp (List.mem_append_left _ hi)
      obtain ⟨b', hb, -⟩ := (hw.mem_ports_iff hn b).mp (List.mem_append_right _ ho)
      exact ⟨⟨a', ha⟩, ⟨b', hb⟩⟩
  | along he =>
      obtain ⟨a', ha, -⟩ := hw.source he
      obtain ⟨b', hb, -⟩ := hw.destination he
      exact ⟨⟨a', ha⟩, ⟨b', hb⟩⟩
  | forwards hp ht =>
      obtain ⟨a', ha, -⟩ := hw.target hp ht
      exact ⟨⟨a', ha⟩, ⟨_, hp⟩⟩

theorem mem_reached_iff (hw : graph.Wired) (start target : PortId) :
    target ∈ Closure.reached (stepsFrom graph.dependencies) graph.ports.size start ↔
      ReflTransGen graph.Arc start target := by
  rw [← step_stepsFrom]
  refine Closure.mem_reached_iff _ graph.ports.ids ?_ _ (by simp) start target
  intro a b hb
  rw [mem_stepsFrom_iff, mem_dependencies_iff] at hb
  exact (graph.ports.mem_ids_iff b).mpr (hw.live_of_arc hb).2

theorem leadsTo_iff (hw : graph.Wired) (source target : PortId) :
    graph.leadsTo source target = true ↔ ReflTransGen graph.Arc source target := by
  rw [leadsTo, List.contains_eq_mem, decide_eq_true_iff, hw.mem_reached_iff]

theorem closesLoop_iff (hw : graph.Wired) {s t : PortId}
    (hs : ∃ port, graph.port? s = some port) (ht : ∃ port, graph.port? t = some port) :
    graph.closesLoop s t = true ↔ ReflTransGen graph.Arc t s := by
  have hs' := (graph.ports.contains_iff s).mpr hs
  have ht' := (graph.ports.contains_iff t).mpr ht
  simp only [closesLoop, hs', ht', Bool.true_and, Bool.or_eq_true, decide_eq_true_iff,
    hw.leadsTo_iff]
  constructor
  · rintro (rfl | h)
    · exact .refl
    · exact h
  · exact .inr

theorem hasCycle_iff (hw : graph.Wired) :
    graph.hasCycle = true ↔ ∃ p, TransGen graph.Arc p p := by
  simp only [hasCycle, List.any_eq_true, List.contains_eq_mem, decide_eq_true_iff, Prod.exists,
    mem_dependencies_iff, hw.mem_reached_iff]
  constructor
  · rintro ⟨a, b, hab, hba⟩
    exact ⟨a, TransGen.head' hab hba⟩
  · rintro ⟨a, h⟩
    obtain ⟨b, hab, hba⟩ := TransGen.head'_iff.mp h
    exact ⟨a, b, hab, hba⟩

theorem hasCycle_eq_false_iff (hw : graph.Wired) : graph.hasCycle = false ↔ graph.Acyclic := by
  rw [← Bool.not_eq_true, hw.hasCycle_iff, not_exists]
  rfl

end Wired

end Dataflow.Graph
