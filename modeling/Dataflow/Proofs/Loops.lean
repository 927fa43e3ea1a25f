import Dataflow.Proofs.Reachable

namespace Dataflow.Graph

variable {graph : Graph}

-- An edge is refused for closing a loop just where it would close one.
theorem Healthy.addEdge_cycle_iff (hg : graph.Healthy) {a b s d : PortId}
    (ho : graph.orientConnection a b = .ok (s, d)) :
    graph.addEdge a b = .error .cycle ↔ (graph.join s d).hasCycle = true := by
  obtain ⟨-, source, destination, hs, hd, hout, hin, -⟩ := orientConnection_eq_ok ho
  have hjoined := hg.wired.join hs hd hout hin
  have hloop : (graph.join s d).hasCycle = true ↔ graph.closesLoop s d = true := by
    rw [← Bool.not_eq_false, hjoined.hasCycle_eq_false_iff, hg.acyclic.join_iff, not_not,
      hg.wired.closesLoop_iff ⟨_, hs⟩ ⟨_, hd⟩]
  rw [hloop]
  simp only [addEdge, checkConnection, ho]
  cases graph.closesLoop s d with
  | true => simp
  | false => simp [hd]

-- The same for aliases. The check looks at a graph in which the port still has its old
-- target, and comes to the same as one without it.
theorem Healthy.linkAlias_cycle_iff (hg : graph.Healthy) {p t : PortId} {port target : Port}
    (hp : graph.port? p = some port) (ht : graph.port? t = some target)
    (hd : port.direction = target.direction) :
    graph.linkAlias p t = .error (.aliasCycle p t) ↔ (graph.forward p t).hasCycle = true := by
  have hforwarded := hg.wired.forward hp ht hd
  have hloop : (graph.forward p t).hasCycle = true ↔ graph.closesLoop t p = true := by
    rw [← Bool.not_eq_false, hforwarded.hasCycle_eq_false_iff, hg.acyclic.forward_iff hp, not_not,
      hg.wired.closesLoop_iff ⟨_, ht⟩ ⟨_, hp⟩]
  rw [hloop]
  simp only [linkAlias, hp, ht, hd, ne_eq, not_true_eq_false, if_false]
  cases graph.closesLoop t p with
  | true => simp
  | false => simp

-- No graph that can come about has a loop, and nothing is refused for a loop that it
-- would not close.
theorem reachable_loops_rejected_exactly (h : Reachable graph) :
    graph.hasCycle = false ∧
    (∀ a b s d, graph.orientConnection a b = .ok (s, d) →
      (graph.addEdge a b = .error .cycle ↔ (graph.join s d).hasCycle = true)) ∧
    ∀ p t port target, graph.port? p = some port → graph.port? t = some target →
      port.direction = target.direction →
      (graph.linkAlias p t = .error (.aliasCycle p t) ↔ (graph.forward p t).hasCycle = true) := by
  have hg := h.healthy
  refine ⟨hg.wired.hasCycle_eq_false_iff.mpr hg.acyclic, ?_, ?_⟩
  · intro a b s d ho
    exact hg.addEdge_cycle_iff ho
  · intro p t port target hp ht hd
    exact hg.linkAlias_cycle_iff hp ht hd

theorem relays_refuse_the_way_back :
    relays.hasCycle = false ∧ relays.addEdge ⟨4⟩ ⟨1⟩ = .error .cycle ∧
      relays.linkAlias ⟨1⟩ ⟨3⟩ = .error (.aliasCycle ⟨1⟩ ⟨3⟩) := by
  obtain ⟨hfree, hedge, halias⟩ := reachable_loops_rejected_exactly relays_reachable
  refine ⟨hfree, (hedge ⟨4⟩ ⟨1⟩ ⟨4⟩ ⟨1⟩ rfl).mpr ?_, (halias ⟨1⟩ ⟨3⟩ _ _ rfl rfl rfl).mpr ?_⟩
  · decide
  · decide

end Dataflow.Graph
