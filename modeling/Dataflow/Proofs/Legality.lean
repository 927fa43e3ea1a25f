import Dataflow.Proofs.Stocked

namespace Dataflow.Graph

open Relation

variable {graph : Graph}

-- Which of two ports would be the source does not depend on the order they are given in, and
-- neither does the reason why they may not be joined. Where both are missing, the first one
-- is named.
theorem orientConnection_comm {a b : PortId}
    (h : (graph.port? a).isSome ∨ (graph.port? b).isSome) :
    graph.orientConnection a b = graph.orientConnection b a := by
  unfold orientConnection
  by_cases hab : a = b
  · rw [if_pos hab, if_pos hab.symm]
  rw [if_neg hab, if_neg (Ne.symm hab)]
  cases ha : graph.port? a with
  | none =>
      cases hb : graph.port? b with
      | none => simp [ha, hb] at h
      | some portB => rfl
  | some portA =>
      cases hb : graph.port? b with
      | none => rfl
      | some portB => cases hA : portA.direction <;> cases hB : portB.direction <;> simp [hA, hB]

theorem addEdge_comm {a b : PortId} (h : (graph.port? a).isSome ∨ (graph.port? b).isSome) :
    graph.addEdge a b = graph.addEdge b a := by
  rw [addEdge, addEdge, checkConnection, checkConnection, orientConnection_comm h]

theorem Allows.not_encloses (ho : graph.Outlined) {s d : PortId} (h : graph.Allows s d)
    {source destination : Port} (hs : graph.port? s = some source)
    (hd : graph.port? d = some destination) :
    source.node ≠ destination.node ∧
    graph.encloses source.node destination.node = false ∧
    graph.encloses destination.node source.node = false := by
  obtain ⟨source', destination', outer, inner, hs', hd', houter, hinner, hne, hin, hout, -⟩ :=
    h.ports
  obtain rfl := Option.some.inj (hs.symm.trans hs')
  obtain rfl := Option.some.inj (hd.symm.trans hd')
  refine ⟨hne, ?_, ?_⟩
  · rw [← Bool.not_eq_true, ho.encloses_iff houter hinner]
    exact hout
  · rw [← Bool.not_eq_true, ho.encloses_iff hinner houter]
    exact hin

-- An edge is known by its ends, whichever of them is named first: the source is the output.
theorem Legal.eq_of_ends (hg : graph.Legal) (hw : graph.Wired) {e e' : EdgeId} {edge edge' : Edge}
    (he : graph.edge? e = some edge) (he' : graph.edge? e' = some edge')
    (h : edge.source = edge'.source ∧ edge.destination = edge'.destination ∨
      edge.source = edge'.destination ∧ edge.destination = edge'.source) : e = e' := by
  rcases h with ⟨hsource, hdestination⟩ | ⟨hcrossed, -⟩
  · obtain ⟨s, d⟩ := edge
    obtain ⟨s', d'⟩ := edge'
    dsimp only at hsource hdestination
    subst hsource hdestination
    exact hg.single he he'
  · obtain ⟨port, hp, hout, -⟩ := hw.source he
    obtain ⟨port', hp', hin, -⟩ := hw.destination he'
    rw [hcrossed, hp'] at hp
    rw [← Option.some.inj hp, hin] at hout
    cases hout

-- Whatever was done to a graph, its edges are as they would have to be to be made now, and
-- whether two ports can be joined does not depend on which is given first.
theorem reachable_edges_legal (h : Reachable graph) :
    (∀ e edge, graph.edge? e = some edge → ∃ source destination,
      graph.port? edge.source = some source ∧ graph.port? edge.destination = some destination ∧
      source.direction = .output ∧ destination.direction = .input ∧
      source.node ≠ destination.node ∧
      graph.encloses source.node destination.node = false ∧
      graph.encloses destination.node source.node = false ∧
      (graph.settings.enforcePortTypes = true → source.type.feeds destination.type = true)) ∧
    (∀ e e' edge edge', graph.edge? e = some edge → graph.edge? e' = some edge' →
      (edge.source = edge'.source ∧ edge.destination = edge'.destination ∨
        edge.source = edge'.destination ∧ edge.destination = edge'.source) → e = e') ∧
    ∀ a b, (graph.port? a).isSome ∨ (graph.port? b).isSome →
      graph.addEdge a b = graph.addEdge b a := by
  have hw := h.healthy.wired
  refine ⟨fun e edge he => ?_, fun e e' edge edge' he he' => h.legal.eq_of_ends hw he he',
    fun a b => addEdge_comm⟩
  have hallows := h.legal.allowed he
  obtain ⟨source, hs, hout, -⟩ := hw.source he
  obtain ⟨destination, hd, hin, -⟩ := hw.destination he
  obtain ⟨hne, hunder, hover⟩ := hallows.not_encloses h.outlined hs hd
  refine ⟨source, destination, hs, hd, hout, hin, hne, hunder, hover, fun henforce => ?_⟩
  obtain ⟨_, _, _, _, hs', hd', -, -, -, -, -, htypes⟩ := hallows.ports
  obtain rfl := Option.some.inj (hs.symm.trans hs')
  obtain rfl := Option.some.inj (hd.symm.trans hd')
  exact htypes henforce

-- The edge between the two relays, and the one way that is left to join them.
theorem relays_edges_legal :
    relays.edge? ⟨1⟩ = some ⟨⟨2⟩, ⟨3⟩⟩ ∧ (∃ source, relays.port? ⟨2⟩ = some source ∧
      source.direction = .output ∧ relays.encloses source.node ⟨2⟩ = false) ∧
    relays.addEdge ⟨4⟩ ⟨1⟩ = relays.addEdge ⟨1⟩ ⟨4⟩ := by
  obtain ⟨hlegal, -, hcomm⟩ := reachable_edges_legal relays_reachable
  obtain ⟨source, destination, hs, hd, hout, -, -, hunder, -⟩ := hlegal ⟨1⟩ ⟨⟨2⟩, ⟨3⟩⟩ rfl
  obtain rfl := Option.some.inj hd
  exact ⟨rfl, ⟨source, hs, hout, hunder⟩, hcomm ⟨4⟩ ⟨1⟩ (.inl rfl)⟩

end Dataflow.Graph
