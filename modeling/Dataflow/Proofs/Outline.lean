import Dataflow.Proofs.Intact

namespace Dataflow.Graph

open Relation

variable {graph : Graph} {n c : NodeId}

-- The first node stands directly inside the second.
def Inside (graph : Graph) (n c : NodeId) : Prop :=
  graph.parent? n = some c

namespace Outlined

variable (ho : graph.Outlined)

include ho

section Links

theorem inside_iff : graph.Inside n c ↔ ∃ inner outer, graph.node? n = some inner ∧
    graph.node? c = some outer ∧ graph.outline.Under inner.item outer.item := by
  rw [Inside, parent?, Option.bind_eq_some_iff]
  constructor
  · rintro ⟨inner, hn, hparent⟩
    obtain ⟨item, hunder, hitem⟩ := Option.bind_eq_some_iff.mp hparent
    obtain ⟨outer, hc, rfl⟩ := ho.nodeOfItem?_eq_some_iff.mp hitem
    exact ⟨inner, outer, hn, hc, hunder⟩
  · rintro ⟨inner, outer, hn, hc, hunder⟩
    exact ⟨inner, hn, Option.bind_eq_some_iff.mpr
      ⟨outer.item, hunder, ho.nodeOfItem?_eq_some_iff.mpr ⟨outer, hc, rfl⟩⟩⟩

-- What stands inside no other node hangs from the top.
theorem parent?_eq_none_iff {node : Node} (hn : graph.node? n = some node) :
    graph.parent? n = none ↔ graph.outline.Under node.item graph.root := by
  constructor
  · intro hnone
    obtain ⟨parent, hunder⟩ := ho.placed hn
    rcases ho.container_root_or_node hunder with rfl | ⟨c, outer, hc, rfl⟩
    · exact hunder
    · have hinside := ho.inside_iff.mpr ⟨node, outer, hn, hc, hunder⟩
      cases hnone.symm.trans hinside
  · intro hunder
    cases h : graph.parent? n with
    | none => rfl
    | some c =>
        obtain ⟨inner, outer, hn', hc, hinside⟩ := ho.inside_iff.mp h
        obtain rfl := Option.some.inj (hn.symm.trans hn')
        exact absurd (Option.some.inj (hinside.symm.trans hunder)) (ho.item_ne_root hc)

theorem mem_children_iff {container : Option NodeId} :
    n ∈ graph.children container ↔ ∃ item node, graph.containerItem? container = some item ∧
      graph.node? n = some node ∧ graph.outline.Under node.item item := by
  rw [children]
  cases graph.containerItem? container with
  | none => simp
  | some item =>
      rw [List.mem_filterMap]
      constructor
      · rintro ⟨child, hchild, hitem⟩
        obtain ⟨node, hn, rfl⟩ := ho.nodeOfItem?_eq_some_iff.mp hitem
        exact ⟨item, node, rfl, hn, ho.tidy.listed.mp hchild⟩
      · rintro ⟨_, node, hitem, hn, hunder⟩
        obtain rfl := Option.some.inj hitem
        exact ⟨node.item, ho.tidy.listed.mpr hunder,
          ho.nodeOfItem?_eq_some_iff.mpr ⟨node, hn, rfl⟩⟩

theorem mem_children_some_iff : n ∈ graph.children (some c) ↔ graph.Inside n c := by
  rw [ho.mem_children_iff, ho.inside_iff]
  constructor
  · rintro ⟨item, inner, hitem, hn, hunder⟩
    obtain ⟨outer, hc, rfl⟩ := Option.map_eq_some_iff.mp hitem
    exact ⟨inner, outer, hn, hc, hunder⟩
  · rintro ⟨inner, outer, hn, hc, hunder⟩
    exact ⟨outer.item, inner, Option.map_eq_some_iff.mpr ⟨outer, hc, rfl⟩, hn, hunder⟩

theorem mem_children_none_iff :
    n ∈ graph.children none ↔ n ∈ graph.nodes.ids ∧ graph.parent? n = none := by
  rw [ho.mem_children_iff, Arena.mem_ids_iff]
  constructor
  · rintro ⟨_, node, hitem, hn, hunder⟩
    obtain rfl := Option.some.inj hitem
    exact ⟨⟨node, hn⟩, (ho.parent?_eq_none_iff hn).mpr hunder⟩
  · rintro ⟨⟨node, hn⟩, hnone⟩
    exact ⟨graph.root, node, rfl, hn, (ho.parent?_eq_none_iff hn).mp hnone⟩

theorem nodup_children (container : Option NodeId) : (graph.children container).Nodup := by
  rw [children]
  split
  · exact ho.nodup_filterMap (ho.tidy.once _)
  · exact List.nodup_nil

end Links

section Nesting

-- The way from a node to one that it stands inside, at any depth, goes over nodes only.
theorem transGen_inside_iff : TransGen graph.Inside n c ↔ ∃ inner outer,
    graph.node? n = some inner ∧ graph.node? c = some outer ∧
      TransGen graph.outline.Under inner.item outer.item := by
  constructor
  · intro h
    induction h with
    | single hinside =>
        obtain ⟨inner, outer, hn, hc, hunder⟩ := ho.inside_iff.mp hinside
        exact ⟨inner, outer, hn, hc, .single hunder⟩
    | tail _ hinside ih =>
        obtain ⟨inner, between, hn, hb, hup⟩ := ih
        obtain ⟨between', outer, hb', hc, hunder⟩ := ho.inside_iff.mp hinside
        obtain rfl := Option.some.inj (hb.symm.trans hb')
        exact ⟨inner, outer, hn, hc, hup.tail hunder⟩
  · rintro ⟨inner, outer, hn, hc, hup⟩
    generalize hitem : inner.item = item at hup
    induction hup using TransGen.head_induction_on generalizing n inner with
    | single hunder =>
        subst hitem
        exact .single (ho.inside_iff.mpr ⟨inner, outer, hn, hc, hunder⟩)
    | head hunder hup ih =>
        subst hitem
        rcases ho.container_root_or_node hunder with rfl | ⟨b, between, hb, rfl⟩
        · -- nothing stands above the top
          obtain ⟨above, habove, -⟩ := TransGen.head'_iff.mp hup
          cases ho.top.symm.trans habove
        · exact .head (ho.inside_iff.mpr ⟨inner, between, hn, hb, hunder⟩) (ih between hb rfl)

theorem encloses_iff_inside : graph.encloses c n = true ↔ TransGen graph.Inside n c := by
  rw [ho.transGen_inside_iff]
  constructor
  · intro h
    cases hc : graph.node? c with
    | none => simp [encloses, hc] at h
    | some outer =>
        cases hn : graph.node? n with
        | none => simp [encloses, hn] at h
        | some inner => exact ⟨inner, outer, rfl, rfl, (ho.encloses_iff hc hn).mp h⟩
  · rintro ⟨inner, outer, hn, hc, hup⟩
    exact (ho.encloses_iff hc hn).mpr hup

theorem not_encloses_self (n : NodeId) : graph.encloses n n = false := by
  rw [← Bool.not_eq_true, ho.encloses_iff_inside, ho.transGen_inside_iff]
  rintro ⟨inner, outer, hn, hn', hup⟩
  obtain rfl := Option.some.inj (hn.symm.trans hn')
  exact ho.tidy.irrefl _ hup

-- The ways out of containers end.
theorem founded_inside : WellFounded fun c n => graph.Inside n c := by
  refine Subrelation.wf (fun {c n} h => ?_) (InvImage.wf
    (fun id => ((graph.node? id).map (·.item)).getD graph.root) ho.tidy.founded_above)
  obtain ⟨inner, outer, hn, hc, hunder⟩ := ho.inside_iff.mp h
  simp only [InvImage, hn, hc, Option.map_some, Option.getD_some]
  exact hunder

end Nesting

section Order

theorem perm_nodesInOrder : graph.nodesInOrder.Perm graph.nodes.ids := by
  refine (List.perm_ext_iff_of_nodup ho.nodup_nodesInOrder graph.nodes.ids_nodup).mpr fun id => ?_
  rw [ho.mem_nodesInOrder_iff, Arena.mem_ids_iff]
  rfl

-- Nothing is listed after a node that it encloses.
theorem ordered_nodesInOrder :
    graph.nodesInOrder.Pairwise fun a b => graph.encloses b a = false := by
  refine (ho.tidy.ordered_descendants graph.root).filterMap _ fun a b hab n hn c hc => ?_
  obtain ⟨inner, hinner, rfl⟩ := ho.nodeOfItem?_eq_some_iff.mp hn
  obtain ⟨outer, houter, rfl⟩ := ho.nodeOfItem?_eq_some_iff.mp hc
  rw [← Bool.not_eq_true, ho.encloses_iff houter hinner]
  exact hab

theorem idxOf_lt_of_encloses (h : graph.encloses c n = true) :
    graph.nodesInOrder.idxOf c < graph.nodesInOrder.idxOf n := by
  obtain ⟨inner, outer, hn, hc, -⟩ := ho.transGen_inside_iff.mp (ho.encloses_iff_inside.mp h)
  have hmem : n ∈ graph.nodesInOrder := ho.mem_nodesInOrder_iff.mpr ⟨inner, hn⟩
  have hmem' : c ∈ graph.nodesInOrder := ho.mem_nodesInOrder_iff.mpr ⟨outer, hc⟩
  have hlt := List.idxOf_lt_length_of_mem hmem
  have hlt' := List.idxOf_lt_length_of_mem hmem'
  by_contra hnot
  rcases Nat.lt_or_eq_of_le (Nat.le_of_not_lt hnot) with hbefore | heq
  · have hfalse := List.pairwise_iff_getElem.mp ho.ordered_nodesInOrder _ _ hlt hlt' hbefore
    rw [List.getElem_idxOf hlt, List.getElem_idxOf hlt', h] at hfalse
    cases hfalse
  · obtain rfl : n = c := (List.idxOf_inj hmem).mp heq
    rw [ho.not_encloses_self] at h
    cases h

end Order

end Outlined

-- Whatever was done to a graph, what can be asked about its outline fits together: the list
-- of all nodes, the container of a node, what stands directly inside a container, and what
-- stands inside it at any depth.
theorem reachable_outline_agrees (h : Reachable graph) :
    graph.nodesInOrder.Perm graph.nodes.ids ∧
    (∀ c n, graph.encloses c n = true →
      graph.nodesInOrder.idxOf c < graph.nodesInOrder.idxOf n) ∧
    (∀ c n, graph.parent? n = some c ↔ n ∈ graph.children (some c)) ∧
    (∀ n, n ∈ graph.children none ↔ n ∈ graph.nodes.ids ∧ graph.parent? n = none) ∧
    (∀ container, (graph.children container).Nodup) ∧
    (∀ c n, graph.encloses c n = true ↔ TransGen graph.Inside n c) ∧
    (∀ n, graph.encloses n n = false) ∧
    (∀ a b c, graph.encloses a b = true → graph.encloses b c = true →
      graph.encloses a c = true) ∧
    WellFounded fun c n => graph.parent? n = some c := by
  have ho := h.outlined
  refine ⟨ho.perm_nodesInOrder, fun _ _ => ho.idxOf_lt_of_encloses,
    fun _ _ => ho.mem_children_some_iff.symm, fun _ => ho.mem_children_none_iff,
    ho.nodup_children, fun _ _ => ho.encloses_iff_inside, ho.not_encloses_self,
    fun a b c hab hbc => ?_, ho.founded_inside⟩
  rw [ho.encloses_iff_inside] at hab hbc ⊢
  exact hbc.trans hab

-- A container that holds a node in a container, beside another node.
def housing : List Operation :=
  [.addNode .relay ⟨1⟩, .addNode .relay ⟨2⟩, .addNodeIn .relay ⟨3⟩ ⟨1⟩, .addNodeIn .relay ⟨4⟩ ⟨3⟩]

def housed : Graph :=
  (Graph.new .standard).run housing

theorem housed_outline_agrees :
    housed.nodesInOrder.Perm [⟨1⟩, ⟨2⟩, ⟨3⟩, ⟨4⟩] ∧
    housed.nodesInOrder.idxOf ⟨1⟩ < housed.nodesInOrder.idxOf ⟨4⟩ ∧
    housed.parent? ⟨4⟩ = some ⟨3⟩ ∧ housed.parent? ⟨2⟩ = none ∧
    housed.encloses ⟨1⟩ ⟨4⟩ = true ∧ housed.encloses ⟨2⟩ ⟨2⟩ = false := by
  obtain ⟨hperm, horder, hchildren, htop, -, -, hself, htrans, -⟩ :=
    reachable_outline_agrees (Reachable.run (.new .standard) housing)
  have hdeep : housed.encloses ⟨1⟩ ⟨4⟩ = true := htrans ⟨1⟩ ⟨3⟩ ⟨4⟩ (by decide) (by decide)
  exact ⟨hperm, horder _ _ hdeep, (hchildren _ _).mpr (by decide), ((htop _).mp (by decide)).2,
    hdeep, hself _⟩

end Dataflow.Graph
