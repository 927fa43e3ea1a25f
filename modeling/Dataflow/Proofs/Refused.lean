import Dataflow.Proofs.Outline

namespace Dataflow

open Relation

namespace Forest

universe u

variable {α : Type u} {forest loose other : Forest α} {parent child top : ItemId}

-- An item gone behind its siblings, with nothing else moved.
structure PutLast (forest : Forest α) (parent child : ItemId) (other : Forest α) : Prop where
  data : ∀ a, other.get? a = forest.get? a
  above : ∀ a, other.parent? a = forest.parent? a
  below : ∀ a, other.children a =
    if a = parent then (forest.children a).erase child ++ [child] else forest.children a

namespace Tidy

variable (ht : forest.Tidy)

include ht

-- What is taken off its parent and given back to it comes last there.
theorem putLast (hunder : forest.Under child parent)
    (hloose : Detached forest child loose) (hattached : Attached loose parent child other) :
    PutLast forest parent child other where
  data a := (hattached.data a).trans (hloose.data a)
  above a := by
    rw [hattached.above]
    split
    · next ha => exact ha ▸ hunder.symm
    · next ha => rw [hloose.above, if_neg ha]
  below a := by
    rw [hattached.below, hloose.below]
    split
    · rfl
    · next ha =>
      refine List.erase_of_not_mem fun hmem => ha ?_
      exact Option.some.inj ((ht.listed.mp hmem).symm.trans hunder)

variable (h : PutLast forest parent child other)

include h

-- Its siblings have kept their places if it was the last of them before.
theorem children_putLast_iff :
    other.children parent = forest.children parent ↔
      (forest.children parent).getLast? = some child := by
  rw [h.below, if_pos rfl]
  constructor
  · intro heq
    rw [← heq, List.getLast?_concat]
  · intro hlast
    obtain ⟨front, hfront⟩ := List.getLast?_eq_some_iff.mp hlast
    have hnot : child ∉ front := by
      have honce := ht.once parent
      rw [hfront] at honce
      exact fun hmem => (List.nodup_append.mp honce).2.2 child hmem child (by simp) rfl
    rw [hfront, List.erase_append_right _ hnot, List.erase_cons_head, List.append_nil]

theorem all_children_putLast_iff :
    other.children = forest.children ↔ (forest.children parent).getLast? = some child := by
  rw [← ht.children_putLast_iff h]
  refine ⟨fun heq => congrFun heq parent, fun heq => funext fun a => ?_⟩
  by_cases ha : a = parent
  · rwa [ha]
  · rw [h.below, if_neg ha]

-- The listing of what stands below an item tells the order of all children there.
theorem descendants_putLast_iff (ht' : other.Tidy) (htop : ReflTransGen forest.Under parent top) :
    other.descendants top = forest.descendants top ↔
      (forest.children parent).getLast? = some child := by
  have habove : other.parent? = forest.parent? := funext h.above
  constructor
  · intro heq
    have hsame : other.Under = forest.Under := by
      funext a b
      rw [Under, Under, habove]
    rw [← ht.children_putLast_iff h, ht.children_eq_filter htop,
      ht'.children_eq_filter (hsame ▸ htop), heq, habove]
  · intro hlast
    have hchildren := (ht.all_children_putLast_iff h).mpr hlast
    have hwalks := ht'.walks_descendants top
    rw [hchildren] at hwalks
    exact (hwalks.congr fun a _ => congrFun hchildren.symm a).unique (ht.walks_descendants top)

end Tidy

end Forest

namespace Graph

open Dataflow.Forest

variable {graph other : Graph} {id : NodeId} {container : Option NodeId} {e : GraphError}

namespace Outlined

variable (ho : graph.Outlined)

include ho

-- The items below the top can be told from the list of nodes.
theorem descendants_root_eq : graph.outline.descendants graph.root =
    graph.nodesInOrder.filterMap fun n => (graph.node? n).map (·.item) := by
  rw [nodesInOrder, List.filterMap_filterMap]
  refine (List.filterMap_some.symm.trans (List.filterMap_congr fun item hmem => ?_))
  obtain ⟨n, node, hn, hitem⟩ := ho.exists_node_of_mem hmem
  rw [ho.nodeOfItem?_eq_some_iff.mpr ⟨node, hn, hitem⟩, Option.bind_some, hn, Option.map_some,
    hitem]

-- The top stands below no node, so what does is the item of a container that was named.
theorem exists_container {node : Node} {parent : ItemId} (hn : graph.node? id = some node)
    (hp : graph.containerItem? container = some parent)
    (hup : ReflTransGen graph.outline.Under parent node.item) :
    ∃ c holder, container = some c ∧ graph.node? c = some holder ∧ parent = holder.item := by
  cases container with
  | none =>
      obtain rfl := Option.some.inj hp
      rcases ReflTransGen.cases_head hup with heq | ⟨above, habove, -⟩
      · exact absurd heq.symm (ho.item_ne_root hn)
      · cases ho.top.symm.trans habove
  | some c =>
      obtain ⟨holder, hc, heq⟩ := Option.map_eq_some_iff.mp hp
      exact ⟨c, holder, rfl, hc, heq.symm⟩

-- A move that is refused leaves the graph alone or puts the node last where it was.
theorem moveInto_eq_error (h : graph.moveInto id container = (.error e, other)) :
    (∃ missing, graph.node? missing = none ∧ e = .nodeNotFound missing ∧ other = graph) ∨
    ∃ node c holder previous, graph.node? id = some node ∧ container = some c ∧
      graph.node? c = some holder ∧ ReflTransGen graph.outline.Under holder.item node.item ∧
      e = .invalidTemplate .insideItself ∧ graph.outline.Under node.item previous ∧
      PutLast graph.outline previous node.item other.outline ∧
      other = { graph with outline := other.outline } := by
  cases hn : graph.node? id with
  | none =>
      simp only [moveInto, hn] at h
      obtain ⟨he, rfl⟩ := Prod.mk.inj h
      exact .inl ⟨id, hn, (Except.error.inj he).symm, rfl⟩
  | some node =>
      cases hp : graph.containerItem? container with
      | none =>
          cases container with
          | none => cases hp
          | some c =>
              simp only [moveInto, hn, hp] at h
              obtain ⟨he, rfl⟩ := Prod.mk.inj h
              exact .inl ⟨c, Option.map_eq_none_iff.mp hp, (Except.error.inj he).symm, rfl⟩
      | some parent =>
          obtain ⟨result, above, loose, outline, hmove, hloose, hattached, -, -, hfits, hback⟩ :=
            ho.moveInto_eq hn hp
          obtain ⟨rfl, rfl⟩ := Prod.mk.inj (hmove.symm.trans h)
          have hup : ReflTransGen graph.outline.Under parent node.item := by
            by_contra hnot
            cases (hfits hnot).1
          obtain ⟨he, hunder⟩ := hback hup
          obtain ⟨c, holder, rfl, hc, rfl⟩ := ho.exists_container hn hp hup
          exact .inr ⟨node, c, holder, above, rfl, rfl, hc, hup, Except.error.inj he, hunder,
            ho.tidy.putLast hunder hloose hattached, rfl⟩

-- The list of nodes tells the order of the outline, as the items below the top can be told
-- from it.
theorem nodesInOrder_eq_iff {outline : Forest Entry}
    (ho' : ({ graph with outline := outline } : Graph).Outlined)
    (hdata : ∀ a, outline.get? a = graph.outline.get? a) :
    ({ graph with outline := outline } : Graph).nodesInOrder = graph.nodesInOrder ↔
      outline.descendants graph.root = graph.outline.descendants graph.root := by
  constructor
  · intro heq
    have hitems := ho'.descendants_root_eq
    rw [heq] at hitems
    exact hitems.trans ho.descendants_root_eq.symm
  · intro heq
    have hnode : ({ graph with outline := outline } : Graph).nodeOfItem? =
        graph.nodeOfItem? := by
      funext item
      rw [nodeOfItem?, hdata, nodeOfItem?]
    rw [nodesInOrder, hnode, nodesInOrder]
    exact congrArg _ heq

end Outlined

-- A move that is refused because one of the two nodes is unknown changes nothing. One that
-- is refused because the node would come to stand inside itself leaves all parents as they
-- were, and puts the node behind its siblings: the outline is the one that it was just if
-- the node was the last of them before, and so is the list of nodes.
theorem refused_move_puts_last (h : Reachable graph)
    (hmove : graph.moveInto id container = (.error e, other)) :
    (∃ missing, graph.node? missing = none ∧ e = .nodeNotFound missing ∧ other = graph) ∨
    ∃ node c previous, graph.node? id = some node ∧ container = some c ∧
      (c = id ∨ graph.encloses id c = true) ∧ e = .invalidTemplate .insideItself ∧
      graph.outline.parent? node.item = some previous ∧
      PutLast graph.outline previous node.item other.outline ∧
      other = { graph with outline := other.outline } ∧
      (other.outline.children = graph.outline.children ↔
        (graph.outline.children previous).getLast? = some node.item) ∧
      (other.nodesInOrder = graph.nodesInOrder ↔
        (graph.outline.children previous).getLast? = some node.item) := by
  have ho := h.outlined
  have ho' : other.Outlined := by
    have hmoved := ho.move id container
    rwa [hmove] at hmoved
  rcases ho.moveInto_eq_error hmove with hmissing |
    ⟨node, c, holder, previous, hn, hcontainer, hc, hup, he, hunder, hlast, hother⟩
  · exact .inl hmissing
  · have hinside : c = id ∨ graph.encloses id c = true := by
      rw [ho.encloses_iff hn hc]
      exact (reflTransGen_iff_eq_or_transGen.mp hup).imp_left fun heq => ho.item_inj hc hn heq.symm
    have htop : ReflTransGen graph.outline.Under previous graph.root := by
      rcases ho.container_root_or_node hunder with rfl | ⟨n, above, hn, rfl⟩
      · exact .refl
      · exact (ho.below_root hn).to_reflTransGen
    refine .inr ⟨node, c, previous, hn, hcontainer, hinside, he, hunder, hlast, hother,
      ho.tidy.all_children_putLast_iff hlast, ?_⟩
    rw [← ho.tidy.descendants_putLast_iff hlast ho'.tidy htop]
    rw [hother] at ho' ⊢
    exact ho.nodesInOrder_eq_iff ho' hlast.data

-- The only node of its container has nothing to go behind.
theorem housed_keeps_order : Reachable housed ∧
    (housed.moveInto ⟨3⟩ (some ⟨4⟩)).1 = .error (.invalidTemplate .insideItself) ∧
    (housed.moveInto ⟨3⟩ (some ⟨4⟩)).2.nodesInOrder = housed.nodesInOrder := by
  have hreach : Reachable housed := Reachable.run (.new .standard) housing
  have hrefused : (housed.moveInto ⟨3⟩ (some ⟨4⟩)).1 =
      .error (.invalidTemplate .insideItself) := by decide
  refine ⟨hreach, hrefused, ?_⟩
  rcases hmove : housed.moveInto ⟨3⟩ (some ⟨4⟩) with ⟨result, other⟩
  rw [hmove] at hrefused
  obtain rfl : result = .error (.invalidTemplate .insideItself) := hrefused
  rcases refused_move_puts_last hreach hmove with ⟨missing, -, he, -⟩ |
    ⟨node, c, previous, hn, -, -, -, hparent, -, -, -, horder⟩
  · cases he
  · have hitem : node.item = ⟨4⟩ := by
      have hitem : (housed.node? ⟨3⟩).map (·.item) = some ⟨4⟩ := by decide
      rw [hn] at hitem
      exact Option.some.inj hitem
    rw [hitem] at hparent horder
    have habove : housed.outline.parent? ⟨4⟩ = some ⟨2⟩ := by decide
    obtain rfl : previous = ⟨2⟩ := Option.some.inj (hparent.symm.trans habove)
    exact horder.mpr (by decide)

-- A node with a sibling behind it changes places with it.
theorem housed_changes_order : Reachable housed ∧
    (housed.moveInto ⟨1⟩ (some ⟨4⟩)).1 = .error (.invalidTemplate .insideItself) ∧
    housed.outline.children housed.root = [⟨2⟩, ⟨3⟩] ∧
    (housed.moveInto ⟨1⟩ (some ⟨4⟩)).2.outline.children housed.root = [⟨3⟩, ⟨2⟩] ∧
    housed.nodesInOrder = [⟨1⟩, ⟨3⟩, ⟨4⟩, ⟨2⟩] ∧
    (housed.moveInto ⟨1⟩ (some ⟨4⟩)).2.nodesInOrder = [⟨2⟩, ⟨1⟩, ⟨3⟩, ⟨4⟩] := by
  refine ⟨Reachable.run (.new .standard) housing, ?_, ?_, ?_, ?_, ?_⟩ <;> decide

end Graph

end Dataflow
