import Dataflow.Proofs.Invalidation
import Dataflow.Proofs.Outline

namespace Dataflow.Graph

open Relation

variable {graph : Graph} {id n : NodeId} {node : Node}

-- A node, and everything that stands inside it at any depth.
def Doomed (graph : Graph) (id n : NodeId) : Prop :=
  n = id ∨ graph.encloses id n = true

instance (graph : Graph) (id n : NodeId) : Decidable (graph.Doomed id n) :=
  inferInstanceAs (Decidable (_ ∨ _))

-- A port that goes with its node.
def Lost (graph : Graph) (id : NodeId) (p : PortId) : Prop :=
  ∃ port ∈ graph.port? p, graph.Doomed id port.node

instance (graph : Graph) (id : NodeId) (p : PortId) : Decidable (graph.Lost id p) :=
  inferInstanceAs (Decidable (∃ port ∈ graph.port? p, graph.Doomed id port.node))

-- An edge that goes with one of its ports.
def Cut (graph : Graph) (id : NodeId) (e : EdgeId) : Prop :=
  ∃ edge ∈ graph.edge? e, graph.Lost id edge.source ∨ graph.Lost id edge.destination

instance (graph : Graph) (id : NodeId) (e : EdgeId) : Decidable (graph.Cut id e) :=
  inferInstanceAs (Decidable (∃ edge ∈ graph.edge? e,
    graph.Lost id edge.source ∨ graph.Lost id edge.destination))

-- What a removal leaves of a graph: all but a node with everything inside it, their ports
-- and what hangs on these.
structure Removal (graph : Graph) (id : NodeId) (rest : Graph) : Prop where
  gone : ∀ {n}, graph.Doomed id n → rest.node? n = none
  -- of what stays, that is out of date which read from something that is gone
  reached : ∀ {d n}, ¬ graph.Doomed id n → graph.Doomed id d → graph.Affected d n →
    rest.node? n = (graph.node? n).map Node.invalidate
  unreached : ∀ {n}, ¬ graph.Doomed id n → (∀ d, graph.Doomed id d → ¬ graph.Affected d n) →
    rest.node? n = graph.node? n
  name : ∀ uuid, rest.findByUuid uuid =
    (graph.findByUuid uuid).filter fun n => ¬ graph.Doomed id n
  -- a port stands for what it stood for and has its edges in their order, as far as they stay
  port : ∀ p, rest.port? p = if graph.Lost id p then none else (graph.port? p).map fun port =>
    { port with
      aliasOf := port.aliasOf.filter fun t => ¬ graph.Lost id t
      edges := port.edges.filter fun e => ¬ graph.Cut id e }
  edge : ∀ e, rest.edge? e = if graph.Cut id e then none else graph.edge? e
  parent : ∀ {n}, ¬ graph.Doomed id n → rest.parent? n = graph.parent? n
  children : ∀ {container : Option NodeId}, (∀ c ∈ container, ¬ graph.Doomed id c) →
    rest.children container = (graph.children container).filter fun n => ¬ graph.Doomed id n
  order : rest.nodesInOrder = graph.nodesInOrder.filter fun n => ¬ graph.Doomed id n
  settings : rest.settings = graph.settings

section Doomed

variable (ho : graph.Outlined) (hn : graph.node? id = some node)

include ho hn

theorem mem_nodesUnder_iff_doomed : n ∈ graph.nodesUnder id node ↔ graph.Doomed id n := by
  rw [ho.mem_nodesUnder_iff hn, Doomed]
  constructor
  · rintro ⟨found, hfound, hunder⟩
    rcases reflTransGen_iff_eq_or_transGen.mp hunder with heq | hunder
    · exact .inl (ho.item_inj hfound hn heq.symm)
    · exact .inr ((ho.encloses_iff hn hfound).mpr hunder)
  · rintro (rfl | hinside)
    · exact ⟨node, hn, .refl⟩
    · obtain ⟨inner, outer, hinner, houter, hunder⟩ :=
        ho.transGen_inside_iff.mp (ho.encloses_iff_inside.mp hinside)
      obtain rfl := Option.some.inj (hn.symm.trans houter)
      exact ⟨inner, hinner, hunder.to_reflTransGen⟩

-- A node goes if its item stands below that of the node removed.
theorem doomed_iff_under {found : Node} (hfound : graph.node? n = some found) :
    graph.Doomed id n ↔ ReflTransGen graph.outline.Under found.item node.item := by
  rw [← mem_nodesUnder_iff_doomed ho hn, ho.mem_nodesUnder_iff hn]
  constructor
  · rintro ⟨found', hfound', hunder⟩
    obtain rfl := Option.some.inj (hfound.symm.trans hfound')
    exact hunder
  · exact fun hunder => ⟨found, hfound, hunder⟩

end Doomed

section Ends

variable {other : Graph} {ids : List NodeId} (hw : graph.Wired) (h : other.bare = graph.bare)
  (hids : ∀ n, n ∈ ids ↔ graph.Doomed id n)

include hw h hids

theorem mem_portsOf_iff_lost (p : PortId) : p ∈ other.portsOf ids ↔ graph.Lost id p := by
  rw [(Wired.of_bare h hw).mem_portsOf_iff, port?_of_bare h]
  simp only [hids, Lost, Option.mem_def]

theorem mem_edgesAt_iff_cut (e : EdgeId) :
    e ∈ other.edgesAt (other.portsOf ids) ↔ graph.Cut id e := by
  rw [mem_edgesAt_iff]
  simp only [mem_portsOf_iff_lost hw h hids, port?_of_bare h]
  constructor
  · rintro ⟨p, hp, port, hport, he⟩
    obtain ⟨edge, hedge, rfl | rfl⟩ := hw.incident hport he
    · exact ⟨edge, hedge, .inl hp⟩
    · exact ⟨edge, hedge, .inr hp⟩
  · rintro ⟨edge, hedge, hlost | hlost⟩
    · obtain ⟨port, hport, -, he⟩ := hw.source hedge
      exact ⟨edge.source, hlost, port, hport, he⟩
    · obtain ⟨port, hport, -, he⟩ := hw.destination hedge
      exact ⟨edge.destination, hlost, port, hport, he⟩

end Ends

-- One invalidation after another reaches what any of them does.
theorem node?_invalidateAll (ids : List NodeId) (n : NodeId) :
    (ids.foldl invalidate graph).node? n = (graph.node? n).map fun found =>
      if ∃ d ∈ ids, n ∈ graph.downstream d then found.invalidate else found := by
  induction ids generalizing graph with
  | nil => simp
  | cons d rest ih =>
      rw [List.foldl_cons, ih, node?_invalidate, Option.map_map]
      congr 1
      funext found
      simp only [Function.comp, downstream_invalidate, List.contains_eq_mem, decide_eq_true_eq,
        List.exists_mem_cons_iff]
      by_cases hd : n ∈ graph.downstream d
      · simp [hd, Node.invalidate]
      · simp [hd]

-- What comes of the removal of a node that is there.
def without (graph : Graph) (id : NodeId) (node : Node) : Graph :=
  { ((graph.nodesUnder id node).foldl invalidate graph).withdraw (graph.nodesUnder id node) with
    outline := (graph.outline.take node.item).2 }

theorem removeNode_eq (hn : graph.node? id = some node) :
    graph.removeNode id = some (graph.without id node) := by
  have hkeeps : Keeps graph ((graph.nodesUnder id node).foldl invalidate graph) :=
    Keeps.invalidateAll ⟨rfl, rfl, rfl, fun _ => rfl⟩ _
  simp only [removeNode, hn, outline_withdraw, hkeeps.outline, without]

theorem node?_without (n : NodeId) :
    (graph.without id node).node? n = if n ∈ graph.nodesUnder id node then none
      else (graph.node? n).map fun found =>
        if ∃ d ∈ graph.nodesUnder id node, n ∈ graph.downstream d then found.invalidate
        else found := by
  rw [← node?_invalidateAll]
  exact node?_withdraw _ _ n

theorem root_without : (graph.without id node).root = graph.root := by
  have hroot := congrArg Graph.root (graph.bare_invalidateAll (graph.nodesUnder id node))
  exact hroot

theorem settings_without : (graph.without id node).settings = graph.settings := by
  have hsettings := congrArg Graph.settings (graph.bare_invalidateAll (graph.nodesUnder id node))
  exact hsettings

section Things

variable (ho : graph.Outlined) (hn : graph.node? id = some node)

include ho hn

theorem node?_without_of_doomed (hd : graph.Doomed id n) :
    (graph.without id node).node? n = none := by
  rw [node?_without, if_pos ((mem_nodesUnder_iff_doomed ho hn).mpr hd)]

theorem node?_without_of_not_doomed (hout : ¬ graph.Doomed id n) :
    (graph.without id node).node? n = (graph.node? n).map fun found =>
      if ∃ d ∈ graph.nodesUnder id node, n ∈ graph.downstream d then found.invalidate
      else found := by
  rw [node?_without, if_neg (mt (mem_nodesUnder_iff_doomed ho hn).mp hout)]

-- What stays keeps its name and its place.
theorem label_without (hout : ¬ graph.Doomed id n) :
    ((graph.without id node).node? n).map Node.label = (graph.node? n).map Node.label := by
  rw [node?_without_of_not_doomed ho hn hout, Option.map_map]
  congr 1
  funext found
  simp only [Function.comp]
  split <;> rfl

theorem uuid_without (hout : ¬ graph.Doomed id n) :
    ((graph.without id node).node? n).map (·.uuid) = (graph.node? n).map (·.uuid) := by
  have huuid := congrArg (Option.map Prod.fst) (label_without ho hn hout)
  rwa [Option.map_map, Option.map_map] at huuid

theorem item_without (hout : ¬ graph.Doomed id n) :
    ((graph.without id node).node? n).map (·.item) = (graph.node? n).map (·.item) := by
  have hitem := congrArg (Option.map Prod.snd) (label_without ho hn hout)
  rwa [Option.map_map, Option.map_map] at hitem

theorem node?_without_of_reached (hw : graph.Wired) {d : NodeId} (hout : ¬ graph.Doomed id n)
    (hd : graph.Doomed id d) (h : graph.Affected d n) :
    (graph.without id node).node? n = (graph.node? n).map Node.invalidate := by
  have hreached : ∃ d ∈ graph.nodesUnder id node, n ∈ graph.downstream d :=
    ⟨d, (mem_nodesUnder_iff_doomed ho hn).mpr hd, (hw.affected_iff.mp h).2⟩
  rw [node?_without_of_not_doomed ho hn hout]
  simp only [if_pos hreached]

theorem node?_without_of_unreached (hw : graph.Wired) (hout : ¬ graph.Doomed id n)
    (h : ∀ d, graph.Doomed id d → ¬ graph.Affected d n) :
    (graph.without id node).node? n = graph.node? n := by
  rw [node?_without_of_not_doomed ho hn hout]
  cases hfound : graph.node? n with
  | none => rfl
  | some found =>
      have hlive : n ∈ graph.nodes.ids := (Arena.mem_ids_iff _ _).mpr ⟨found, hfound⟩
      have hfar : ¬ ∃ d ∈ graph.nodesUnder id node, n ∈ graph.downstream d := by
        rintro ⟨d, hmem, hdown⟩
        exact h d ((mem_nodesUnder_iff_doomed ho hn).mp hmem)
          (hw.affected_iff.mpr ⟨hw.mem_ids_of_downstream hlive hdown, hdown⟩)
      rw [Option.map_some, if_neg hfar]

theorem findByUuid_without (hg : graph.Named) (uuid : Uuid) :
    (graph.without id node).findByUuid uuid =
      (graph.findByUuid uuid).filter fun n => ¬ graph.Doomed id n := by
  have hrest : (graph.without id node).Named := (Edit.remove hn).named hg
  apply Option.ext
  intro n
  rw [hrest.findByUuid_eq_some_iff, Option.filter_eq_some_iff, hg.findByUuid_eq_some_iff,
    decide_eq_true_iff]
  by_cases hd : graph.Doomed id n
  · simp [node?_without_of_doomed ho hn hd, hd]
  · simp only [hd, not_false_iff, and_true, ← Option.map_eq_some_iff]
    rw [uuid_without ho hn hd]

theorem port?_without (hw : graph.Wired) (p : PortId) :
    (graph.without id node).port? p = if graph.Lost id p then none
      else (graph.port? p).map fun port =>
        { port with
          aliasOf := port.aliasOf.filter fun t => ¬ graph.Lost id t
          edges := port.edges.filter fun e => ¬ graph.Cut id e } := by
  have hbare := graph.bare_invalidateAll (graph.nodesUnder id node)
  have hids : ∀ n, n ∈ graph.nodesUnder id node ↔ graph.Doomed id n := fun _ =>
    mem_nodesUnder_iff_doomed ho hn
  refine (port?_withdraw _ _ p).trans ?_
  simp only [mem_portsOf_iff_lost hw hbare hids, port?_of_bare hbare]
  congr 2
  funext port
  rw [trim]
  congr 1
  · cases port.aliasOf with
    | none => rfl
    | some t => simp [mem_portsOf_iff_lost hw hbare hids, Option.filter_some]
  · simp [mem_edgesAt_iff_cut hw hbare hids]

theorem edge?_without (hw : graph.Wired) (e : EdgeId) :
    (graph.without id node).edge? e = if graph.Cut id e then none else graph.edge? e := by
  have hbare := graph.bare_invalidateAll (graph.nodesUnder id node)
  have hids : ∀ n, n ∈ graph.nodesUnder id node ↔ graph.Doomed id n := fun _ =>
    mem_nodesUnder_iff_doomed ho hn
  refine (edge?_withdraw _ _ e).trans ?_
  simp only [mem_edgesAt_iff_cut hw hbare hids, edge?_of_bare hbare]

end Things

section Outline

-- Whether an item is not that of a node which goes.
def spared (graph : Graph) (id : NodeId) (item : ItemId) : Bool :=
  (graph.nodeOfItem? item).all fun n => ¬ graph.Doomed id n

variable (ho : graph.Outlined)

include ho

theorem spared_root (id : NodeId) : graph.spared id graph.root = true := by
  rw [spared, nodeOfItem?, ho.get?_root]
  rfl

theorem spared_item_iff {found : Node} (hfound : graph.node? n = some found) :
    graph.spared id found.item = true ↔ ¬ graph.Doomed id n := by
  rw [spared, nodeOfItem?, ho.get?_item hfound]
  simp

variable (hn : graph.node? id = some node)

include hn

theorem spared_iff (item : ItemId) :
    graph.spared id item = true ↔ ¬ ReflTransGen graph.outline.Under item node.item := by
  constructor
  · intro h hunder
    obtain ⟨n, found, hfound, rfl⟩ := ho.exists_node_of_under hn hunder
    exact (spared_item_iff ho hfound).mp h ((doomed_iff_under ho hn hfound).mpr hunder)
  · intro h
    cases hitem : graph.nodeOfItem? item with
    | none => rw [spared, hitem, Option.all_none]
    | some n =>
        obtain ⟨found, hfound, rfl⟩ := ho.nodeOfItem?_eq_some_iff.mp hitem
        rwa [spared_item_iff ho hfound, doomed_iff_under ho hn hfound]

theorem nodeOfItem?_without {item : ItemId} (h : graph.spared id item = true) :
    (graph.without id node).nodeOfItem? item = graph.nodeOfItem? item := by
  rw [nodeOfItem?, without, (ho.pruned hn).data ((spared_iff ho hn item).mp h), nodeOfItem?]

theorem filterMap_spared (items : List ItemId) :
    (items.filter (graph.spared id)).filterMap (graph.without id node).nodeOfItem? =
      (items.filterMap graph.nodeOfItem?).filter fun n => ¬ graph.Doomed id n := by
  rw [List.filterMap_filter, List.filter_filterMap]
  refine List.filterMap_congr fun item _ => ?_
  have hkept : graph.spared id item = true →
      (graph.without id node).nodeOfItem? item = graph.nodeOfItem? item :=
    nodeOfItem?_without ho hn
  cases hitem : graph.nodeOfItem? item with
  | none =>
      have hspared : graph.spared id item = true := by rw [spared, hitem, Option.all_none]
      rw [if_pos hspared, hkept hspared, hitem, Option.filter_none]
  | some n =>
      obtain ⟨found, hfound, rfl⟩ := ho.nodeOfItem?_eq_some_iff.mp hitem
      have hspared : graph.spared id found.item = true ↔ ¬ graph.Doomed id n :=
        spared_item_iff ho hfound
      by_cases hd : graph.Doomed id n
      · rw [if_neg (mt hspared.mp (not_not.mpr hd)), Option.filter_some_neg]
        simp [hd]
      · rw [if_pos (hspared.mpr hd), hkept (hspared.mpr hd), hitem, Option.filter_some_pos]
        simp [hd]

theorem parent?_without (hd : ¬ graph.Doomed id n) :
    (graph.without id node).parent? n = graph.parent? n := by
  have hsame := item_without ho hn hd
  rw [parent?, parent?]
  cases hfound : graph.node? n with
  | none =>
      rw [hfound, Option.map_none, Option.map_eq_none_iff] at hsame
      rw [hsame, Option.bind_none, Option.bind_none]
  | some found =>
      rw [hfound] at hsame
      obtain ⟨found', hfound', hitem⟩ := Option.map_eq_some_iff.mp hsame
      have hout := mt (doomed_iff_under ho hn hfound).mpr hd
      rw [hfound', Option.bind_some, Option.bind_some, hitem, without, (ho.pruned hn).above hout]
      cases habove : graph.outline.parent? found.item with
      | none => rfl
      | some above =>
          -- what stands below something that goes would go with it
          have hspared : graph.spared id above = true :=
            (spared_iff ho hn above).mpr fun hunder => hout (.head habove hunder)
          exact nodeOfItem?_without ho hn hspared

theorem children_without {container : Option NodeId}
    (hc : ∀ c ∈ container, ¬ graph.Doomed id c) :
    (graph.without id node).children container =
      (graph.children container).filter fun n => ¬ graph.Doomed id n := by
  have hsame : (graph.without id node).containerItem? container =
      graph.containerItem? container := by
    cases container with
    | none => exact congrArg some root_without
    | some c => exact item_without ho hn (hc c rfl)
  rw [children, children, hsame]
  cases hat : graph.containerItem? container with
  | none => rfl
  | some item =>
      have hspared : graph.spared id item = true := by
        cases container with
        | none =>
            obtain rfl := Option.some.inj hat
            exact spared_root ho id
        | some c =>
            obtain ⟨outer, houter, rfl⟩ := Option.map_eq_some_iff.mp hat
            exact (spared_item_iff ho houter).mpr (hc c rfl)
      simp only [← filterMap_spared ho hn]
      rw [← ho.tidy.children_take (ho.contains_item hn) (spared_iff ho hn) hspared]
      rfl

theorem nodesInOrder_without : (graph.without id node).nodesInOrder =
    graph.nodesInOrder.filter fun n => ¬ graph.Doomed id n := by
  rw [nodesInOrder, nodesInOrder, ← filterMap_spared ho hn, root_without]
  rw [← ho.tidy.descendants_take (ho.contains_item hn) (spared_iff ho hn) (spared_root ho id)]
  rfl

end Outline

-- A node that is there can be removed. It goes with everything inside it, with all ports of
-- these, with every edge that touches one and with every alias for one. What read from any of
-- them is out of date, and everything else is as it was and where it was.
theorem reachable_removeNode_exact (h : Reachable graph) (hid : id ∈ graph.nodes.ids) :
    ∃ rest, graph.removeNode id = some rest ∧ graph.Removal id rest := by
  obtain ⟨node, hn⟩ := (Arena.mem_ids_iff _ _).mp hid
  have hw := h.healthy.wired
  have ho := h.outlined
  refine ⟨graph.without id node, removeNode_eq hn, ?_⟩
  constructor
  case gone => exact node?_without_of_doomed ho hn
  case reached => exact node?_without_of_reached ho hn hw
  case unreached => exact node?_without_of_unreached ho hn hw
  case name => exact findByUuid_without ho hn h.named
  case port => exact port?_without ho hn hw
  case edge => exact edge?_without ho hn hw
  case parent => exact parent?_without ho hn
  case children => exact children_without ho hn
  case order => exact nodesInOrder_without ho hn
  case settings => exact settings_without

-- A container with a node inside that feeds one beside it, which another node feeds too; the
-- output of a last node stands for that of the container.
def straddling : List Operation :=
  [.addNode .relay ⟨1⟩, .addNodeIn .relay ⟨2⟩ ⟨1⟩, .addNode .relay ⟨3⟩, .addNode .relay ⟨4⟩,
    .addNodeIn .relay ⟨5⟩ ⟨4⟩, .addEdge ⟨4⟩ ⟨5⟩, .addEdge ⟨8⟩ ⟨5⟩, .linkAlias ⟨10⟩ ⟨2⟩,
    .setProperty ⟨4⟩ "in" (.leaf (.int 7)), .evaluate ⟨3⟩ 0]

def straddled : Graph :=
  (Graph.new .standard).run straddling

theorem straddled_removeNode_exact : ∃ rest, straddled.removeNode ⟨1⟩ = some rest ∧
    rest.nodesInOrder = [⟨3⟩, ⟨4⟩, ⟨5⟩] ∧ rest.children (some ⟨4⟩) = [⟨5⟩] ∧
    rest.findByUuid ⟨2⟩ = none ∧ rest.edge? ⟨1⟩ = none ∧
    (rest.port? ⟨5⟩).map (·.edges) = some [⟨2⟩] ∧
    (rest.port? ⟨10⟩).map (·.aliasOf) = some none ∧
    (rest.ownSlot? ⟨3⟩ 0).map (·.state) = some .invalid ∧
    (rest.ownSlot? ⟨4⟩ 0).map (·.state) = some .fresh := by
  have hstraddled : Reachable straddled := Reachable.run (.new .standard) straddling
  have hlive : (⟨1⟩ : NodeId) ∈ straddled.nodes.ids := by decide
  obtain ⟨rest, hrest, hremoval⟩ := reachable_removeNode_exact hstraddled hlive
  have hw := hstraddled.healthy.wired
  have hreached : rest.node? ⟨3⟩ = (straddled.node? ⟨3⟩).map Node.invalidate := by
    apply hremoval.reached (d := ⟨2⟩) (by decide) (by decide)
    rw [hw.affected_iff]
    decide
  have hunreached : rest.node? ⟨4⟩ = straddled.node? ⟨4⟩ := by
    apply hremoval.unreached (by decide)
    have hapart : ∀ d ∈ straddled.nodes.ids, straddled.Doomed ⟨1⟩ d →
        ⟨4⟩ ∉ straddled.downstream d := by decide
    intro d hd hfar
    obtain ⟨hlive, hmem⟩ := hw.affected_iff.mp hfar
    exact hapart d hlive hd hmem
  refine ⟨rest, hrest, ?_, ?_, ?_, ?_, ?_, ?_, ?_, ?_⟩
  · rw [hremoval.order]
    decide
  · rw [hremoval.children (by decide)]
    decide
  · rw [hremoval.name]
    decide
  · rw [hremoval.edge]
    decide
  · rw [hremoval.port]
    decide
  · rw [hremoval.port]
    decide
  · rw [ownSlot?, hreached]
    decide
  · rw [ownSlot?, hunreached]
    decide

end Dataflow.Graph
