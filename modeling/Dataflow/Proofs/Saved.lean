import Dataflow.Proofs.Graph.Refs
import Mathlib.Algebra.Order.BigOperators.Group.List
import Mathlib.Algebra.Order.Group.Nat
import Mathlib.Data.List.ProdSigma

namespace Dataflow

section Lists

variable {α β γ : Type}

theorem map_some_filterMap {f : α → Option β} {items : List α} (h : ∀ a ∈ items, (f a).isSome) :
    (items.filterMap f).map some = items.map f := by
  induction items with
  | nil => rfl
  | cons a rest ih =>
      obtain ⟨b, hb⟩ := Option.isSome_iff_exists.mp (h a List.mem_cons_self)
      rw [List.filterMap_cons_some hb, List.map_cons, List.map_cons, hb,
        ih fun a ha => h a (List.mem_cons_of_mem _ ha)]

-- What is gone through by index may be gone through up to any bound beyond the end.
theorem flatMap_eq_flatMap_range {items : List α} {f : α → List β} {g : Nat → List β}
    (h : ∀ i, g i = (items[i]?.map f).getD []) {bound : Nat} (hbound : items.length ≤ bound) :
    items.flatMap f = (List.range bound).flatMap g := by
  induction items generalizing g bound with
  | nil =>
      refine (List.flatMap_eq_nil_iff.mpr fun i _ => ?_).symm
      rw [h]
      rfl
  | cons a rest ih =>
      cases bound with
      | zero => cases hbound
      | succ bound =>
          rw [List.range_succ_eq_map, List.flatMap_cons, List.flatMap_cons, List.flatMap_map,
            ih (g := g ∘ Nat.succ) (fun i => h (i + 1)) (Nat.le_of_succ_le_succ hbound), h 0]
          rfl

theorem map_filter_filterMap {f : α → Option β} {p : α → Bool} {q : β → Bool} {g : α → γ}
    {g' : β → γ} {items : List α} (h : ∀ a ∈ items, ∃ b, f a = some b ∧ p a = q b ∧ g a = g' b) :
    (items.filter p).map g = ((items.filterMap f).filter q).map g' := by
  induction items with
  | nil => rfl
  | cons a rest ih =>
      obtain ⟨b, hb, hp, hg⟩ := h a List.mem_cons_self
      have hrest := ih fun a ha => h a (List.mem_cons_of_mem _ ha)
      rw [List.filterMap_cons_some hb, List.filter_cons, List.filter_cons, hp]
      split
      · rw [List.map_cons, List.map_cons, hg, hrest]
      · exact hrest

theorem filterMap_flatMap_filterMap {δ : Type} (f : α → Option β) (g : β → List γ)
    (h : γ → Option δ) (items : List α) :
    ((items.filterMap f).flatMap g).filterMap h =
      items.flatMap fun a => ((f a).map fun b => (g b).filterMap h).getD [] := by
  induction items with
  | nil => rfl
  | cons a rest ih =>
      rw [List.filterMap_cons, List.flatMap_cons, ← ih]
      cases f a with
      | none => rfl
      | some b => rw [List.flatMap_cons, List.filterMap_append]; rfl

-- Of what is listed under different keys, that under one key.
theorem filter_flatMap_key [DecidableEq γ] {keys : List γ} (hn : keys.Nodup) {f : γ → List β}
    {k : β → γ} (hk : ∀ key ∈ keys, ∀ b ∈ f key, k b = key) (key : γ) :
    ((keys.flatMap f).filter fun b => k b = key) = if key ∈ keys then f key else [] := by
  induction keys with
  | nil => rfl
  | cons first rest ih =>
      obtain ⟨hfirst, hrest⟩ := List.nodup_cons.mp hn
      rw [List.flatMap_cons, List.filter_append,
        ih hrest fun key hkey => hk key (List.mem_cons_of_mem _ hkey)]
      by_cases hkey : key = first
      · subst hkey
        have hall : (f key).filter (fun b => k b = key) = f key :=
          List.filter_eq_self.mpr fun b hb => by simp [hk key List.mem_cons_self b hb]
        simp [hall, hfirst]
      · have hnone : (f first).filter (fun b => k b = key) = [] := by
          refine List.filter_eq_nil_iff.mpr fun b hb => ?_
          rw [hk first List.mem_cons_self b hb]
          simpa using Ne.symm hkey
        simp [hnone, hkey]

end Lists

-- The references of all ports that nodes could have, up to a number for each end.
def PortRef.upTo (uuids : List Uuid) (directions : List Direction) (bound : Nat) :
    List (Direction × PortRef) :=
  ((uuids ×ˢ directions) ×ˢ List.range bound).map fun entry =>
    (entry.1.2, ⟨entry.1.1, entry.2⟩)

namespace PortRef

variable {uuids : List Uuid} {directions : List Direction} {bound : Nat}

theorem mem_upTo_iff {direction : Direction} {ref : PortRef} :
    (direction, ref) ∈ upTo uuids directions bound ↔
      ref.node ∈ uuids ∧ direction ∈ directions ∧ ref.index < bound := by
  rw [upTo, List.mem_map]
  constructor
  · rintro ⟨⟨⟨uuid, d⟩, i⟩, h, heq⟩
    obtain ⟨rfl, rfl⟩ := Prod.mk.inj heq
    simpa [List.mem_product, and_assoc] using h
  · rintro ⟨hnode, hdirection, hindex⟩
    exact ⟨⟨⟨ref.node, direction⟩, ref.index⟩, by simp [hnode, hdirection, hindex], rfl⟩

theorem nodup_upTo (huuids : uuids.Nodup) (hdirections : directions.Nodup) (bound : Nat) :
    (upTo uuids directions bound).Nodup := by
  refine List.Nodup.map ?_ ((huuids.product hdirections).product List.nodup_range)
  rintro ⟨⟨uuid, d⟩, i⟩ ⟨⟨uuid', d'⟩, i'⟩ h
  simp only [Prod.mk.injEq, PortRef.mk.injEq] at h
  obtain ⟨rfl, rfl, rfl⟩ := h
  rfl

theorem flatMap_upTo {β : Type} (f : Direction × PortRef → List β) :
    (upTo uuids directions bound).flatMap f = uuids.flatMap fun uuid =>
      directions.flatMap fun direction =>
        (List.range bound).flatMap fun index => f (direction, ⟨uuid, index⟩) := by
  simp [upTo, SProd.sprod, List.product, List.flatMap_map, List.flatMap_assoc, List.map_flatMap]

end PortRef

namespace Graph

variable {graph : Graph}

section Order

-- The ports at the given ends of all nodes, in the order of the outline.
def portsInOrder (graph : Graph) (directions : List Direction) : List PortId :=
  (graph.nodesInOrder.filterMap graph.node?).flatMap fun node => directions.flatMap node.side

theorem mem_portsInOrder_iff (hw : graph.Wired) (ho : graph.Outlined)
    {directions : List Direction} {p : PortId} :
    p ∈ graph.portsInOrder directions ↔
      ∃ port, graph.port? p = some port ∧ port.direction ∈ directions := by
  rw [portsInOrder, List.mem_flatMap]
  constructor
  · rintro ⟨node, hnode, hp⟩
    obtain ⟨id, -, hn⟩ := List.mem_filterMap.mp hnode
    obtain ⟨direction, hdirection, hp⟩ := List.mem_flatMap.mp hp
    obtain ⟨port, hport, -, rfl⟩ := hw.mem_side_placed hn hp
    exact ⟨port, hport, hdirection⟩
  · rintro ⟨port, hport, hdirection⟩
    have hat := hw.owned hport
    rw [portAt?_eq] at hat
    obtain ⟨node, hn, hindex⟩ := Option.bind_eq_some_iff.mp hat
    exact ⟨node, List.mem_filterMap.mpr ⟨port.node, ho.mem_nodesInOrder_iff.mpr ⟨node, hn⟩, hn⟩,
      List.mem_flatMap.mpr ⟨port.direction, hdirection, List.mem_of_getElem? hindex⟩⟩

theorem nodup_portsInOrder (hw : graph.Wired) (ho : graph.Outlined) {directions : List Direction}
    (hdirections : directions.Nodup) : (graph.portsInOrder directions).Nodup := by
  refine List.nodup_flatMap.mpr ⟨fun node hnode => ?_, ?_⟩
  · obtain ⟨id, -, hn⟩ := List.mem_filterMap.mp hnode
    refine List.nodup_flatMap.mpr ⟨fun direction _ => ?_, hdirections.imp fun hne p hp hp' => ?_⟩
    · refine List.nodup_iff_getElem?_ne_getElem?.mpr fun i j hij hj heq => ?_
      obtain ⟨p, hp⟩ : ∃ p, (node.side direction)[j]? = some p := ⟨_, List.getElem?_eq_getElem hj⟩
      obtain ⟨port, hport, -, -, hindex⟩ := hw.side_placed hn (heq.trans hp)
      obtain ⟨port', hport', -, -, hindex'⟩ := hw.side_placed hn hp
      rw [Option.some.inj (hport.symm.trans hport'), hindex'] at hindex
      omega
    · obtain ⟨port, hport, -, rfl⟩ := hw.mem_side_placed hn hp
      obtain ⟨port', hport', -, rfl⟩ := hw.mem_side_placed hn hp'
      exact hne (by rw [Option.some.inj (hport.symm.trans hport')])
  · refine List.Pairwise.filterMap _ (R := (· ≠ ·)) ?_ ho.nodup_nodesInOrder
    intro id id' hne node hn node' hn' p hp hp'
    obtain ⟨direction, -, hp⟩ := List.mem_flatMap.mp hp
    obtain ⟨direction', -, hp'⟩ := List.mem_flatMap.mp hp'
    obtain ⟨port, hport, rfl, -⟩ := hw.mem_side_placed hn hp
    obtain ⟨port', hport', rfl, -⟩ := hw.mem_side_placed hn' hp'
    exact hne (by rw [Option.some.inj (hport.symm.trans hport')])

end Order

section Nodes

-- The saved node that has an item of the outline.
def savedAt? (graph : Graph) (item : ItemId) : Option SavedNode :=
  (graph.nodeOfItem? item).bind graph.saveNode?

theorem save_nodes (graph : Graph) :
    graph.save.nodes = (graph.outline.descendants graph.root).filterMap graph.savedAt? :=
  List.filterMap_filterMap ..

theorem save_uuids (graph : Graph) : graph.save.nodes.map (·.uuid) =
    (graph.nodesInOrder.filterMap graph.node?).map (·.uuid) := by
  have hnodes : graph.save.nodes = graph.nodesInOrder.filterMap graph.saveNode? := rfl
  rw [hnodes, List.map_filterMap, List.map_filterMap]
  congr 1
  funext id
  rw [saveNode?, Option.map_map]
  rfl

theorem nodup_save_uuids (hn : graph.Named) (ho : graph.Outlined) :
    (graph.save.nodes.map (·.uuid)).Nodup := by
  rw [save_uuids, List.map_filterMap]
  refine ho.nodup_nodesInOrder.filterMap fun id id' uuid h h' => ?_
  obtain ⟨node, hnode, rfl⟩ := Option.map_eq_some_iff.mp h
  obtain ⟨node', hnode', huuid⟩ := Option.map_eq_some_iff.mp h'
  exact hn.id_eq_of_uuid hnode hnode' huuid.symm

theorem mem_save_uuids_iff (ho : graph.Outlined) {uuid : Uuid} :
    uuid ∈ graph.save.nodes.map (·.uuid) ↔ ∃ id node, graph.node? id = some node ∧
      node.uuid = uuid := by
  rw [save_uuids, List.map_filterMap, List.mem_filterMap]
  constructor
  · rintro ⟨id, -, h⟩
    obtain ⟨node, hnode, huuid⟩ := Option.map_eq_some_iff.mp h
    exact ⟨id, node, hnode, huuid⟩
  · rintro ⟨id, node, hnode, rfl⟩
    exact ⟨id, ho.mem_nodesInOrder_iff.mpr ⟨node, hnode⟩, by rw [hnode]; rfl⟩

-- A saved node has the name of its node, and names the container that the node stands in.
theorem saveNode?_eq_some {id : NodeId} {saved : SavedNode} (h : graph.saveNode? id = some saved) :
    ∃ node, graph.node? id = some node ∧ saved.uuid = node.uuid ∧
      saved.parent = (graph.outline.parent? node.item).bind graph.nameAt? := by
  obtain ⟨node, hn, rfl⟩ := Option.map_eq_some_iff.mp h
  refine ⟨node, hn, rfl, ?_⟩
  simp only [parent?, hn, Option.bind_some, Option.bind_assoc]
  rfl

theorem savedAt?_item (ho : graph.Outlined) {id : NodeId} {node : Node}
    (hn : graph.node? id = some node) : graph.savedAt? node.item = graph.saveNode? id := by
  rw [savedAt?, ho.nodeOfItem?_eq_some_iff.mpr ⟨node, hn, rfl⟩, Option.bind_some]

theorem Outlined.nameAt?_item (ho : graph.Outlined) {id : NodeId} {node : Node}
    (hn : graph.node? id = some node) : graph.nameAt? node.item = some node.uuid :=
  ho.nameAt?_eq_some_iff.mpr ⟨id, node, hn, rfl, rfl⟩

theorem Outlined.nameAt?_root (ho : graph.Outlined) : graph.nameAt? graph.root = none := by
  rw [nameAt?, nodeOfItem?, ho.get?_root]
  rfl

-- The nodes that stand directly in a container are those that name it when they are
-- saved, in the same order.
theorem names_children (hn : graph.Named) (ho : graph.Outlined) {item : ItemId}
    (hitem : item = graph.root ∨ ∃ id node, graph.node? id = some node ∧ item = node.item) :
    (graph.outline.children item).map graph.nameAt? =
      (graph.save.nodes.filter fun saved => saved.parent = graph.nameAt? item).map
        fun saved => some saved.uuid := by
  have hunder : Relation.ReflTransGen graph.outline.Under item graph.root := by
    rcases hitem with rfl | ⟨id, node, hnode, rfl⟩
    · exact .refl
    · exact (ho.below_root hnode).to_reflTransGen
  rw [ho.tidy.children_eq_filter hunder, save_nodes]
  refine map_filter_filterMap fun other hother => ?_
  obtain ⟨id, node, hnode, rfl⟩ := ho.exists_node_of_mem hother
  obtain ⟨saved, hsaved⟩ : ∃ saved, graph.saveNode? id = some saved := by
    rw [saveNode?, hnode]
    exact ⟨_, rfl⟩
  obtain ⟨node', hnode', huuid, hparent⟩ := saveNode?_eq_some hsaved
  obtain rfl := Option.some.inj (hnode.symm.trans hnode')
  refine ⟨saved, (savedAt?_item ho hnode).trans hsaved, ?_, by rw [ho.nameAt?_item hnode, huuid]⟩
  obtain ⟨above, habove⟩ := ho.placed hnode
  rw [hparent, habove, Option.bind_some]
  refine decide_eq_decide.mpr ⟨fun heq => by rw [Option.some.inj heq], fun hname => ?_⟩
  -- a name tells a container from the others, and only the top has none
  rcases ho.container_root_or_node habove with rfl | ⟨id₁, node₁, hn₁, rfl⟩ <;>
    rcases hitem with rfl | ⟨id₂, node₂, hn₂, rfl⟩
  · rfl
  · rw [ho.nameAt?_root, ho.nameAt?_item hn₂] at hname
    cases hname
  · rw [ho.nameAt?_root, ho.nameAt?_item hn₁] at hname
    cases hname
  · rw [hn.item_eq_of_name ho (ho.nameAt?_item hn₁) (hname ▸ ho.nameAt?_item hn₁)]

end Nodes

section Ports

-- Going through the ports of all nodes is going through their references, as far as there
-- is anything to be found under these.
theorem flatMap_portsInOrder {β : Type} (hw : graph.Wired) (hn : graph.Named)
    {directions : List Direction} {f : PortId → List β}
    {g : Direction × PortRef → List β} {bound : Nat}
    (hbound : ∀ {id node direction}, graph.node? id = some node →
      (node.side direction).length ≤ bound)
    (hf : ∀ {p port ref}, graph.port? p = some port → port.direction ∈ directions →
      graph.portRef? p = some ref → f p = g (port.direction, ref))
    (hg : ∀ {direction ref}, direction ∈ directions → graph.portNamed? direction ref = none →
      g (direction, ref) = []) :
    (graph.portsInOrder directions).flatMap f =
      (PortRef.upTo (graph.save.nodes.map (·.uuid)) directions bound).flatMap g := by
  rw [PortRef.flatMap_upTo, save_uuids, List.flatMap_map, portsInOrder, List.flatMap_assoc]
  refine List.flatMap_congr fun node hnode => ?_
  obtain ⟨id, -, hnode⟩ := List.mem_filterMap.mp hnode
  rw [List.flatMap_assoc]
  refine List.flatMap_congr fun direction hdirection => ?_
  refine flatMap_eq_flatMap_range (fun index => ?_) (hbound hnode)
  cases hat : (node.side direction)[index]? with
  | none =>
      refine hg hdirection ?_
      rw [portNamed?, hn.findByUuid_eq_some_iff.mpr ⟨node, hnode, rfl⟩, Option.bind_some,
        portAt?_eq, hnode]
      exact hat
  | some p =>
      obtain ⟨port, hport, rfl, rfl, rfl⟩ := hw.side_placed hnode hat
      exact (hf hport hdirection (portRef?_eq_some_iff.mpr ⟨port, node, hport, hnode, rfl⟩)).symm

theorem exists_bound (graph : Graph) : ∃ bound, ∀ {id node direction},
    graph.node? id = some node → (node.side direction).length ≤ bound := by
  refine ⟨(graph.nodes.values.map fun node => node.ports.length).sum,
    fun {id node direction} hn => ?_⟩
  have hmem : node.ports.length ∈ graph.nodes.values.map fun node => node.ports.length :=
    List.mem_map_of_mem ((Arena.mem_values_iff _ _).mpr ⟨id, hn⟩)
  have hle := List.le_sum_of_mem hmem
  rw [Node.ports, List.length_append] at hle
  cases direction <;> simp only [Node.side] <;> omega

end Ports

section Edges

-- The edges that lead to the inputs of all nodes.
def edgesInOrder (graph : Graph) : List EdgeId :=
  (graph.portsInOrder [.input]).flatMap fun p => ((graph.port? p).map (·.edges)).getD []

theorem save_edges_eq (graph : Graph) :
    graph.save.edges = graph.edgesInOrder.filterMap graph.saveEdge? := by
  have hside : ∀ node : Node, [Direction.input].flatMap node.side = node.inputs := fun node =>
    List.append_nil _
  have hedges : graph.save.edges =
      (((graph.portsInOrder [.input]).filterMap graph.port?).flatMap (·.edges)).filterMap
        graph.saveEdge? := by
    simp only [portsInOrder, hside]
    rfl
  rw [hedges, filterMap_flatMap_filterMap, edgesInOrder, List.filterMap_flatMap]
  refine List.flatMap_congr fun p _ => ?_
  cases graph.port? p <;> rfl

theorem mem_edgesInOrder_iff (hw : graph.Wired) (ho : graph.Outlined) {e : EdgeId} :
    e ∈ graph.edgesInOrder ↔ ∃ edge, graph.edge? e = some edge := by
  rw [edgesInOrder, List.mem_flatMap]
  constructor
  · rintro ⟨p, hp, he⟩
    obtain ⟨port, hport, -⟩ := (mem_portsInOrder_iff hw ho).mp hp
    rw [hport] at he
    obtain ⟨edge, hedge, -⟩ := hw.incident hport he
    exact ⟨edge, hedge⟩
  · rintro ⟨edge, hedge⟩
    obtain ⟨port, hport, hin, he⟩ := hw.destination hedge
    refine ⟨edge.destination, (mem_portsInOrder_iff hw ho).mpr ⟨port, hport, ?_⟩, ?_⟩
    · rw [hin]
      exact List.mem_singleton_self _
    · rw [hport]
      exact he

theorem nodup_edgesInOrder (hw : graph.Wired) (ho : graph.Outlined) :
    graph.edgesInOrder.Nodup := by
  have hport : ∀ p ∈ graph.portsInOrder [.input], ∃ port, graph.port? p = some port ∧
      port.direction = .input := by
    intro p hp
    obtain ⟨port, hport, hd⟩ := (mem_portsInOrder_iff hw ho).mp hp
    exact ⟨port, hport, List.mem_singleton.mp hd⟩
  refine List.nodup_flatMap.mpr ⟨fun p hp => ?_, ?_⟩
  · obtain ⟨port, hport, -⟩ := hport p hp
    rw [hport]
    exact hw.listedOnce hport
  · refine (nodup_portsInOrder hw ho (List.nodup_singleton _)).imp_of_mem ?_
    intro p q hp hq hne e he he'
    obtain ⟨port, hp, hd⟩ := hport p hp
    obtain ⟨port', hq, hd'⟩ := hport q hq
    simp only [hp, Option.map_some, Option.getD_some] at he
    simp only [hq, Option.map_some, Option.getD_some] at he'
    obtain ⟨edge, hedge, -⟩ := hw.incident hp he
    exact hne ((hw.destination_eq hp hd he hedge).symm.trans (hw.destination_eq hq hd' he' hedge))

theorem saveEdge?_of_edge {e : EdgeId} {edge : Edge} (he : graph.edge? e = some edge)
    {source destination : PortRef} (hs : graph.portRef? edge.source = some source)
    (hd : graph.portRef? edge.destination = some destination) :
    graph.saveEdge? e = some ⟨source, destination⟩ := by
  rw [saveEdge?, he]
  simp only [hs, hd]

theorem save_edges (hw : graph.Wired) (hn : graph.Named) {bound : Nat}
    (hbound : ∀ {id node direction}, graph.node? id = some node →
      (node.side direction).length ≤ bound) :
    graph.save.edges =
      (PortRef.upTo (graph.save.nodes.map (·.uuid)) [.input] bound).flatMap fun entry =>
        (graph.feeders entry.2).map fun source => ⟨source, entry.2⟩ := by
  rw [save_edges_eq, edgesInOrder, List.filterMap_flatMap]
  refine flatMap_portsInOrder hw hn hbound (fun {p port ref} hport hd href => ?_)
    fun {direction ref} hd hnone => ?_
  · have hd := List.mem_singleton.mp hd
    rw [hport, feeders_of_port hw hn hport hd href, List.filterMap_filterMap, List.map_filterMap]
    refine List.filterMap_congr fun e he => ?_
    obtain ⟨edge, hedge, -⟩ := hw.incident hport he
    obtain ⟨source, hs, -⟩ := hw.source hedge
    obtain ⟨sourceRef, hsource, -⟩ := hw.exists_portRef hs
    have hdestination := hw.destination_eq hport hd he hedge
    rw [saveEdge?_of_edge hedge hsource (hdestination ▸ href), hedge, Option.bind_some, hsource]
    rfl
  · obtain rfl := List.mem_singleton.mp hd
    rw [feeders_of_none hnone]
    rfl

-- What feeds an input, in order, can be read off the saved edges.
theorem feeders_eq_filter (hw : graph.Wired) (hn : graph.Named) (ho : graph.Outlined)
    (ref : PortRef) : graph.feeders ref =
      (graph.save.edges.filter fun saved => saved.destination = ref).map (·.source) := by
  obtain ⟨bound, hbound⟩ := graph.exists_bound
  have hkeys := PortRef.nodup_upTo (nodup_save_uuids hn ho) (List.nodup_singleton Direction.input)
    bound
  have hfilter := filter_flatMap_key hkeys (f := fun entry => (graph.feeders entry.2).map
    fun source => (⟨source, entry.2⟩ : SavedEdge)) (k := fun saved => (.input, saved.destination))
    (by
      rintro ⟨direction, ref⟩ hentry saved hsaved
      obtain ⟨source, -, rfl⟩ := List.mem_map.mp hsaved
      rw [List.mem_singleton.mp (PortRef.mem_upTo_iff.mp hentry).2.1])
    (.input, ref)
  rw [← save_edges hw hn hbound] at hfilter
  simp only [Prod.mk.injEq, true_and] at hfilter
  rw [hfilter]
  cases hfound : graph.portNamed? .input ref with
  | none =>
      rw [feeders_of_none hfound]
      split <;> rfl
  | some p =>
      obtain ⟨port, hport, hd, href⟩ := (hn.portNamed?_eq_some_iff hw).mp hfound
      obtain ⟨port', node, hport', hnode, rfl⟩ := portRef?_eq_some_iff.mp href
      obtain rfl := Option.some.inj (hport.symm.trans hport')
      have hat := hw.owned hport
      rw [portAt?_eq, hnode, Option.bind_some] at hat
      have hindex := (List.getElem?_eq_some_iff.mp hat).1
      rw [if_pos, List.map_map]
      · exact (List.map_id _).symm
      · exact PortRef.mem_upTo_iff.mpr ⟨(mem_save_uuids_iff ho).mpr ⟨_, node, hnode, rfl⟩,
          List.mem_singleton_self _, Nat.lt_of_lt_of_le hindex (hbound hnode)⟩

end Edges

section Aliases

theorem save_aliases_eq (graph : Graph) :
    graph.save.aliases = (graph.portsInOrder [.input, .output]).filterMap graph.saveAlias? := by
  have hside : ∀ node : Node, [Direction.input, .output].flatMap node.side = node.ports :=
    fun node => congrArg (node.inputs ++ ·) (List.append_nil _)
  simp only [portsInOrder, hside]
  rfl

theorem saveAlias?_of_port {p : PortId} {port : Port} {ref : PortRef}
    (hp : graph.port? p = some port) (href : graph.portRef? p = some ref) :
    graph.saveAlias? p = (port.aliasOf.bind graph.portRef?).map fun target =>
      ⟨port.direction, ref, target⟩ := by
  rw [saveAlias?, hp]
  simp only [href]
  cases port.aliasOf.bind graph.portRef? <;> rfl

theorem saveAlias?_eq_some {p : PortId} {saved : SavedAlias} (h : graph.saveAlias? p = some saved) :
    ∃ port, graph.port? p = some port ∧ saved.direction = port.direction ∧
      graph.portRef? p = some saved.port := by
  cases hp : graph.port? p with
  | none =>
      rw [saveAlias?, hp] at h
      cases h
  | some port =>
      cases href : graph.portRef? p with
      | none =>
          simp only [saveAlias?, hp, href] at h
          cases h
      | some ref =>
          rw [saveAlias?_of_port hp href] at h
          obtain ⟨target, -, rfl⟩ := Option.map_eq_some_iff.mp h
          exact ⟨port, rfl, rfl, rfl⟩

theorem standIn?_of_port (hw : graph.Wired) (hn : graph.Named) {p : PortId} {port : Port}
    {ref : PortRef} (hp : graph.port? p = some port) (href : graph.portRef? p = some ref) :
    graph.standIn? port.direction ref = port.aliasOf.bind graph.portRef? := by
  rw [standIn?, (hn.portNamed?_eq_some_iff hw).mpr ⟨port, hp, rfl, href⟩, Option.bind_some, hp,
    Option.bind_some]

theorem both_mem (direction : Direction) : direction ∈ [Direction.input, .output] := by
  cases direction <;> simp

theorem save_aliases (hw : graph.Wired) (hn : graph.Named) {bound : Nat}
    (hbound : ∀ {id node direction}, graph.node? id = some node →
      (node.side direction).length ≤ bound) :
    graph.save.aliases =
      (PortRef.upTo (graph.save.nodes.map (·.uuid)) [.input, .output] bound).flatMap fun entry =>
        ((graph.standIn? entry.1 entry.2).map fun target => ⟨entry.1, entry.2, target⟩).toList := by
  rw [save_aliases_eq, List.filterMap_eq_flatMap_toList]
  refine flatMap_portsInOrder hw hn hbound (fun {p port ref} hport _ href => ?_)
    fun {direction ref} _ hnone => ?_
  · rw [saveAlias?_of_port hport href, standIn?_of_port hw hn hport href]
  · rw [standIn?, hnone]
    rfl

-- The saved aliases say of each port which one it stands for.
theorem mem_save_aliases_iff (hw : graph.Wired) (hn : graph.Named) (ho : graph.Outlined)
    {direction : Direction} {ref target : PortRef} :
    ⟨direction, ref, target⟩ ∈ graph.save.aliases ↔
      graph.standIn? direction ref = some target := by
  rw [save_aliases_eq, List.mem_filterMap]
  constructor
  · rintro ⟨p, hp, hsaved⟩
    obtain ⟨port, hport, -⟩ := (mem_portsInOrder_iff hw ho).mp hp
    obtain ⟨own, hown, -⟩ := hw.exists_portRef hport
    rw [saveAlias?_of_port hport hown] at hsaved
    obtain ⟨target', htarget, heq⟩ := Option.map_eq_some_iff.mp hsaved
    obtain ⟨rfl, rfl, rfl⟩ := SavedAlias.mk.inj heq
    rw [standIn?_of_port hw hn hport hown, htarget]
  · intro h
    obtain ⟨p, port, t, hport, rfl, href, ht, htarget⟩ := (standIn?_eq_some_iff hw hn).mp h
    refine ⟨p, (mem_portsInOrder_iff hw ho).mpr ⟨port, hport, both_mem _⟩, ?_⟩
    rw [saveAlias?_of_port hport href, ht, Option.bind_some, htarget]
    rfl

end Aliases

section Complete

-- A port that stands for another.
def aliased (graph : Graph) (p : PortId) : Bool :=
  (graph.port? p).any fun port => port.aliasOf.isSome

-- Everything that is there is saved, once.
structure Complete (graph : Graph) : Prop where
  nodes : (graph.nodes.ids.map graph.saveNode?).Perm (graph.save.nodes.map some)
  edges : (graph.edges.ids.map graph.saveEdge?).Perm (graph.save.edges.map some)
  aliases : ((graph.ports.ids.filter graph.aliased).map graph.saveAlias?).Perm
    (graph.save.aliases.map some)
  nodesOnce : (graph.save.nodes.map (·.uuid)).Nodup
  edgesOnce : graph.save.edges.Nodup
  aliasesOnce : (graph.save.aliases.map fun saved => (saved.direction, saved.port)).Nodup

theorem perm_map_filterMap {α β : Type} {keys ids : List α} (hkeys : keys.Nodup) (hn : ids.Nodup)
    (hids : ∀ id, id ∈ ids ↔ id ∈ keys) {save? : α → Option β}
    (hsave : ∀ id ∈ ids, (save? id).isSome) :
    (keys.map save?).Perm ((ids.filterMap save?).map some) := by
  rw [map_some_filterMap hsave]
  exact ((List.perm_ext_iff_of_nodup hkeys hn).mpr fun id => (hids id).symm).map _

theorem exists_saveEdge? (hw : graph.Wired) {e : EdgeId} {edge : Edge}
    (he : graph.edge? e = some edge) : ∃ source destination,
      graph.portRef? edge.source = some source ∧
      graph.portRef? edge.destination = some destination ∧
      graph.saveEdge? e = some ⟨source, destination⟩ := by
  obtain ⟨source, hs, -⟩ := hw.source he
  obtain ⟨destination, hd, -⟩ := hw.destination he
  obtain ⟨sourceRef, hsource, -⟩ := hw.exists_portRef hs
  obtain ⟨destinationRef, hdestination, -⟩ := hw.exists_portRef hd
  exact ⟨_, _, hsource, hdestination, saveEdge?_of_edge he hsource hdestination⟩

theorem saveEdge?_eq_some (hw : graph.Wired) {e : EdgeId} {saved : SavedEdge}
    (h : graph.saveEdge? e = some saved) : ∃ edge, graph.edge? e = some edge ∧
      graph.portRef? edge.source = some saved.source ∧
      graph.portRef? edge.destination = some saved.destination := by
  cases hedge : graph.edge? e with
  | none =>
      rw [saveEdge?, hedge] at h
      cases h
  | some edge =>
      obtain ⟨source, destination, hs, hd, hsaved⟩ := exists_saveEdge? hw hedge
      obtain rfl := Option.some.inj (hsaved.symm.trans h)
      exact ⟨edge, rfl, hs, hd⟩

-- No two edges are saved alike.
theorem saveEdge?_inj (hw : graph.Wired) (hn : graph.Named)
    (hsingle : ∀ {e e' edge}, graph.edge? e = some edge → graph.edge? e' = some edge → e = e')
    {e e' : EdgeId} {saved : SavedEdge} (h : graph.saveEdge? e = some saved)
    (h' : graph.saveEdge? e' = some saved) : e = e' := by
  obtain ⟨edge, hedge, hs, hd⟩ := saveEdge?_eq_some hw h
  obtain ⟨edge', hedge', hs', hd'⟩ := saveEdge?_eq_some hw h'
  obtain ⟨outPort, hout, houtput, -⟩ := hw.source hedge
  obtain ⟨outPort', hout', houtput', -⟩ := hw.source hedge'
  obtain ⟨inPort, hin, hinput, -⟩ := hw.destination hedge
  obtain ⟨inPort', hin', hinput', -⟩ := hw.destination hedge'
  have hsource := hw.port_eq_of_ref hn hout hout' (houtput.trans houtput'.symm) hs hs'
  have hdestination := hw.port_eq_of_ref hn hin hin' (hinput.trans hinput'.symm) hd hd'
  have heq : edge = edge' := by
    cases edge
    cases edge'
    exact congrArg₂ Edge.mk hsource hdestination
  exact hsingle hedge (heq ▸ hedge')

-- What is saved as an alias is a port that stands for another.
theorem isSome_saveAlias? (hw : graph.Wired) {p : PortId} {port : Port}
    (hp : graph.port? p = some port) : (graph.saveAlias? p).isSome = graph.aliased p := by
  obtain ⟨ref, href, -⟩ := hw.exists_portRef hp
  rw [saveAlias?_of_port hp href, Option.isSome_map, aliased, hp, Option.any_some]
  cases halias : port.aliasOf with
  | none => rfl
  | some t =>
      obtain ⟨target, ht, -⟩ := hw.target hp halias
      obtain ⟨targetRef, htarget, -⟩ := hw.exists_portRef ht
      rw [Option.bind_some, htarget]
      rfl

theorem save_aliases_filter (hw : graph.Wired) (ho : graph.Outlined) : graph.save.aliases =
    ((graph.portsInOrder [.input, .output]).filter graph.aliased).filterMap graph.saveAlias? := by
  rw [save_aliases_eq, List.filterMap_filter]
  refine List.filterMap_congr fun p hp => ?_
  obtain ⟨port, hport, -⟩ := (mem_portsInOrder_iff hw ho).mp hp
  rw [← isSome_saveAlias? hw hport]
  cases graph.saveAlias? p <;> rfl

theorem complete (hw : graph.Wired) (hn : graph.Named) (ho : graph.Outlined)
    (hsingle : ∀ {e e' edge}, graph.edge? e = some edge → graph.edge? e' = some edge → e = e') :
    graph.Complete where
  nodes := by
    refine perm_map_filterMap graph.nodes.ids_nodup ho.nodup_nodesInOrder (fun id => ?_)
      fun id hid => ?_
    · rw [ho.mem_nodesInOrder_iff, Arena.mem_ids_iff]
      rfl
    · obtain ⟨node, hnode⟩ := ho.mem_nodesInOrder_iff.mp hid
      rw [saveNode?, hnode]
      rfl
  edges := by
    rw [save_edges_eq]
    refine perm_map_filterMap graph.edges.ids_nodup (nodup_edgesInOrder hw ho) (fun e => ?_)
      fun e he => ?_
    · rw [mem_edgesInOrder_iff hw ho, Arena.mem_ids_iff]
      rfl
    · obtain ⟨edge, hedge⟩ := (mem_edgesInOrder_iff hw ho).mp he
      obtain ⟨source, destination, -, -, hsaved⟩ := exists_saveEdge? hw hedge
      rw [hsaved]
      rfl
  aliases := by
    rw [save_aliases_filter hw ho]
    refine perm_map_filterMap (graph.ports.ids_nodup.filter _)
      ((nodup_portsInOrder hw ho (by decide)).filter _) (fun p => ?_) fun p hp => ?_
    · rw [List.mem_filter, List.mem_filter, mem_portsInOrder_iff hw ho, Arena.mem_ids_iff]
      refine and_congr_left fun _ => ⟨?_, ?_⟩
      · rintro ⟨port, hp, -⟩
        exact ⟨port, hp⟩
      · rintro ⟨port, hp⟩
        exact ⟨port, hp, both_mem _⟩
    · obtain ⟨hp, haliased⟩ := List.mem_filter.mp hp
      obtain ⟨port, hport, -⟩ := (mem_portsInOrder_iff hw ho).mp hp
      exact (isSome_saveAlias? hw hport).trans haliased
  nodesOnce := nodup_save_uuids hn ho
  edgesOnce := by
    rw [save_edges_eq]
    exact (nodup_edgesInOrder hw ho).filterMap fun e e' saved h h' =>
      saveEdge?_inj hw hn hsingle h h'
  aliasesOnce := by
    rw [save_aliases_eq, List.map_filterMap]
    refine (nodup_portsInOrder hw ho (by decide)).filterMap fun p q place h h' => ?_
    obtain ⟨saved, hsaved, rfl⟩ := Option.map_eq_some_iff.mp h
    obtain ⟨saved', hsaved', hplace⟩ := Option.map_eq_some_iff.mp h'
    obtain ⟨hdirection, hsame⟩ := Prod.mk.inj hplace
    obtain ⟨port, hport, hd, href⟩ := saveAlias?_eq_some hsaved
    obtain ⟨port', hport', hd', href'⟩ := saveAlias?_eq_some hsaved'
    rw [hdirection, hd] at hd'
    exact hw.port_eq_of_ref hn hport hport' hd' href (hsame ▸ href')

end Complete

end Graph

end Dataflow
