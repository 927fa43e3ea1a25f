import Dataflow.Proofs.Evaluation.Settle
import Dataflow.Proofs.Forest

namespace Dataflow

-- What tells a node from others, for as long as it is there.
def Node.label (node : Node) : Uuid × ItemId :=
  (node.uuid, node.item)

namespace Graph

open Relation

variable {graph other : Graph}

-- The index of names holds the names of the nodes and no others, each once.
structure Named (graph : Graph) : Prop where
  once : (graph.names.map (·.1)).Nodup
  listed : ∀ {uuid id}, (uuid, id) ∈ graph.names ↔
    ∃ node, graph.node? id = some node ∧ node.uuid = uuid

-- The outline holds its top and one item for each node, which says whose it is. Nothing
-- stands above the top, and every node stands somewhere below it.
structure Outlined (graph : Graph) : Prop where
  tidy : graph.outline.Tidy
  items : ∀ {item entry}, graph.outline.get? item = some entry ↔
    item = graph.root ∧ entry = .root ∨
      ∃ id node, graph.node? id = some node ∧ item = node.item ∧ entry = .node id
  top : graph.outline.parent? graph.root = none
  placed : ∀ {id node}, graph.node? id = some node →
    ∃ parent, graph.outline.parent? node.item = some parent

-- A change that nodes keep their names and their places through.
structure Keeps (graph other : Graph) : Prop where
  names : other.names = graph.names
  outline : other.outline = graph.outline
  root : other.root = graph.root
  label : ∀ id, (other.node? id).map Node.label = (graph.node? id).map Node.label

namespace Keeps

theorem node (h : Keeps graph other) {id : NodeId} {node : Node}
    (hn : other.node? id = some node) :
    ∃ found, graph.node? id = some found ∧ found.uuid = node.uuid ∧ found.item = node.item := by
  have hlabel := h.label id
  rw [hn] at hlabel
  obtain ⟨found, hfound, heq⟩ := Option.map_eq_some_iff.mp hlabel.symm
  exact ⟨found, hfound, (Prod.mk.inj heq).1, (Prod.mk.inj heq).2⟩

theorem symm (h : Keeps graph other) : Keeps other graph :=
  ⟨h.names.symm, h.outline.symm, h.root.symm, fun id => (h.label id).symm⟩

theorem node' (h : Keeps graph other) {id : NodeId} {node : Node}
    (hn : graph.node? id = some node) :
    ∃ found, other.node? id = some found ∧ found.uuid = node.uuid ∧ found.item = node.item :=
  h.symm.node hn

theorem of_bare (h : other.bare = graph.bare) : Keeps graph other where
  names := by
    have heq := congrArg Graph.names h
    exact heq
  outline := by
    have heq := congrArg Graph.outline h
    exact heq
  root := by
    have heq := congrArg Graph.root h
    exact heq
  label := map_node?_of_bare h Node.label fun _ => rfl

theorem invalidate (h : Keeps graph other) (id : NodeId) : Keeps graph (other.invalidate id) where
  names := h.names
  outline := h.outline
  root := h.root
  label n := by
    rw [← h.label n, node?_invalidate, Option.map_map]
    congr 1
    funext node
    simp only [Function.comp]
    split <;> rfl

theorem invalidateAll (h : Keeps graph other) (ids : List NodeId) :
    Keeps graph (ids.foldl Graph.invalidate other) := by
  induction ids generalizing other with
  | nil => exact h
  | cons id rest ih => exact ih (h.invalidate id)

theorem nodesUnder (h : Keeps graph other) {id : NodeId} {node found : Node}
    (hitem : found.item = node.item) :
    other.nodesUnder id found = graph.nodesUnder id node := by
  have hnode : other.nodeOfItem? = graph.nodeOfItem? := by
    funext item
    rw [nodeOfItem?, h.outline, nodeOfItem?]
  rw [Graph.nodesUnder, Graph.nodesUnder, h.outline, hnode, hitem]

end Keeps

-- An edit that is no insertion, no removal and no move keeps the names and places.
theorem Edit.shape (h : graph.Edit other) :
    (∃ template uuid parent, graph.findByUuid uuid = none ∧
      (parent = graph.root ∨ ∃ c node, graph.node? c = some node ∧ parent = node.item) ∧
      other = graph.withNode template uuid parent) ∨
    (∃ id node, graph.node? id = some node ∧ other =
      { (((graph.nodesUnder id node).foldl Graph.invalidate graph).withdraw
          (graph.nodesUnder id node)) with
        outline := (graph.outline.take node.item).2 }) ∨
    (∃ id container, other = (graph.moveInto id container).2) ∨ Keeps graph other := by
  cases h with
  | @insert template uuid parent _ hu hp => exact .inl ⟨template, uuid, parent, hu, hp, rfl⟩
  | @remove id node hn => exact .inr (.inl ⟨id, node, hn, rfl⟩)
  | move id container => exact .inr (.inr (.inl ⟨id, container, rfl⟩))
  | connect | disconnect | link | unlink | flags =>
      refine .inr (.inr (.inr (Keeps.invalidate ?_ _)))
      exact ⟨rfl, rfl, rfl, fun _ => rfl⟩
  | property hn key value =>
      refine .inr (.inr (.inr (Keeps.invalidate ?_ _)))
      refine ⟨rfl, rfl, rfl, fun n => ?_⟩
      rw [node?_withProperty, Option.map_map]
      congr 1
      funext node
      simp only [Function.comp]
      split <;> rfl
  | position hn position =>
      refine .inr (.inr (.inr ⟨rfl, rfl, rfl, fun n => ?_⟩))
      rw [node?_withPosition, Option.map_map]
      congr 1
      funext node
      simp only [Function.comp]
      split <;> rfl
  | invalidate id => exact .inr (.inr (.inr (Keeps.invalidate ⟨rfl, rfl, rfl, fun _ => rfl⟩ id)))

section Named

theorem Named.new (settings : Settings) : (Graph.new settings).Named where
  once := List.nodup_nil
  listed := by
    intro uuid id
    constructor
    · intro h
      cases h
    · rintro ⟨node, hn, -⟩
      cases hn

theorem Named.keeps (hg : graph.Named) (h : Keeps graph other) : other.Named where
  once := h.names ▸ hg.once
  listed := by
    intro uuid id
    rw [h.names, hg.listed]
    constructor
    · rintro ⟨node, hn, rfl⟩
      obtain ⟨found, hfound, hu, -⟩ := h.node' hn
      exact ⟨found, hfound, hu⟩
    · rintro ⟨node, hn, rfl⟩
      obtain ⟨found, hfound, hu, -⟩ := h.node hn
      exact ⟨found, hfound, hu⟩

theorem mem_of_lookup {uuid : Uuid} {id : NodeId} (h : graph.findByUuid uuid = some id) :
    (uuid, id) ∈ graph.names := by
  obtain ⟨before, after, hsplit, -⟩ := List.lookup_eq_some_iff.mp h
  rw [hsplit]
  exact List.mem_append_right _ List.mem_cons_self

theorem Named.findByUuid_eq_some_iff (hg : graph.Named) {uuid : Uuid} {id : NodeId} :
    graph.findByUuid uuid = some id ↔ ∃ node, graph.node? id = some node ∧ node.uuid = uuid := by
  rw [← hg.listed]
  refine ⟨mem_of_lookup, fun hm => ?_⟩
  cases hfind : graph.findByUuid uuid with
  | none =>
      have := List.lookup_eq_none_iff.mp hfind _ hm
      simp at this
  | some found =>
      have heq := List.inj_on_of_nodup_map hg.once (mem_of_lookup hfind) hm rfl
      rw [(Prod.mk.inj heq).2]

theorem Named.insert (hg : graph.Named) (template : Template) {uuid : Uuid} (parent : ItemId)
    (hu : graph.findByUuid uuid = none) : (graph.withNode template uuid parent).Named := by
  have hnames : (graph.withNode template uuid parent).names =
    (uuid, graph.nodes.fresh) :: graph.names := rfl
  constructor
  case once =>
    rw [hnames, List.map_cons, List.nodup_cons]
    refine ⟨fun hm => ?_, hg.once⟩
    obtain ⟨entry, hm, heq⟩ := List.mem_map.mp hm
    have := List.lookup_eq_none_iff.mp hu entry hm
    simp [heq] at this
  case listed =>
    intro uuid' id
    rw [hnames, List.mem_cons, node?_withNode, Prod.mk.injEq, hg.listed]
    by_cases hid : id = graph.nodes.fresh
    · subst hid
      have hnone : graph.node? graph.nodes.fresh = none := graph.nodes.find?_fresh
      simp [hnone, newNode, eq_comm]
    · simp [hid]

theorem Named.withdraw (hg : graph.Named) (doomed : List NodeId) :
    (graph.withdraw doomed).Named := by
  have hnames : (graph.withdraw doomed).names =
    graph.names.filter fun entry => !(graph.uuidsOf doomed).contains entry.1 := rfl
  constructor
  case once =>
    rw [hnames]
    exact hg.once.sublist (List.Sublist.map _ List.filter_sublist)
  case listed =>
    intro uuid id
    rw [hnames, List.mem_filter, hg.listed, node?_withdraw]
    constructor
    · rintro ⟨⟨node, hn, rfl⟩, hkept⟩
      have hout : id ∉ doomed := by
        intro hm
        have hmem : node.uuid ∈ graph.uuidsOf doomed :=
          List.mem_map.mpr ⟨node, List.mem_filterMap.mpr ⟨id, hm, hn⟩, rfl⟩
        simp [hmem] at hkept
      exact ⟨node, (if_neg hout).trans hn, rfl⟩
    · rintro ⟨node, hn, rfl⟩
      split at hn
      · cases hn
      · next hout =>
        refine ⟨⟨node, hn, rfl⟩, ?_⟩
        simp only [Bool.not_eq_true', List.contains_eq_mem, decide_eq_false_iff_not]
        intro hm
        obtain ⟨gone, hgone, huuid⟩ := List.mem_map.mp hm
        obtain ⟨goneId, hdoomed, hgone⟩ := List.mem_filterMap.mp hgone
        have hsame := (hg.findByUuid_eq_some_iff.mpr ⟨gone, hgone, huuid⟩).symm.trans
          (hg.findByUuid_eq_some_iff.mpr ⟨node, hn, rfl⟩)
        exact hout (Option.some.inj hsame ▸ hdoomed)

theorem Edit.named (h : graph.Edit other) (hg : graph.Named) : other.Named := by
  rcases h.shape with ⟨template, uuid, parent, hu, -, rfl⟩ | ⟨id, node, hn, rfl⟩ |
    ⟨id, container, rfl⟩ | hkeeps
  · exact hg.insert template parent hu
  · have hinvalid := hg.keeps (Keeps.invalidateAll ⟨rfl, rfl, rfl, fun _ => rfl⟩
      (graph.nodesUnder id node))
    have hrest := hinvalid.withdraw (graph.nodesUnder id node)
    exact ⟨hrest.once, hrest.listed⟩
  · obtain ⟨outline, heq⟩ := graph.moveInto_snd id container
    rw [heq]
    exact ⟨hg.once, hg.listed⟩
  · exact hg.keeps hkeeps

end Named

section Outlined

theorem containerItem?_eq_some {container : Option NodeId} {parent : ItemId}
    (h : graph.containerItem? container = some parent) :
    parent = graph.root ∨ ∃ c node, graph.node? c = some node ∧ parent = node.item := by
  cases container with
  | none => exact .inl (Option.some.inj h).symm
  | some c =>
      obtain ⟨node, hn, heq⟩ := Option.map_eq_some_iff.mp h
      exact .inr ⟨c, node, hn, heq.symm⟩

theorem Outlined.new (settings : Settings) : (Graph.new settings).Outlined := by
  constructor
  case tidy => exact Forest.Tidy.empty.insert _
  case items =>
    intro item entry
    have hnode : ∀ id, (Graph.new settings).node? id = none := fun _ => rfl
    have hget : (Graph.new settings).outline.get? item =
        if item = (Graph.new settings).root then some .root else none :=
      Forest.get?_insert Forest.empty Entry.root item
    rw [hget]
    simp only [hnode, reduceCtorEq, false_and, exists_false, or_false]
    split
    · next h => simp [h, eq_comm]
    · next h => simp [h]
  case top => rfl
  case placed =>
    intro id node h
    cases h

theorem Outlined.keeps (hg : graph.Outlined) (h : Keeps graph other) : other.Outlined where
  tidy := h.outline ▸ hg.tidy
  items := by
    intro item entry
    rw [h.outline, h.root, hg.items]
    refine or_congr_right ⟨?_, ?_⟩
    · rintro ⟨id, node, hn, rfl, rfl⟩
      obtain ⟨found, hfound, -, hitem⟩ := h.node' hn
      exact ⟨id, found, hfound, hitem.symm, rfl⟩
    · rintro ⟨id, node, hn, rfl, rfl⟩
      obtain ⟨found, hfound, -, hitem⟩ := h.node hn
      exact ⟨id, found, hfound, hitem.symm, rfl⟩
  top := by
    rw [h.outline, h.root]
    exact hg.top
  placed := by
    intro id node hn
    obtain ⟨found, hfound, -, hitem⟩ := h.node hn
    rw [h.outline, ← hitem]
    exact hg.placed hfound

namespace Outlined

variable (hg : graph.Outlined)

include hg

theorem get?_item {id : NodeId} {node : Node} (hn : graph.node? id = some node) :
    graph.outline.get? node.item = some (.node id) :=
  hg.items.mpr (.inr ⟨id, node, hn, rfl, rfl⟩)

theorem get?_root : graph.outline.get? graph.root = some .root :=
  hg.items.mpr (.inl ⟨rfl, rfl⟩)

theorem item_ne_root {id : NodeId} {node : Node} (hn : graph.node? id = some node) :
    node.item ≠ graph.root := by
  intro heq
  have h := hg.get?_item hn
  rw [heq, hg.get?_root] at h
  cases h

theorem item_inj {id id' : NodeId} {node node' : Node} (hn : graph.node? id = some node)
    (hn' : graph.node? id' = some node') (h : node.item = node'.item) : id = id' := by
  have heq := (hg.get?_item hn).symm.trans (h ▸ hg.get?_item hn')
  exact Entry.node.inj (Option.some.inj heq)

theorem nodeOfItem?_eq_some_iff {item : ItemId} {id : NodeId} :
    graph.nodeOfItem? item = some id ↔ ∃ node, graph.node? id = some node ∧ node.item = item := by
  constructor
  · intro h
    rw [nodeOfItem?] at h
    split at h
    · next found hget =>
      obtain rfl := Option.some.inj h
      rcases hg.items.mp hget with ⟨-, hroot⟩ | ⟨id, node, hn, hitem, hentry⟩
      · cases hroot
      · obtain rfl := Entry.node.inj hentry
        exact ⟨node, hn, hitem.symm⟩
    · cases h
  · rintro ⟨node, hn, rfl⟩
    rw [nodeOfItem?, hg.get?_item hn]

-- An item that children or nodes of the graph hang from is there.
theorem contains_parent {parent : ItemId}
    (hp : parent = graph.root ∨ ∃ c node, graph.node? c = some node ∧ parent = node.item) :
    graph.outline.contains parent = true := by
  rw [Forest.contains_eq]
  rcases hp with rfl | ⟨c, node, hn, rfl⟩
  · rw [hg.get?_root]
    rfl
  · rw [hg.get?_item hn]
    rfl

theorem contains_item {id : NodeId} {node : Node} (hn : graph.node? id = some node) :
    graph.outline.contains node.item = true :=
  hg.contains_parent (.inr ⟨id, node, hn, rfl⟩)

-- What the outline loses with the item of a node.
theorem pruned {id : NodeId} {node : Node} (hn : graph.node? id = some node) :
    Forest.Pruned graph.outline node.item (graph.outline.take node.item).2 :=
  (hg.tidy.take (hg.contains_item hn)).2

theorem mem_nodesUnder_iff {id n : NodeId} {node : Node} (hn : graph.node? id = some node) :
    n ∈ graph.nodesUnder id node ↔ ∃ found, graph.node? n = some found ∧
      ReflTransGen graph.outline.Under found.item node.item := by
  rw [nodesUnder, List.mem_cons, List.mem_filterMap]
  constructor
  · rintro (rfl | ⟨item, hitem, howner⟩)
    · exact ⟨node, hn, .refl⟩
    · obtain ⟨found, hfound, rfl⟩ := hg.nodeOfItem?_eq_some_iff.mp howner
      exact ⟨found, hfound, (hg.tidy.mem_descendants_iff.mp hitem).to_reflTransGen⟩
  · rintro ⟨found, hfound, hunder⟩
    rcases reflTransGen_iff_eq_or_transGen.mp hunder with heq | hunder
    · exact .inl (hg.item_inj hfound hn heq.symm)
    · exact .inr ⟨found.item, hg.tidy.mem_descendants_iff.mpr hunder,
        hg.nodeOfItem?_eq_some_iff.mpr ⟨found, hfound, rfl⟩⟩

-- What the outline has is its top and the nodes.
theorem root_or_node {item : ItemId} (h : item ∈ graph.outline.items.ids) :
    item = graph.root ∨ ∃ id node, graph.node? id = some node ∧ item = node.item := by
  obtain ⟨entry, hentry⟩ := (Arena.mem_ids_iff _ _).mp h
  have hget : graph.outline.get? item = some entry.data := by rw [Forest.get?, hentry]; rfl
  rcases hg.items.mp hget with ⟨rfl, -⟩ | ⟨id, node, hn, hitem, -⟩
  · exact .inl rfl
  · exact .inr ⟨id, node, hn, hitem⟩

-- What stands below a node are nodes.
theorem exists_node_of_under {id : NodeId} {node : Node} (hn : graph.node? id = some node)
    {item : ItemId} (h : ReflTransGen graph.outline.Under item node.item) :
    ∃ n found, graph.node? n = some found ∧ found.item = item := by
  rcases ReflTransGen.cases_head h with rfl | ⟨above, habove, -⟩
  · exact ⟨id, node, hn, rfl⟩
  · rcases hg.root_or_node (Forest.mem_ids_of_parent habove) with rfl | ⟨n, found, hfound, hitem⟩
    · cases hg.top.symm.trans habove
    · exact ⟨n, found, hfound, hitem.symm⟩

theorem container_root_or_node {item parent : ItemId}
    (h : graph.outline.parent? item = some parent) :
    parent = graph.root ∨ ∃ id node, graph.node? id = some node ∧ parent = node.item :=
  hg.root_or_node (Forest.mem_ids_of_children (hg.tidy.listed.mpr h))

-- Every node stands below the top.
theorem below_root {id : NodeId} {node : Node} (hn : graph.node? id = some node) :
    TransGen graph.outline.Under node.item graph.root := by
  obtain ⟨top, hup, htop⟩ := hg.tidy.exists_top node.item
  obtain ⟨parent, hparent⟩ := hg.placed hn
  have hne : node.item ≠ top := by
    rintro rfl
    rw [htop] at hparent
    cases hparent
  have habove := (reflTransGen_iff_eq_or_transGen.mp hup).resolve_left (Ne.symm hne)
  rcases hg.root_or_node (hg.tidy.mem_ids_of_above habove) with rfl | ⟨other, found, hfound, rfl⟩
  · exact habove
  · obtain ⟨parent', hparent'⟩ := hg.placed hfound
    rw [htop] at hparent'
    cases hparent'

theorem mem_nodesInOrder_iff {id : NodeId} :
    id ∈ graph.nodesInOrder ↔ ∃ node, graph.node? id = some node := by
  rw [nodesInOrder, List.mem_filterMap]
  constructor
  · rintro ⟨item, -, hitem⟩
    obtain ⟨node, hn, -⟩ := hg.nodeOfItem?_eq_some_iff.mp hitem
    exact ⟨node, hn⟩
  · rintro ⟨node, hn⟩
    exact ⟨node.item, hg.tidy.mem_descendants_iff.mpr (hg.below_root hn),
      hg.nodeOfItem?_eq_some_iff.mpr ⟨node, hn, rfl⟩⟩

-- No two items are those of the same node.
theorem nodup_filterMap {items : List ItemId} (h : items.Nodup) :
    (items.filterMap graph.nodeOfItem?).Nodup := by
  refine h.filterMap fun a b id ha hb => ?_
  obtain ⟨node, hn, rfl⟩ := hg.nodeOfItem?_eq_some_iff.mp ha
  obtain ⟨node', hn', rfl⟩ := hg.nodeOfItem?_eq_some_iff.mp hb
  rw [Option.some.inj (hn.symm.trans hn')]

theorem nodup_nodesInOrder : graph.nodesInOrder.Nodup :=
  hg.nodup_filterMap (hg.tidy.nodup_descendants graph.root)

-- What stands below the top are nodes.
theorem exists_node_of_mem {item : ItemId}
    (h : item ∈ graph.outline.descendants graph.root) :
    ∃ id node, graph.node? id = some node ∧ node.item = item := by
  have hunder := hg.tidy.mem_descendants_iff.mp h
  rcases hg.root_or_node (Forest.mem_ids_of_below hunder) with rfl | ⟨id, node, hn, hitem⟩
  · exact absurd hunder (hg.tidy.irrefl _)
  · exact ⟨id, node, hn, hitem.symm⟩

-- The check for nesting finds a container at any depth, and nothing else.
theorem encloses_iff {a b : NodeId} {outer inner : Node}
    (ha : graph.node? a = some outer) (hb : graph.node? b = some inner) :
    graph.encloses a b = true ↔ TransGen graph.outline.Under inner.item outer.item := by
  rw [encloses, ha, hb]
  exact hg.tidy.isAncestor_iff

-- A new node hangs from where it was put.
theorem attached_withNode (template : Template) (uuid : Uuid) {parent : ItemId}
    (hp : graph.outline.contains parent = true) :
    Forest.Attached (graph.outline.insert (.node graph.nodes.fresh)).2 parent
        graph.outline.items.fresh (graph.withNode template uuid parent).outline ∧
      (graph.withNode template uuid parent).outline.Tidy := by
  have hgrown := hg.tidy.insert (.node graph.nodes.fresh)
  have hnew : ∀ a, ¬ (graph.outline.insert (.node graph.nodes.fresh)).2.Under a
      graph.outline.items.fresh := by
    intro a ha
    rw [Forest.under_insert] at ha
    obtain ⟨item, hitem⟩ :=
      (Arena.mem_ids_iff _ _).mp (Forest.mem_ids_of_children (hg.tidy.listed.mpr ha))
    rw [Arena.find?_fresh] at hitem
    cases hitem
  have hne := Forest.ne_fresh hp
  have hfresh : graph.outline.parent? graph.outline.items.fresh = none := by
    rw [Forest.parent?, Arena.find?_fresh]
    rfl
  obtain ⟨outline, houtline⟩ := @Forest.exists_appendChild? _
    (graph.outline.insert (.node graph.nodes.fresh)).2 parent graph.outline.items.fresh hne
    (by rw [Forest.contains_eq, Forest.get?_insert, if_neg hne, ← Forest.contains_eq, hp])
    (by rw [Forest.contains_eq, Forest.get?_insert, if_pos rfl]; rfl)
    (by
      rw [← Bool.not_eq_true, hgrown.isAncestor_iff, TransGen.tail'_iff]
      rintro ⟨a, -, ha⟩
      exact hnew a ha)
  have hattached := (Forest.appendChild?_eq_some houtline).2.2
  have heq : (graph.withNode template uuid parent).outline = outline := by
    have hget : ((graph.outline.insert (.node graph.nodes.fresh)).2.appendChild? parent
      graph.outline.items.fresh).getD (graph.outline.insert (.node graph.nodes.fresh)).2 =
        outline := by rw [houtline, Option.getD_some]
    exact hget
  rw [heq]
  refine ⟨hattached, hgrown.attach ?_ ?_ hattached⟩
  · rw [Forest.parent?_insert, hfresh]
  · intro hup
    rcases ReflTransGen.cases_tail hup with heq | ⟨a, -, ha⟩
    · exact hne heq.symm
    · exact hnew a ha

theorem insert (template : Template) (uuid : Uuid) {parent : ItemId}
    (hp : parent = graph.root ∨ ∃ c node, graph.node? c = some node ∧ parent = node.item) :
    (graph.withNode template uuid parent).Outlined := by
  obtain ⟨hattached, htidy⟩ := hg.attached_withNode template uuid (hg.contains_parent hp)
  have hroot : (graph.withNode template uuid parent).root = graph.root := rfl
  have hitem : (graph.newNode template uuid).item = graph.outline.items.fresh := rfl
  have hrootne : graph.root ≠ graph.outline.items.fresh :=
    Forest.ne_fresh (hg.contains_parent (.inl rfl))
  have hitemne : ∀ {id node}, graph.node? id = some node →
      node.item ≠ graph.outline.items.fresh := fun hn =>
    Forest.ne_fresh (hg.contains_item hn)
  have hidne : ∀ {id node}, graph.node? id = some node → id ≠ graph.nodes.fresh := fun hn =>
    Arena.ne_fresh_of_find? _ hn
  constructor
  case tidy => exact htidy
  case items =>
    intro item entry
    rw [hattached.data, Forest.get?_insert, hroot]
    split
    · next heq =>
      subst heq
      constructor
      · intro h
        obtain rfl := Option.some.inj h
        exact .inr ⟨_, _, graph.node?_withNode_fresh template uuid parent, hitem.symm, rfl⟩
      · rintro (⟨heq, -⟩ | ⟨id, node, hn, heq, rfl⟩)
        · exact absurd heq.symm hrootne
        · rcases (node?_withNode_eq_some_iff ..).mp hn with ⟨hid, -⟩ | hn
          · rw [hid]
          · exact absurd heq.symm (hitemne hn)
    · next hne =>
      rw [hg.items]
      refine or_congr_right ⟨?_, ?_⟩
      · rintro ⟨id, node, hn, heq, hentry⟩
        exact ⟨id, node, graph.node?_withNode_of_node? template uuid parent hn, heq, hentry⟩
      · rintro ⟨id, node, hn, heq, hentry⟩
        rcases (node?_withNode_eq_some_iff ..).mp hn with ⟨-, rfl⟩ | hn
        · exact absurd (heq.trans hitem) hne
        · exact ⟨id, node, hn, heq, hentry⟩
  case top =>
    rw [hattached.above, hroot, if_neg hrootne, Forest.parent?_insert]
    exact hg.top
  case placed =>
    intro id node hn
    rw [hattached.above, Forest.parent?_insert]
    rcases (node?_withNode_eq_some_iff ..).mp hn with ⟨-, rfl⟩ | hn
    · exact ⟨parent, if_pos hitem⟩
    · rw [if_neg (hitemne hn)]
      exact hg.placed hn

theorem remove {id : NodeId} {node : Node} (hn : graph.node? id = some node)
    (hnodes : ∀ n, other.node? n = if n ∈ graph.nodesUnder id node then none else graph.node? n)
    (houtline : other.outline = (graph.outline.take node.item).2)
    (hroot : other.root = graph.root) :
    other.Outlined := by
  obtain ⟨htidy, hpruned⟩ := hg.tidy.take (hg.contains_item hn)
  rw [← houtline] at htidy hpruned
  have hkept : ∀ {n found}, other.node? n = some found → graph.node? n = some found ∧
      ¬ ReflTransGen graph.outline.Under found.item node.item := by
    intro n found h
    rw [hnodes] at h
    split at h
    · cases h
    · next hout => exact ⟨h, fun hunder => hout ((hg.mem_nodesUnder_iff hn).mpr ⟨found, h, hunder⟩)⟩
  have htop : ¬ ReflTransGen graph.outline.Under graph.root node.item := by
    intro hunder
    obtain ⟨n, found, hfound, hitem⟩ := hg.exists_node_of_under hn hunder
    exact hg.item_ne_root hfound hitem
  constructor
  case tidy => exact htidy
  case items =>
    intro item entry
    rw [hroot]
    by_cases hunder : ReflTransGen graph.outline.Under item node.item
    · rw [hpruned.gone hunder]
      refine ⟨fun h => (by cases h), ?_⟩
      rintro (⟨rfl, -⟩ | ⟨n, found, hfound, rfl, -⟩)
      · exact absurd hunder htop
      · exact absurd hunder (hkept hfound).2
    · rw [hpruned.data hunder, hg.items]
      refine or_congr_right ⟨?_, ?_⟩
      · rintro ⟨n, found, hfound, rfl, hentry⟩
        refine ⟨n, found, ?_, rfl, hentry⟩
        rw [hnodes, if_neg, hfound]
        intro hm
        obtain ⟨found', hfound', hunder'⟩ := (hg.mem_nodesUnder_iff hn).mp hm
        obtain rfl := Option.some.inj (hfound.symm.trans hfound')
        exact hunder hunder'
      · rintro ⟨n, found, hfound, heq, hentry⟩
        exact ⟨n, found, (hkept hfound).1, heq, hentry⟩
  case top =>
    rw [hroot, hpruned.above htop]
    exact hg.top
  case placed =>
    intro n found hfound
    obtain ⟨hfound, hout⟩ := hkept hfound
    rw [hpruned.above hout]
    exact hg.placed hfound

-- An item taken off its parent fits under every item that does not stand below it.
theorem exists_attached {id : NodeId} {node : Node} (hn : graph.node? id = some node)
    {loose : Forest Entry} (hloose : Forest.Detached graph.outline node.item loose)
    {parent : ItemId} (hp : graph.outline.contains parent = true)
    (hup : ¬ ReflTransGen graph.outline.Under parent node.item) :
    ∃ outline, loose.appendChild? parent node.item = some outline ∧ outline.Tidy ∧
      Forest.Attached loose parent node.item outline := by
  have htidy := hg.tidy.detach hloose
  have hup' : ¬ ReflTransGen loose.Under parent node.item :=
    fun h => hup ((hg.tidy.below_detached_iff hloose).mp h)
  have hthere : ∀ a, loose.contains a = graph.outline.contains a := by
    intro a
    rw [Forest.contains_eq, hloose.data, Forest.contains_eq]
  obtain ⟨outline, h⟩ := @Forest.exists_appendChild? _ loose parent node.item
    (fun heq => hup' (heq ▸ .refl)) (by rw [hthere, hp])
    (by rw [hthere, hg.contains_item hn])
    (by
      rw [← Bool.not_eq_true, htidy.isAncestor_iff]
      exact fun h => hup' h.to_reflTransGen)
  have hattached := (Forest.appendChild?_eq_some h).2.2
  exact ⟨outline, h, htidy.attach (by rw [hloose.above, if_pos rfl]) hup' hattached, hattached⟩

-- A node that is moved ends up in the container where it fits, and else where it was.
theorem moveInto_eq {id : NodeId} {node : Node} (hn : graph.node? id = some node)
    {container : Option NodeId} {parent : ItemId}
    (hp : graph.containerItem? container = some parent) :
    ∃ result above loose outline, graph.moveInto id container =
        (result, { graph with outline := outline }) ∧
      Forest.Detached graph.outline node.item loose ∧
      Forest.Attached loose above node.item outline ∧ outline.Tidy ∧
      graph.outline.contains above = true ∧
      (¬ ReflTransGen graph.outline.Under parent node.item → result = .ok () ∧ above = parent) ∧
      (ReflTransGen graph.outline.Under parent node.item →
        result = .error (.invalidTemplate .insideItself) ∧
          graph.outline.Under node.item above) := by
  have hloose := hg.tidy.detached node.item
  have hparent := hg.contains_parent (containerItem?_eq_some hp)
  obtain ⟨previous, hprevious⟩ := hg.placed hn
  simp only [moveInto, hn, hp, hprevious, Option.getD_some]
  generalize (graph.outline.detach? node.item).getD graph.outline = loose at hloose
  by_cases hup : ReflTransGen graph.outline.Under parent node.item
  · have hback : ¬ ReflTransGen graph.outline.Under previous node.item :=
      fun h => hg.tidy.irrefl _ (TransGen.head' hprevious h)
    have hthere : graph.outline.contains previous = true := by
      rw [Forest.contains, Arena.contains_iff, ← Arena.mem_ids_iff]
      exact Forest.mem_ids_of_children (hg.tidy.listed.mpr hprevious)
    obtain ⟨outline, happend, htidy, hattached⟩ := hg.exists_attached hn hloose hthere hback
    cases hrefused : loose.appendChild? parent node.item with
    | none =>
        rw [happend, Option.getD_some]
        exact ⟨_, previous, loose, outline, rfl, hloose, hattached, htidy, hthere,
          fun h => absurd hup h, fun _ => ⟨rfl, hprevious⟩⟩
    | some outline' =>
        obtain ⟨hne, hnot, -⟩ := Forest.appendChild?_eq_some hrefused
        rw [← Bool.not_eq_true, (hg.tidy.detach hloose).isAncestor_iff] at hnot
        rw [← hg.tidy.below_detached_iff hloose] at hup
        exact absurd ((reflTransGen_iff_eq_or_transGen.mp hup).resolve_left (Ne.symm hne)) hnot
  · obtain ⟨outline, happend, htidy, hattached⟩ := hg.exists_attached hn hloose hparent hup
    rw [happend]
    exact ⟨_, parent, loose, outline, rfl, hloose, hattached, htidy, hparent,
      fun _ => ⟨rfl, rfl⟩, fun h => absurd h hup⟩

theorem move (id : NodeId) (container : Option NodeId) :
    (graph.moveInto id container).2.Outlined := by
  cases hn : graph.node? id with
  | none => simpa only [moveInto, hn] using hg
  | some node =>
      cases hp : graph.containerItem? container with
      | none => simpa only [moveInto, hn, hp] using hg
      | some parent =>
          obtain ⟨result, above, loose, outline, heq, hloose, hattached, htidy, -, -⟩ :=
            hg.moveInto_eq hn hp
          rw [heq]
          constructor
          case tidy => exact htidy
          case items =>
            intro item entry
            rw [hattached.data, hloose.data]
            exact hg.items
          case top =>
            rw [hattached.above, hloose.above, if_neg (hg.item_ne_root hn).symm,
              if_neg (hg.item_ne_root hn).symm]
            exact hg.top
          case placed =>
            intro n found hfound
            rw [hattached.above, hloose.above]
            split
            · exact ⟨above, rfl⟩
            · exact hg.placed hfound

end Outlined

theorem Edit.outlined (h : graph.Edit other) (hg : graph.Outlined) : other.Outlined := by
  rcases h.shape with ⟨template, uuid, parent, -, hp, rfl⟩ | ⟨id, node, hn, rfl⟩ |
    ⟨id, container, rfl⟩ | hkeeps
  · exact hg.insert template uuid hp
  · have hkeeps : Keeps graph ((graph.nodesUnder id node).foldl Graph.invalidate graph) :=
      Keeps.invalidateAll ⟨rfl, rfl, rfl, fun _ => rfl⟩ _
    obtain ⟨found, hfound, -, hitem⟩ := hkeeps.node' hn
    refine (hg.keeps hkeeps).remove hfound (fun n => ?_) ?_ rfl
    · rw [hkeeps.nodesUnder hitem]
      exact node?_withdraw _ _ n
    · rw [hkeeps.outline, hitem]
  · exact hg.move id container
  · exact hg.keeps hkeeps

end Outlined

end Graph

end Dataflow
