import Dataflow.Proofs.Reload

namespace Dataflow

-- Edges that come from the same sources to every destination, in whatever order the
-- destinations are gone through, are the same.
theorem SavedEdge.perm_of_sources {edges others : List SavedEdge}
    (h : ∀ ref, (edges.filter fun saved => saved.destination = ref).map (·.source) =
      (others.filter fun saved => saved.destination = ref).map (·.source)) :
    edges.Perm others := by
  have hfilter : ∀ (items : List SavedEdge) (ref : PortRef),
      items.filter (fun saved => saved.destination = ref) =
        ((items.filter fun saved => saved.destination = ref).map (·.source)).map
          fun source => ⟨source, ref⟩ := by
    intro items ref
    rw [List.map_map]
    refine (List.map_id'' (fun _ => rfl) _).symm.trans (List.map_congr_left fun saved hsaved => ?_)
    obtain rfl := of_decide_eq_true (List.mem_filter.mp hsaved).2
    rfl
  refine (@List.perm_iff_count _ instBEqOfDecidableEq _ _ _).mpr fun saved => ?_
  have hcount : ∀ items : List SavedEdge, @List.count _ instBEqOfDecidableEq saved items =
      @List.count _ instBEqOfDecidableEq saved
        (items.filter fun other => other.destination = saved.destination) :=
    fun items => (@List.count_filter _ instBEqOfDecidableEq _ _ _ _ (by simp)).symm
  rw [hcount edges, hcount others, hfilter edges, hfilter others, h]

namespace Graph

variable {graph : Graph} {settings : Settings}

section Loaded

-- What a document that is accepted has become, whatever its aliases: its nodes were made,
-- then nested, then joined.
structure Loaded (snapshot : Snapshot) (settings : Settings) (first second graph : Graph) :
    Prop where
  filled : Filled settings snapshot.nodes first
  nested : Nested first snapshot.nodes [] second
  joined : Joined second snapshot.edges graph
  uuidsOnce : (snapshot.nodes.map (·.uuid)).Nodup

theorem exists_loaded {snapshot : Snapshot}
    (h : Graph.restore snapshot .core settings = .ok graph) :
    ∃ first second, Loaded snapshot settings first second graph := by
  obtain ⟨filled, nested, linked, honce, hfilled, hnested, haliases, hedges⟩ :=
    stages_of_restore h
  exact ⟨filled, nested, hfilled, hnested, joined_of_foldlM (hnested.wired hfilled.wired)
    (hnested.named hfilled.named) (hnested.plain hfilled.plain) haliases hedges, honce⟩

namespace Loaded

variable {snapshot : Snapshot} {first second : Graph}
  (h : Loaded snapshot settings first second graph)

include h

theorem alike : Alike first graph :=
  h.nested.alike.trans h.joined.alike

theorem settings_eq : graph.settings = settings :=
  h.alike.settings.trans h.filled.settings

theorem wired : graph.Wired :=
  h.joined.edits.wired (h.nested.wired h.filled.wired)

theorem named : graph.Named :=
  h.joined.edits.named (h.nested.named h.filled.named)

theorem outlined : graph.Outlined :=
  h.joined.edits.outlined h.nested.outlined

-- Every entry has a node, which stands where the entry says.
theorem exists_node {saved : SavedNode} (hsaved : saved ∈ snapshot.nodes) :
    ∃ id node, graph.node? id = some node ∧ node.uuid = saved.uuid ∧
      (graph.parent? id).bind graph.uuidOf? = saved.parent := by
  obtain ⟨id, made, hmade, huuid⟩ := h.filled.exists_node (List.mem_map_of_mem hsaved)
  have hinner : second.node? id = some made := by
    rw [h.nested.same]
    exact hmade
  obtain ⟨node, hn, hbare⟩ := h.joined.alike.exists_node hinner
  refine ⟨id, node, hn, (Node.eq_of_bare Node.uuid (fun _ => rfl) hbare).trans huuid, ?_⟩
  rw [← h.nested.parent_eq h.uuidsOnce hsaved hinner huuid, parent?, hn, Option.bind_some,
    Option.bind_assoc, h.joined.outline, Node.eq_of_bare Node.item (fun _ => rfl) hbare]
  exact congrArg _ (funext h.joined.alike.nameAt?)

-- Every node has an entry.
theorem uuid_mem {id : NodeId} {node : Node} (hn : graph.node? id = some node) :
    node.uuid ∈ snapshot.nodes.map (·.uuid) := by
  obtain ⟨made, hmade, hbare⟩ := h.alike.symm.exists_node hn
  rw [← Node.eq_of_bare Node.uuid (fun _ => rfl) hbare]
  exact h.filled.uuid_mem hmade

theorem perm_nodes : (graph.nodes.ids.map fun id =>
    (graph.uuidOf? id, (graph.parent? id).bind graph.uuidOf?)).Perm
      (snapshot.nodes.map fun saved => (some saved.uuid, saved.parent)) := by
  have hids : ∀ {id}, id ∈ graph.nodes.ids ↔ ∃ node, graph.node? id = some node :=
    graph.nodes.mem_ids_iff _
  have hname : ∀ {id node}, graph.node? id = some node → graph.uuidOf? id = some node.uuid := by
    intro id node hn
    rw [uuidOf?, hn, Option.map_some]
  have hleft : (graph.nodes.ids.map fun id =>
      (graph.uuidOf? id, (graph.parent? id).bind graph.uuidOf?)).Nodup := by
    refine List.Nodup.map_on (fun a ha b hb hab => ?_) graph.nodes.ids_nodup
    obtain ⟨node, hn⟩ := hids.mp ha
    obtain ⟨node', hn'⟩ := hids.mp hb
    have huuid := (Prod.mk.inj hab).1
    rw [hname hn, hname hn'] at huuid
    exact h.named.id_eq_of_uuid hn hn' (Option.some.inj huuid)
  have hright : (snapshot.nodes.map fun saved => (some saved.uuid, saved.parent)).Nodup := by
    refine List.Nodup.map_on (fun a ha b hb hab => ?_) (List.Nodup.of_map _ h.uuidsOnce)
    exact List.inj_on_of_nodup_map h.uuidsOnce ha hb (Option.some.inj (Prod.mk.inj hab).1)
  refine (List.perm_ext_iff_of_nodup hleft hright).mpr fun entry => ?_
  simp only [List.mem_map]
  constructor
  · rintro ⟨id, hid, rfl⟩
    obtain ⟨node, hn⟩ := hids.mp hid
    obtain ⟨saved, hsaved, huuid⟩ := List.mem_map.mp (h.uuid_mem hn)
    obtain ⟨id', node', hn', huuid', hparent⟩ := h.exists_node hsaved
    obtain rfl := h.named.id_eq_of_uuid hn' hn (huuid'.trans huuid)
    exact ⟨saved, hsaved, by rw [hname hn, hparent, huuid]⟩
  · rintro ⟨saved, hsaved, rfl⟩
    obtain ⟨id, node, hn, huuid, hparent⟩ := h.exists_node hsaved
    exact ⟨id, hids.mpr ⟨node, hn⟩, by rw [hname hn, hparent, huuid]⟩

-- Every entry has an edge, and every edge an entry.
theorem perm_edges
    (hsingle : ∀ {e e' edge}, graph.edge? e = some edge → graph.edge? e' = some edge → e = e') :
    (graph.edges.ids.map graph.saveEdge?).Perm (snapshot.edges.map some) ∧
      snapshot.edges.Nodup := by
  have hcomplete := complete h.wired h.named h.outlined hsingle
  have hsaved : graph.save.edges.Perm snapshot.edges := by
    refine SavedEdge.perm_of_sources fun ref => ?_
    rw [← feeders_eq_filter h.wired h.named h.outlined, h.joined.feeders]
  exact ⟨hcomplete.edges.trans (hsaved.map some), hsaved.nodup hcomplete.edgesOnce⟩

-- The ports of a group that was just made are as many as its properties say.
theorem counted : graph.Counted := by
  intro id node hn htag
  obtain ⟨made, hmade, hbare⟩ := h.alike.symm.exists_node hn
  obtain ⟨saved, hsaved, huuid⟩ := List.mem_map.mp (h.filled.uuid_mem hmade)
  obtain ⟨id', found, template, hfound, hcreate, hof, hloose⟩ := h.filled.made saved hsaved
  have hloose' := hloose
  rw [saveNode?, hfound, Option.map_some, Option.map_some] at hloose'
  have hsame := Option.some.inj hloose'
  have hname : found.uuid = saved.uuid := congrArg SavedNode.uuid hsame
  have hproperties : found.properties = template.properties :=
    congrArg SavedNode.properties hsame
  obtain rfl := h.filled.named.id_eq_of_uuid hfound hmade (hname.trans huuid)
  obtain rfl := Option.some.inj (hfound.symm.trans hmade)
  have hgroup : template.tag = "group" := by
    rw [← hof.tag, Node.eq_of_bare Node.tag (fun _ => rfl) hbare, htag]
  obtain ⟨hinputs, houtputs⟩ := Registry.counts_of_create hcreate hgroup
  rw [← Node.eq_of_bare Node.properties (fun _ => rfl) hbare, hproperties,
    ← Node.eq_of_bare Node.inputs (fun _ => rfl) hbare,
    ← Node.eq_of_bare Node.outputs (fun _ => rfl) hbare]
  exact ⟨hinputs.trans (congrArg _ (hof.length_side .input).symm),
    houtputs.trans (congrArg _ (hof.length_side .output).symm)⟩

end Loaded

-- What is loaded from a document has built-in nodes only.
theorem Stocked.restored {snapshot : Snapshot}
    (h : Graph.restore snapshot .core settings = .ok graph) : graph.Stocked where
  reachable := .restored h
  sourced hn := .restored h (Option.isSome_of_eq_some hn)

-- The document of a graph with built-in nodes loads again, and the graph that comes of it
-- has the same document.
theorem Stocked.exists_restore_save (hg : Stocked graph) (hc : graph.Counted) :
    ∃ other, restore graph.save .core graph.settings = .ok other ∧ other.save = graph.save := by
  have hcomplete := complete hg.reachable.healthy.wired hg.reachable.named hg.reachable.outlined
    hg.reachable.legal.single
  obtain ⟨other, hother⟩ := exists_restore hg hc
  obtain ⟨filled, nested, hfilled, hnested, hlinked⟩ :=
    linked_of_restore hcomplete.aliasesOnce hother
  exact ⟨other, hother, save_eq hg hnested hlinked hfilled⟩

end Loaded

-- Whatever a document says, a graph that is made of it is whole: nothing refers to what is
-- not there, nothing depends on itself, and what stands inside what is a tree. It has one
-- node for each entry of the document, in the container that the entry names, and one edge
-- for each entry, with the sources of each input in the order of the document. Its own
-- document loads again and stays the same from then on.
theorem restored_graph_whole {snapshot : Snapshot}
    (h : Graph.restore snapshot .core settings = .ok graph) :
    graph.Intact ∧ graph.hasCycle = false ∧
    (graph.outline.Tidy ∧ ∀ id node, graph.node? id = some node →
      Relation.TransGen graph.outline.Under node.item graph.root) ∧
    ((snapshot.nodes.map (·.uuid)).Nodup ∧
      (graph.nodes.ids.map fun id => (graph.uuidOf? id, (graph.parent? id).bind graph.uuidOf?)).Perm
        (snapshot.nodes.map fun saved => (some saved.uuid, saved.parent))) ∧
    (snapshot.edges.Nodup ∧
      (graph.edges.ids.map graph.saveEdge?).Perm (snapshot.edges.map some) ∧
      ∀ ref, graph.feeders ref =
        (snapshot.edges.filter fun saved => saved.destination = ref).map (·.source)) ∧
    ∃ again, Graph.restore graph.save .core settings = .ok again ∧ again.save = graph.save := by
  obtain ⟨first, second, hloaded⟩ := exists_loaded h
  have hhealthy := Healthy.restored h
  have hstocked := Stocked.restored h
  have ho := hloaded.outlined
  obtain ⟨hedges, honce⟩ := hloaded.perm_edges hstocked.reachable.legal.single
  refine ⟨hloaded.wired.intact hloaded.named ho,
    hloaded.wired.hasCycle_eq_false_iff.mpr hhealthy.acyclic,
    ⟨ho.tidy, fun id node => ho.below_root⟩,
    ⟨hloaded.uuidsOnce, hloaded.perm_nodes⟩, ⟨honce, hedges, hloaded.joined.feeders⟩, ?_⟩
  obtain ⟨again, hagain⟩ := hstocked.exists_restore_save hloaded.counted
  rw [hloaded.settings_eq] at hagain
  exact ⟨again, hagain⟩

-- A node that comes before its container, an alias that is given twice, and flags that say
-- nothing.
def tangled : Snapshot where
  nodes :=
    [⟨⟨2⟩, "length", .origin, .empty, some ⟨1⟩, [], [.none]⟩,
      ⟨⟨1⟩, "group", .origin, .empty, none, [], []⟩,
      ⟨⟨3⟩, "length", .origin, .empty, none, [], []⟩]
  edges := [⟨⟨⟨1⟩, 0⟩, ⟨⟨3⟩, 0⟩⟩]
  aliases := [⟨.output, ⟨⟨1⟩, 0⟩, ⟨⟨2⟩, 0⟩⟩, ⟨.output, ⟨⟨1⟩, 0⟩, ⟨⟨2⟩, 0⟩⟩]

theorem tangled_whole : ∃ graph, restore tangled .core .standard = .ok graph ∧
    graph.hasCycle = false ∧ graph.nodes.ids.length = 3 ∧ graph.edges.ids.length = 1 ∧
    graph.feeders ⟨⟨3⟩, 0⟩ = [⟨⟨1⟩, 0⟩] ∧
    ∃ again, restore graph.save .core .standard = .ok again ∧ again.save = graph.save := by
  have hloads : (restore tangled .core .standard).isOk = true := by decide +kernel
  cases hgraph : restore tangled .core .standard with
  | error e =>
      rw [hgraph] at hloads
      cases hloads
  | ok graph =>
      obtain ⟨-, hacyclic, -, ⟨-, hnodes⟩, ⟨-, hedges, hfeeders⟩, hagain⟩ :=
        restored_graph_whole hgraph
      refine ⟨graph, rfl, hacyclic, ?_, ?_, (hfeeders _).trans (by decide), hagain⟩
      · simpa [tangled] using hnodes.length_eq
      · simpa [tangled] using hedges.length_eq

end Graph

end Dataflow
