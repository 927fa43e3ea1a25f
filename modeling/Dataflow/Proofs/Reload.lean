import Dataflow.Proofs.Counted
import Dataflow.Proofs.Restore.Replica

namespace Dataflow

section Lists

variable {α β γ δ : Type}

theorem forall₂_of_map_eq {f : α → Option γ} {g : β → Option γ} {key : δ → γ} {items : List α}
    {others : List β} {named : List δ} (h : items.map f = named.map fun k => some (key k))
    (h' : others.map g = named.map fun k => some (key k)) :
    List.Forall₂ (fun a b => ∃ c, f a = some c ∧ g b = some c) items others := by
  induction named generalizing items others with
  | nil =>
      rw [List.map_eq_nil_iff.mp h, List.map_eq_nil_iff.mp h']
      exact .nil
  | cons k rest ih =>
      obtain ⟨a, items, rfl, ha, hitems⟩ := List.map_eq_cons_iff.mp h
      obtain ⟨b, others, rfl, hb, hothers⟩ := List.map_eq_cons_iff.mp h'
      exact .cons ⟨key k, ha, hb⟩ (ih hitems hothers)

theorem filterMap_eq_of_forall₂ {R : α → β → Prop} {f : α → Option γ} {g : β → Option γ}
    (hR : ∀ {a b}, R a b → f a = g b) {items : List α} {others : List β}
    (h : List.Forall₂ R items others) : items.filterMap f = others.filterMap g := by
  induction h with
  | nil => rfl
  | cons hab _ ih => rw [List.filterMap_cons, List.filterMap_cons, hR hab, ih]

end Lists

theorem SavedNode.eq_of_loose {a b : SavedNode} (h : a.loose = b.loose)
    (hparent : a.parent = b.parent) : a = b := by
  cases a
  cases b
  simp_all [loose]

namespace Graph

open Relation

variable {graph filled nested other : Graph}

section Again

-- The template that a saved node is made from again has its tag and its properties.
theorem Stocked.eq_of_create (hg : Stocked graph) {id : NodeId} {node : Node}
    (hn : graph.node? id = some node) {template : Template}
    (h : Registry.core.create node.tag node.properties = .ok template) :
    template.tag = node.tag ∧ template.properties = node.properties := by
  obtain ⟨tag, given, made, hcreate, hmade⟩ := hg.catalogued hn
  rw [hmade.tag] at h ⊢
  exact ⟨(Registry.kind_of_create_again hcreate h).1,
    Registry.properties_of_create_again hcreate hmade.keys h⟩

theorem Stocked.exists_create (hg : Stocked graph) (hc : graph.Counted) {id : NodeId} {node : Node}
    (hn : graph.node? id = some node) : ∃ template,
      Registry.core.create node.tag node.properties = .ok template ∧
        graph.MadeOf node template := by
  obtain ⟨tag, given, made, hcreate, hmade⟩ := hg.catalogued hn
  have hcounts : made.tag = "group" →
      Catalogue.portCount node.properties "inputs" = .ok made.inputs.length ∧
        Catalogue.portCount node.properties "outputs" = .ok made.outputs.length := by
    intro hgroup
    have hcounts := hc id node hn (hmade.tag.trans hgroup)
    rwa [show node.inputs.length = made.inputs.length from hmade.length_side .input,
      show node.outputs.length = made.outputs.length from hmade.length_side .output] at hcounts
  obtain ⟨again, hagain, hkindred⟩ := Registry.exists_create_again hcreate hcounts
  rw [← hmade.tag] at hagain
  obtain ⟨htag, hproperties⟩ := hg.eq_of_create hn hagain
  refine ⟨again, hagain, htag.symm, hmade.units.trans hkindred.units.symm, fun direction => ?_,
    fun key hkey => hproperties ▸ hkey⟩
  have hlooks := congrArg (List.map some) (hkindred.looks direction)
  rw [List.map_map, List.map_map] at hlooks
  exact (hmade.looks direction).trans hlooks.symm

theorem MadeOf.peer {node node' : Node} {template : Template} (h : graph.MadeOf node template)
    (h' : other.MadeOf node' template) (huuid : node'.uuid = node.uuid) :
    Peer graph other node node' :=
  ⟨huuid, h'.units.trans h.units.symm,
    fun direction => (h'.looks direction).trans (h.looks direction).symm⟩

theorem saveNode?_fields {id : NodeId} {node : Node} {saved : SavedNode}
    (hn : graph.node? id = some node) (h : graph.saveNode? id = some saved) :
    saved.tag = node.tag ∧ saved.properties = node.properties ∧
      ∀ direction, saved.flags direction = graph.savedFlags (node.side direction) := by
  rw [saveNode?, hn, Option.map_some] at h
  obtain rfl := Option.some.inj h
  exact ⟨rfl, rfl, fun direction => by cases direction <;> rfl⟩

theorem mem_save_nodes (ho : graph.Outlined) {id : NodeId} {saved : SavedNode}
    (h : graph.saveNode? id = some saved) : saved ∈ graph.save.nodes := by
  obtain ⟨node, hn, -⟩ := saveNode?_eq_some h
  exact List.mem_filterMap.mpr ⟨id, ho.mem_nodesInOrder_iff.mpr ⟨node, hn⟩, h⟩

theorem exists_saveNode? {id : NodeId} {node : Node} (hn : graph.node? id = some node) :
    ∃ saved, graph.saveNode? id = some saved := by
  rw [saveNode?, hn]
  exact ⟨_, rfl⟩

theorem exists_node_of_saved {saved : SavedNode} (h : saved ∈ graph.save.nodes) :
    ∃ id node, graph.node? id = some node ∧ graph.saveNode? id = some saved ∧
      saved.uuid = node.uuid := by
  obtain ⟨id, -, hid⟩ := List.mem_filterMap.mp h
  obtain ⟨node, hnode, huuid, -⟩ := saveNode?_eq_some hid
  exact ⟨id, node, hnode, hid, huuid⟩

-- A node of a document can be made again, with ports for all of its flags.
theorem Stocked.exists_template (hg : Stocked graph) (hc : graph.Counted) {saved : SavedNode}
    (h : saved ∈ graph.save.nodes) : ∃ template,
      Registry.core.create saved.tag saved.properties = .ok template ∧
        ∀ direction, (saved.flags direction).length ≤ (template.side direction).length := by
  obtain ⟨id, node, hnode, hid, -⟩ := exists_node_of_saved h
  obtain ⟨htag, hproperties, hflags⟩ := saveNode?_fields hnode hid
  obtain ⟨template, hcreate, hmade⟩ := hg.exists_create hc hnode
  refine ⟨template, htag ▸ hproperties ▸ hcreate, fun direction => ?_⟩
  rw [hflags, savedFlags_eq, ← hmade.length_side]
  exact (List.rdropWhile_prefix _ _).length_le.trans_eq (List.length_map _)

end Again

section Stages

variable {snapshot : Snapshot} {settings : Settings}

-- A document that is accepted has its nodes made, then nested, then joined.
theorem stages_of_restore (h : Graph.restore snapshot .core settings = .ok other) :
    ∃ filled nested linked, (snapshot.nodes.map (·.uuid)).Nodup ∧
      Filled settings snapshot.nodes filled ∧ Nested filled snapshot.nodes [] nested ∧
      snapshot.aliases.foldlM restoreAlias nested = .ok linked ∧
      snapshot.edges.foldlM restoreEdge linked = .ok other := by
  obtain ⟨filled, hnodes, h⟩ := exists_of_bind_eq_ok h
  obtain ⟨nested, hparents, h⟩ := exists_of_bind_eq_ok h
  obtain ⟨linked, haliases, hedges⟩ := exists_of_bind_eq_ok h
  have hfilled := filled_of_foldlM hnodes
  exact ⟨filled, nested, linked, nodup_of_foldlM hnodes, hfilled,
    nested_of_foldlM hfilled hparents, haliases, hedges⟩

-- Where it says once of each port what it stands for, it is joined as the document says.
theorem linked_of_restore
    (honce : (snapshot.aliases.map fun saved => (saved.direction, saved.port)).Nodup)
    (h : Graph.restore snapshot .core settings = .ok other) :
    ∃ filled nested, Filled settings snapshot.nodes filled ∧
      Nested filled snapshot.nodes [] nested ∧
      Linked nested snapshot.aliases snapshot.edges other := by
  obtain ⟨filled, nested, linked, -, hfilled, hnested, haliases, hedges⟩ := stages_of_restore h
  exact ⟨filled, nested, hfilled, hnested, linked_of_foldlM (hnested.wired hfilled.wired)
    (hnested.named hfilled.named) (hnested.plain hfilled.plain) honce haliases hedges⟩

end Stages

-- What is joined as the document says is joined as in the graph: an input is fed by the same
-- outputs in the same order.
theorem Linked.feeders_eq (hg : Stocked graph)
    (hlinked : Linked nested graph.save.aliases graph.save.edges other) (ref : PortRef) :
    other.feeders ref = graph.feeders ref := by
  rw [hlinked.feeders, feeders_eq_filter hg.reachable.healthy.wired hg.reachable.named
    hg.reachable.outlined]

theorem Linked.standIn?_eq (hg : Stocked graph)
    (hlinked : Linked nested graph.save.aliases graph.save.edges other) (direction : Direction)
    (ref : PortRef) : other.standIn? direction ref = graph.standIn? direction ref := by
  refine Option.ext fun target => ?_
  rw [hlinked.standIns, mem_save_aliases_iff hg.reachable.healthy.wired hg.reachable.named
    hg.reachable.outlined]

section Same

variable {settings : Settings} (hg : Stocked graph)
  (hnested : Nested filled graph.save.nodes [] nested)
  (hlinked : Linked nested graph.save.aliases graph.save.edges other)

include hg hnested hlinked

theorem parent_restored {id' : NodeId} {node' : Node} {saved saved' : SavedNode}
    (hmem : saved ∈ graph.save.nodes) (hn' : other.node? id' = some node')
    (huuid : node'.uuid = saved.uuid) (hsaved' : other.saveNode? id' = some saved') :
    saved'.parent = saved.parent := by
  obtain ⟨found, hfound, -, hparent⟩ := saveNode?_eq_some hsaved'
  obtain rfl := Option.some.inj (hn'.symm.trans hfound)
  obtain ⟨inner, hinner, hbare⟩ := hlinked.alike.symm.exists_node hn'
  rw [hparent, hlinked.outline, ← Node.eq_of_bare Node.item (fun _ => rfl) hbare,
    funext hlinked.alike.nameAt?]
  exact hnested.parent_eq (nodup_save_uuids hg.reachable.named hg.reachable.outlined) hmem hinner
    ((Node.eq_of_bare Node.uuid (fun _ => rfl) hbare).trans huuid)

variable (hfilled : Filled settings graph.save.nodes filled)

include hfilled

-- The node that was made for a saved one is saved like it, but for where it stands.
theorem exists_restored {id : NodeId} {node : Node} {saved : SavedNode}
    (hn : graph.node? id = some node) (hsaved : graph.saveNode? id = some saved) :
    ∃ id' node', other.node? id' = some node' ∧ node'.uuid = saved.uuid ∧
      (other.saveNode? id').map SavedNode.loose = some saved.loose := by
  have halike := hnested.alike.trans hlinked.alike
  obtain ⟨htag, hproperties, hflags⟩ := saveNode?_fields hn hsaved
  obtain ⟨id', first, template, hfirst, hcreate, -, hloose⟩ :=
    hfilled.made saved (mem_save_nodes hg.reachable.outlined hsaved)
  obtain ⟨node', hn', hbare⟩ := halike.exists_node hfirst
  have hsame := saveNode?_loose hfirst hn' hbare fun direction => by
    rw [Node.side_of_bare hbare, halike.savedFlags]
  refine ⟨id', node', hn', ?_, ?_⟩
  · rw [saveNode?, hfirst, Option.map_some, Option.map_some] at hloose
    have heq := congrArg SavedNode.uuid (Option.some.inj hloose)
    exact (Node.eq_of_bare Node.uuid (fun _ => rfl) hbare).trans heq
  · rw [htag, hproperties] at hcreate
    obtain ⟨htag', hproperties'⟩ := hg.eq_of_create hn hcreate
    have hinputs := hflags .input
    have houtputs := hflags .output
    simp only [SavedNode.flags, savedFlags_eq] at hinputs houtputs
    rw [hsame, hloose, htag', hproperties', SavedNode.loose, ← htag, ← hproperties, hinputs,
      houtputs, List.rdropWhile_idempotent, List.rdropWhile_idempotent]

-- Items of the two outlines that have nodes of one name have the same to be saved of them.
theorem savedAt?_eq {a b : ItemId} {uuid : Uuid} (ha : graph.nameAt? a = some uuid)
    (hb : other.nameAt? b = some uuid) : graph.savedAt? a = other.savedAt? b := by
  have ho := hg.reachable.outlined
  have ho' := hlinked.edits.outlined hnested.outlined
  have hnamed' := hlinked.edits.named (hnested.named hfilled.named)
  obtain ⟨id, node, hnode, rfl, rfl⟩ := ho.nameAt?_eq_some_iff.mp ha
  obtain ⟨id', node', hnode', rfl, huuid'⟩ := ho'.nameAt?_eq_some_iff.mp hb
  obtain ⟨saved, hsaved⟩ := exists_saveNode? hnode
  obtain ⟨saved', hsaved'⟩ := exists_saveNode? hnode'
  obtain ⟨found, hfound, huuid, -⟩ := saveNode?_eq_some hsaved
  obtain rfl := Option.some.inj (hnode.symm.trans hfound)
  obtain ⟨made, first, hfirst, hname, hloose⟩ :=
    exists_restored hg hnested hlinked hfilled hnode hsaved
  obtain rfl := hnamed'.id_eq_of_uuid hfirst hnode' (hname.trans (huuid.trans huuid'.symm))
  rw [savedAt?_item ho hnode, savedAt?_item ho' hnode', hsaved, hsaved']
  rw [hsaved', Option.map_some] at hloose
  exact congrArg some (SavedNode.eq_of_loose (Option.some.inj hloose)
    (parent_restored hg hnested hlinked (mem_save_nodes ho hsaved) hfirst hname hsaved')).symm

-- Inside what goes by one name, and at the top, the same names stand in the same order.
theorem save_nodes_eq : other.save.nodes = graph.save.nodes := by
  have hn := hg.reachable.named
  have ho := hg.reachable.outlined
  have ho' := hlinked.edits.outlined hnested.outlined
  have hnames : ∀ items : List ItemId, items.map other.nameAt? = items.map nested.nameAt? :=
    fun items => List.map_congr_left fun item _ => hlinked.alike.nameAt? item
  rw [save_nodes, save_nodes]
  refine (filterMap_eq_of_forall₂ (R := fun a b => ∃ uuid, graph.nameAt? a = some uuid ∧
    other.nameAt? b = some uuid) ?_ (ho.tidy.forall₂_descendants ho'.tidy ?_ ?_)).symm
  · rintro a b ⟨uuid, ha, hb⟩
    exact savedAt?_eq hg hnested hlinked hfilled ha hb
  · rintro a b ⟨uuid, ha, hb⟩
    obtain ⟨id, node, hnode, rfl, rfl⟩ := ho.nameAt?_eq_some_iff.mp ha
    obtain ⟨id', node', hnode', rfl, huuid⟩ := ho'.nameAt?_eq_some_iff.mp hb
    obtain ⟨inner, hinner, hbare⟩ := hlinked.alike.symm.exists_node hnode'
    refine forall₂_of_map_eq (names_children hn ho (.inr ⟨id, node, hnode, rfl⟩)) ?_
    rw [hlinked.outline, hnames, ← Node.eq_of_bare Node.item (fun _ => rfl) hbare,
      hnested.inside id' inner hinner, ho.nameAt?_item hnode,
      Node.eq_of_bare Node.uuid (fun _ => rfl) hbare, huuid]
  · refine forall₂_of_map_eq (names_children hn ho (.inl rfl)) ?_
    rw [hlinked.outline, hlinked.alike.root, hnames, hnested.top, List.append_nil, ho.nameAt?_root]

theorem save_eq : other.save = graph.save := by
  have hw := hg.reachable.healthy.wired
  have hn := hg.reachable.named
  have hw' := hlinked.edits.wired (hnested.wired hfilled.wired)
  have hn' := hlinked.edits.named (hnested.named hfilled.named)
  have hnodes := save_nodes_eq hg hnested hlinked hfilled
  obtain ⟨first, hfirst⟩ := graph.exists_bound
  obtain ⟨second, hsecond⟩ := other.exists_bound
  have hbound : ∀ {id node direction}, graph.node? id = some node →
      (node.side direction).length ≤ max first second :=
    fun hn => (hfirst hn).trans (le_max_left ..)
  have hbound' : ∀ {id node direction}, other.node? id = some node →
      (node.side direction).length ≤ max first second :=
    fun hn => (hsecond hn).trans (le_max_right ..)
  have hedges : other.save.edges = graph.save.edges := by
    rw [save_edges hw hn hbound, save_edges hw' hn' hbound', hnodes]
    simp only [hlinked.feeders_eq hg]
  have haliases : other.save.aliases = graph.save.aliases := by
    rw [save_aliases hw hn hbound, save_aliases hw' hn' hbound', hnodes]
    simp only [hlinked.standIn?_eq hg]
  generalize other.save = there at hnodes hedges haliases ⊢
  generalize graph.save = here at hnodes hedges haliases ⊢
  cases there
  cases here
  congr 1

end Same

section Accepted

-- What is made of the document of a node is its peer.
theorem exists_peer (hg : Stocked graph) (hc : graph.Counted)
    (hfilled : Filled graph.settings graph.save.nodes filled)
    (hnested : Nested filled graph.save.nodes [] nested) {id : NodeId} {node : Node}
    (hn : graph.node? id = some node) :
    ∃ id' node', nested.node? id' = some node' ∧ Peer graph nested node node' := by
  obtain ⟨saved, hid⟩ := exists_saveNode? hn
  obtain ⟨htag, hproperties, -⟩ := saveNode?_fields hn hid
  obtain ⟨found, hfound, huuid, -⟩ := saveNode?_eq_some hid
  obtain rfl := Option.some.inj (hn.symm.trans hfound)
  obtain ⟨id', node', template, hn', hcreate, hmade', hloose⟩ :=
    hfilled.made saved (mem_save_nodes hg.reachable.outlined hid)
  obtain ⟨again, hagain, hmade⟩ := hg.exists_create hc hn
  rw [htag, hproperties] at hcreate
  obtain rfl := Except.ok.inj (hagain.symm.trans hcreate)
  rw [saveNode?, hn', Option.map_some, Option.map_some] at hloose
  have hname := congrArg SavedNode.uuid (Option.some.inj hloose)
  have hthere : nested.node? id' = some node' ∧ nested.MadeOf node' again := by
    rw [hnested.same]
    exact ⟨hn', hmade'.tag, hmade'.units, hmade'.looks, hmade'.keys⟩
  exact ⟨id', node', hthere.1, hmade.peer hthere.2 (Eq.trans hname huuid)⟩

theorem replica_of_nested (hg : Stocked graph) (hc : graph.Counted)
    (hfilled : Filled graph.settings graph.save.nodes filled)
    (hnested : Nested filled graph.save.nodes [] nested) : Replica graph nested := by
  have hn := hg.reachable.named
  have ho := hg.reachable.outlined
  have hn' := hnested.named hfilled.named
  have hlinked := Linked.of_plain (hnested.plain hfilled.plain)
  constructor
  case settings => exact hnested.alike.settings.trans hfilled.settings
  case forth => exact exists_peer hg hc hfilled hnested
  case back =>
    intro id' node' hnode'
    have hfirst : filled.node? id' = some node' := by
      rw [hnested.same] at hnode'
      exact hnode'
    obtain ⟨saved, hsaved, hname⟩ := List.mem_map.mp (hfilled.uuid_mem hfirst)
    obtain ⟨id, node, hnode, -, huuid⟩ := exists_node_of_saved hsaved
    obtain ⟨made, found, hfound, hpeer⟩ := exists_peer hg hc hfilled hnested hnode
    obtain rfl := hn'.id_eq_of_uuid hfound hnode' (hpeer.uuid.trans (huuid.symm.trans hname))
    exact ⟨id, node, hnode, Option.some.inj (hfound.symm.trans hnode') ▸ hpeer⟩
  case above =>
    rintro a b ⟨id, node, id', holder, hnode, hholder, rfl, rfl, hup⟩
    rcases reflTransGen_iff_eq_or_transGen.mp
      (hnested.within hnode hholder hup.to_reflTransGen) with heq | hwithin
    · obtain rfl := hn'.id_eq_of_uuid hnode hholder heq.symm
      rw [Option.some.inj (hnode.symm.trans hholder)] at hup
      exact absurd hup (hnested.outlined.tidy.irrefl _)
    · exact above_of_transGen_within hn ho hwithin
  case standIns =>
    intro direction ref target h
    cases hlinked.standIns.mp h
  case feeders =>
    intro source destination h
    rw [hlinked.feeders] at h
    cases h

-- The four loops of a restoration are gone through to the end.
theorem exists_restore (hg : Stocked graph) (hc : graph.Counted) :
    ∃ other, restore graph.save .core graph.settings = .ok other := by
  have hn := hg.reachable.named
  have ho := hg.reachable.outlined
  obtain ⟨filled, hmade⟩ : ∃ filled,
      graph.save.nodes.foldlM (restoreNode .core) (Graph.new graph.settings) = .ok filled :=
    exists_filled (nodup_save_uuids hn ho) fun _ hsaved => hg.exists_template hc hsaved
  have hfilled := filled_of_foldlM hmade
  have hparents : ∀ saved ∈ graph.save.nodes, ∀ parent, saved.parent = some parent →
      parent ∈ graph.save.nodes.map (·.uuid) := by
    intro saved hsaved parent hparent
    obtain ⟨-, -, id, holder, -, hholder, -, rfl, -⟩ :=
      above_of_within ho ⟨saved, hsaved, rfl, hparent⟩
    exact (mem_save_uuids_iff ho).mpr ⟨id, holder, hholder, rfl⟩
  obtain ⟨nested, hmoved⟩ := exists_nested hfilled hparents
    fun uuid h => Above.irrefl hn ho uuid (above_of_transGen_within hn ho h)
  have hnested := nested_of_foldlM hfilled hmoved
  obtain ⟨linked, haliases, other, hedges⟩ := exists_linked hg
    (replica_of_nested hg hc hfilled hnested) (hnested.wired hfilled.wired)
    (hnested.named hfilled.named) hnested.outlined (hnested.plain hfilled.plain)
  refine ⟨other, ?_⟩
  rw [restore, hmade]
  show (graph.save.nodes.foldlM restoreParent filled >>= _) = _
  rw [hmoved]
  show (graph.save.aliases.foldlM restoreAlias nested >>= _) = _
  rw [haliases]
  exact hedges

-- Of a document that is accepted, every group says how many ports it has.
theorem Stocked.portCounts_of_restore (hg : Stocked graph) {settings : Settings}
    (h : restore graph.save .core settings = .ok other) {id : NodeId} {node : Node}
    (hn : graph.node? id = some node) (hgroup : node.tag = "group") :
    ∃ inputs outputs, Catalogue.portCount node.properties "inputs" = .ok inputs ∧
      Catalogue.portCount node.properties "outputs" = .ok outputs := by
  obtain ⟨filled, hnodes, -⟩ := exists_of_bind_eq_ok h
  obtain ⟨saved, hsaved⟩ := exists_saveNode? hn
  obtain ⟨htag, hproperties, -⟩ := saveNode?_fields hn hsaved
  obtain ⟨-, -, template, -, hcreate, -⟩ :=
    (filled_of_foldlM hnodes).made saved (mem_save_nodes hg.reachable.outlined hsaved)
  rw [htag, hproperties] at hcreate
  obtain ⟨htag', hproperties'⟩ := hg.eq_of_create hn hcreate
  have hcounts := Registry.counts_of_create hcreate (htag'.trans hgroup)
  rw [hproperties'] at hcounts
  exact ⟨_, _, hcounts⟩

end Accepted

-- A graph with built-in nodes only is saved completely, and whenever its document is
-- accepted again, saving what came of it gives the same document. It is accepted as long
-- as the properties of every group give the number of its ports.
theorem save_of_restore_save (hg : Stocked graph) :
    (∀ other, restore graph.save .core graph.settings = .ok other →
      other.save = graph.save ∧ ∀ ref, other.feeders ref = graph.feeders ref) ∧
    graph.Complete ∧
    (graph.Counted → ∃ other, restore graph.save .core graph.settings = .ok other) := by
  have hcomplete := complete hg.reachable.healthy.wired hg.reachable.named hg.reachable.outlined
    hg.reachable.legal.single
  refine ⟨fun other h => ?_, hcomplete, exists_restore hg⟩
  obtain ⟨filled, nested, hfilled, hnested, hlinked⟩ := linked_of_restore hcomplete.aliasesOnce h
  exact ⟨save_eq hg hnested hlinked hfilled, hlinked.feeders_eq hg⟩

end Graph

-- A node that counts, as the built-in registry makes it.
def Template.counting : Template where
  tag := "length"
  inputs := [.plain "list" .any]
  outputs := [.plain "length" .int]
  units :=
    [{ output := 0
       inputs := [0]
       run := fun inputs => do
         Catalogue.perGroup (← inputs.get 0) fun members =>
           .ok (.int (Int64.ofNat members.length)) }]
  properties := .empty

namespace Graph

theorem create_counting : Registry.core.create "length" .empty = .ok .counting :=
  Registry.create_core_eq_ok_iff.mpr
    ⟨Catalogue.length, by simp [Catalogue.all], by decide, .counting, rfl, rfl⟩

theorem create_group :
    Registry.core.create "group" .empty = .ok (Catalogue.groupOf 1 1 .empty) :=
  Registry.create_core_eq_ok_iff.mpr ⟨Catalogue.group, by simp [Catalogue.all], by decide, _,
    Catalogue.build_group_eq_ok_iff.mpr ⟨1, 1, rfl, rfl, rfl⟩, rfl⟩

-- A group with a node inside that its output stands for, and a node that the group feeds.
def grouping : List Operation :=
  [.addNode (Catalogue.groupOf 1 1 .empty) ⟨1⟩, .addNodeIn .counting ⟨2⟩ ⟨1⟩,
    .addNode .counting ⟨3⟩, .linkAlias ⟨2⟩ ⟨4⟩, .addEdge ⟨2⟩ ⟨5⟩]

def grouped : Graph :=
  (Graph.new .standard).run grouping

theorem grouped_spared : Spared grouped := by
  refine (Spared.new .standard).run (fun operation h => ?_) fun operation h => ?_ <;>
    simp only [grouping, List.mem_cons, List.not_mem_nil, or_false] at h
  · rcases h with rfl | rfl | rfl | rfl | rfl
    · exact ⟨"group", .empty, create_group⟩
    · exact ⟨"length", .empty, create_counting⟩
    · exact ⟨"length", .empty, create_counting⟩
    · trivial
    · trivial
  · rcases h with rfl | rfl | rfl | rfl | rfl <;> trivial

theorem grouped_restored :
    (∃ other, restore grouped.save .core grouped.settings = .ok other ∧
      other.save = grouped.save) ∧ grouped.Complete ∧
      grouped.save.edges = [⟨⟨⟨1⟩, 0⟩, ⟨⟨3⟩, 0⟩⟩] ∧
      grouped.save.aliases = [⟨.output, ⟨⟨1⟩, 0⟩, ⟨⟨2⟩, 0⟩⟩] := by
  obtain ⟨hsame, hcomplete, haccepted⟩ := save_of_restore_save grouped_spared.stocked_counted.1
  obtain ⟨other, hother⟩ := haccepted grouped_spared.stocked_counted.2
  exact ⟨⟨other, hother, (hsame other hother).1⟩, hcomplete, by decide, by decide⟩

-- So no edit makes a document unloadable but one that sets the number of a group's ports.
theorem restore_of_spared (h : Spared graph) :
    ∃ other, restore graph.save .core graph.settings = .ok other :=
  exists_restore h.stocked_counted.1 h.stocked_counted.2

theorem grouped_loads_again :
    ∃ other, restore grouped.save .core grouped.settings = .ok other :=
  restore_of_spared grouped_spared

-- A group that was told to have as many inputs as a word says.
def worded : Graph :=
  ((Graph.new .standard).perform (.addNode (Catalogue.groupOf 1 1 .empty) ⟨1⟩)).perform
    (.setProperty ⟨1⟩ "inputs" (.leaf (.text "two")))

theorem worded_refused :
    Stocked worded ∧ ¬ ∃ other, restore worded.save .core worded.settings = .ok other := by
  have hgroup : Stocked ((Graph.new .standard).perform
      (.addNode (Catalogue.groupOf 1 1 .empty) ⟨1⟩)) :=
    (Stocked.new .standard).performed ⟨"group", .empty, create_group⟩
  have hworded : Stocked worded := hgroup.performed trivial
  refine ⟨hworded, ?_⟩
  rintro ⟨other, h⟩
  have hnode : (worded.node? ⟨1⟩).map (fun node => (node.tag, node.properties.find? "inputs")) =
      some ("group", some (.leaf (.text "two"))) := rfl
  obtain ⟨node, hnode, heq⟩ := Option.map_eq_some_iff.mp hnode
  obtain ⟨htag, hword⟩ := Prod.mk.inj heq
  obtain ⟨inputs, -, hinputs, -⟩ := hworded.portCounts_of_restore h hnode htag
  rw [Catalogue.portCount, hword] at hinputs
  cases hinputs

end Graph

end Dataflow
