import Dataflow.Proofs.Saved
import Dataflow.Proofs.Stocked
import Mathlib.Data.List.DropRight

namespace Dataflow

theorem Flags.rdropWhile_append_none (flags : List Flags) (count : Nat) :
    (flags ++ List.replicate count Flags.none).rdropWhile Flags.isNone =
      flags.rdropWhile Flags.isNone := by
  induction count with
  | zero => rw [List.replicate_zero, List.append_nil]
  | succ count ih =>
      rw [List.replicate_succ', ← List.append_assoc, List.rdropWhile_concat_pos _ _ _ rfl, ih]

-- A saved node without the container that it stands in.
def SavedNode.loose (saved : SavedNode) : SavedNode :=
  { saved with parent := none }

-- The flags of the ports at one end.
def SavedNode.flags (saved : SavedNode) : Direction → List Flags
  | .input => saved.inputFlags
  | .output => saved.outputFlags

namespace Graph

variable {graph other : Graph}

theorem savedFlags_eq (graph : Graph) (ports : List PortId) : graph.savedFlags ports =
    (ports.map fun p => ((graph.port? p).map (·.flags)).getD .none).rdropWhile Flags.isNone :=
  rfl

-- The nodes of a document made, all at the top of the outline and joined by nothing.
structure Filled (settings : Settings) (done : List SavedNode) (graph : Graph) : Prop where
  edits : Edits (Graph.new settings) graph
  settings : graph.settings = settings
  top : (graph.outline.children graph.root).map graph.nameAt? =
    done.map fun saved => some saved.uuid
  leaf : ∀ id node, graph.node? id = some node → graph.outline.children node.item = []
  plain : ∀ p port, graph.port? p = some port → port.aliasOf = none ∧ port.edges = []
  edgeless : ∀ e, graph.edge? e = none
  made : ∀ saved ∈ done, ∃ id node template, graph.node? id = some node ∧
    Registry.core.create saved.tag saved.properties = .ok template ∧
    graph.MadeOf node template ∧ (graph.saveNode? id).map SavedNode.loose =
      some { saved with
        tag := template.tag
        properties := template.properties
        parent := none
        inputFlags := saved.inputFlags.rdropWhile Flags.isNone
        outputFlags := saved.outputFlags.rdropWhile Flags.isNone }

namespace Filled

theorem new (settings : Settings) : Filled settings [] (Graph.new settings) where
  edits := .refl
  settings := rfl
  top := rfl
  leaf id node hn := by cases hn
  plain p port hp := by cases hp
  edgeless _ := rfl
  made saved h := by cases h

variable {settings : Settings} {done : List SavedNode}

theorem wired (h : Filled settings done graph) : graph.Wired :=
  h.edits.wired (.new settings)

theorem named (h : Filled settings done graph) : graph.Named :=
  h.edits.named (.new settings)

theorem outlined (h : Filled settings done graph) : graph.Outlined :=
  h.edits.outlined (.new settings)

-- The graph has no other nodes than those of the document so far.
theorem uuid_mem (h : Filled settings done graph) {id : NodeId} {node : Node}
    (hn : graph.node? id = some node) : node.uuid ∈ done.map (·.uuid) := by
  have ho := h.outlined
  obtain ⟨parent, hparent⟩ := ho.placed hn
  have hmem := ho.tidy.listed.mpr hparent
  have hroot : parent = graph.root := by
    refine (ho.container_root_or_node hparent).resolve_right ?_
    rintro ⟨id', holder, hholder, rfl⟩
    rw [h.leaf id' holder hholder] at hmem
    cases hmem
  subst hroot
  have hname := List.mem_map_of_mem (f := graph.nameAt?) hmem
  rw [h.top, ho.nameAt?_item hn, List.mem_map] at hname
  obtain ⟨saved, hsaved, heq⟩ := hname
  exact List.mem_map.mpr ⟨saved, hsaved, Option.some.inj heq⟩

theorem exists_node (h : Filled settings done graph) {uuid : Uuid}
    (huuid : uuid ∈ done.map (·.uuid)) :
    ∃ id node, graph.node? id = some node ∧ node.uuid = uuid := by
  obtain ⟨saved, hsaved, rfl⟩ := List.mem_map.mp huuid
  obtain ⟨id, node, template, hn, -, -, hloose⟩ := h.made saved hsaved
  rw [saveNode?, hn, Option.map_some, Option.map_some] at hloose
  have heq := congrArg SavedNode.uuid (Option.some.inj hloose)
  exact ⟨id, node, hn, heq⟩

end Filled

section Step

variable {registry : Registry} {saved : SavedNode} {template : Template}

-- The ports of other nodes are as they were.
theorem Made.old_port (h : Made registry graph saved template other) (hw : graph.Wired) {p : PortId}
    {port : Port} (hp : graph.port? p = some port) : other.port? p = some port := by
  obtain ⟨node, hn⟩ := hw.owner hp
  have hne : port.node ≠ graph.nodes.fresh := Arena.ne_fresh_of_find? _ hn
  rw [h.port, graph.port?_withNode_of_port? template saved.uuid graph.root hp, Option.map_some]
  simp [Port.flagged, hne]

theorem Made.node? (h : Made registry graph saved template other) (id : NodeId) :
    (other.node? id).map Node.bare =
      if id = graph.nodes.fresh then
        some { graph.newNode template saved.uuid with position := saved.position }.bare
      else (graph.node? id).map Node.bare := by
  have hnode : Graph.node? { (graph.withNode template saved.uuid graph.root).withPosition
      graph.nodes.fresh saved.position with ports := other.ports } id = _ :=
    node?_withPosition (graph.withNode template saved.uuid graph.root) graph.nodes.fresh
      saved.position id
  rw [node?_of_bare h.rest, hnode, node?_withNode]
  split
  · rfl
  · simp

theorem Made.old_node (h : Made registry graph saved template other) {id : NodeId} {node : Node}
    (hn : graph.node? id = some node) :
    ∃ node', other.node? id = some node' ∧ node'.bare = node.bare := by
  have hnode := h.node? id
  rw [if_neg (Arena.ne_fresh_of_find? _ hn), hn] at hnode
  exact Option.map_eq_some_iff.mp hnode

theorem Made.new_node (h : Made registry graph saved template other) :
    ∃ node, other.node? graph.nodes.fresh = some node ∧
      node.bare = { graph.newNode template saved.uuid with position := saved.position }.bare := by
  have hnode := h.node? graph.nodes.fresh
  rw [if_pos rfl] at hnode
  exact Option.map_eq_some_iff.mp hnode

-- A node is the new one or was there before.
theorem Made.node_cases (h : Made registry graph saved template other) {id : NodeId} {node : Node}
    (hn : other.node? id = some node) :
    id = graph.nodes.fresh ∧ node.bare =
        { graph.newNode template saved.uuid with position := saved.position }.bare ∨
      ∃ old, graph.node? id = some old ∧ node.bare = old.bare := by
  have hnode := h.node? id
  rw [hn] at hnode
  split at hnode
  · next hid => exact .inl ⟨hid, Option.some.inj hnode⟩
  · obtain ⟨old, hold, heq⟩ := Option.map_eq_some_iff.mp hnode.symm
    exact .inr ⟨old, hold, heq.symm⟩

-- The new node stands behind all others at the top of the outline.
theorem Made.attached (h : Made registry graph saved template other) (ho : graph.Outlined) :
    Forest.Attached (graph.outline.insert (.node graph.nodes.fresh)).2 graph.root
      graph.outline.items.fresh other.outline := by
  have houtline : other.outline = (graph.withNode template saved.uuid graph.root).outline :=
    (Keeps.of_bare h.rest).outline
  rw [houtline]
  exact (ho.attached_withNode template saved.uuid (ho.contains_parent (.inl rfl))).1

-- The new ports stand for no others and have no edges.
theorem Made.plain (h : Made registry graph saved template other)
    (hplain : ∀ p port, graph.port? p = some port → port.aliasOf = none ∧ port.edges = [])
    {p : PortId} {port : Port} (hp : other.port? p = some port) :
    port.aliasOf = none ∧ port.edges = [] := by
  rw [h.port] at hp
  obtain ⟨found, hfound, rfl⟩ := Option.map_eq_some_iff.mp hp
  simp only [Port.aliasOf_flagged, Port.edges_flagged]
  rcases graph.port?_withNode_cases template saved.uuid graph.root hfound with
    hfound | ⟨_, _, _, rfl, -⟩
  · exact hplain p found hfound
  · exact ⟨rfl, rfl⟩

theorem flags_createdPort (saved : SavedNode) (node : NodeId) (direction : Direction) (index : Nat)
    (spec : PortSpec) :
    (((createdPort node direction index spec).flagged node .input 0 saved.inputFlags).flagged
      node .output 0 saved.outputFlags).flags =
      (saved.flags direction)[index]?.getD spec.flags := by
  cases direction <;> simp [Port.flagged, createdPort, SavedNode.flags]

theorem Made.length_flags (h : Made registry graph saved template other) (direction : Direction) :
    (saved.flags direction).length ≤ (template.side direction).length := by
  cases direction with
  | input => exact h.inputs
  | output => exact h.outputs

-- The flags of the new ports are those of the document, as far as these go.
theorem Made.savedFlags (h : Made .core graph saved template other) (direction : Direction) :
    other.savedFlags ((graph.newNode template saved.uuid).side direction) =
      (saved.flags direction).rdropWhile Flags.isNone := by
  have hall : (((graph.newNode template saved.uuid).side direction).map fun p =>
      ((other.port? p).map (·.flags)).getD .none) = saved.flags direction ++ List.replicate
        ((template.side direction).length - (saved.flags direction).length) .none := by
    have hlength := h.length_flags direction
    refine List.ext_getElem? fun index => ?_
    rw [List.getElem?_map, List.getElem?_append, List.getElem?_replicate]
    rcases graph.getElem?_newNode template saved.uuid graph.root direction index with
      ⟨hport, hspec⟩ | ⟨p, spec, hport, hspec, hcreated⟩
    · have hle := List.getElem?_eq_none_iff.mp hspec
      rw [hport, if_neg (by omega), if_neg (by omega)]
      rfl
    · have hlt := (List.getElem?_eq_some_iff.mp hspec).1
      have hflags : spec.flags = .none :=
        Registry.unflagged_of_create h.created direction spec (List.mem_of_getElem? hspec)
      rw [hport, Option.map_some, h.port, hcreated, Option.map_some, Option.map_some,
        Option.getD_some, flags_createdPort, hflags]
      split
      · next hin => rw [List.getElem?_eq_getElem hin, Option.getD_some]
      · next hout =>
        rw [List.getElem?_eq_none (Nat.le_of_not_lt hout), Option.getD_none, if_pos (by omega)]
  rw [savedFlags_eq, hall, Flags.rdropWhile_append_none]

-- What is saved of a node depends on its ports only as far as they are its own.
theorem saveNode?_loose {id : NodeId} {node node' : Node} (hn : graph.node? id = some node)
    (hn' : other.node? id = some node') (hbare : node'.bare = node.bare)
    (hflags : ∀ direction, other.savedFlags (node'.side direction) =
      graph.savedFlags (node.side direction)) :
    (other.saveNode? id).map SavedNode.loose = (graph.saveNode? id).map SavedNode.loose := by
  have hinputs := hflags .input
  have houtputs := hflags .output
  simp only [Node.side] at hinputs houtputs
  simp only [saveNode?, hn, hn', Option.map_some, SavedNode.loose, hinputs, houtputs]
  rw [Node.eq_of_bare Node.uuid (fun _ => rfl) hbare, Node.eq_of_bare Node.tag (fun _ => rfl) hbare,
    Node.eq_of_bare Node.position (fun _ => rfl) hbare,
    Node.eq_of_bare Node.properties (fun _ => rfl) hbare]

theorem Made.old_saved (h : Made registry graph saved template other) (hw : graph.Wired) {id : NodeId}
    {node : Node} (hn : graph.node? id = some node) :
    (other.saveNode? id).map SavedNode.loose = (graph.saveNode? id).map SavedNode.loose := by
  obtain ⟨node', hn', hbare⟩ := h.old_node hn
  refine saveNode?_loose hn hn' hbare fun direction => ?_
  rw [Node.side_of_bare hbare, savedFlags_eq, savedFlags_eq]
  congr 1
  refine List.map_congr_left fun p hp => ?_
  obtain ⟨port, hport, -⟩ := hw.mem_side_placed hn hp
  rw [hport, h.old_port hw hport]

theorem Made.new_saved (h : Made .core graph saved template other) :
    (other.saveNode? graph.nodes.fresh).map SavedNode.loose =
      some { saved with
        tag := template.tag
        properties := template.properties
        parent := none
        inputFlags := saved.inputFlags.rdropWhile Flags.isNone
        outputFlags := saved.outputFlags.rdropWhile Flags.isNone } := by
  obtain ⟨node, hn, hbare⟩ := h.new_node
  have hinputs := h.savedFlags .input
  have houtputs := h.savedFlags .output
  simp only [Node.side, SavedNode.flags] at hinputs houtputs
  simp only [saveNode?, hn, Option.map_some, SavedNode.loose]
  rw [Node.eq_of_bare Node.uuid (fun _ => rfl) hbare, Node.eq_of_bare Node.tag (fun _ => rfl) hbare,
    Node.eq_of_bare Node.position (fun _ => rfl) hbare,
    Node.eq_of_bare Node.properties (fun _ => rfl) hbare,
    Node.eq_of_bare Node.inputs (fun _ => rfl) hbare,
    Node.eq_of_bare Node.outputs (fun _ => rfl) hbare]
  simp only [hinputs, houtputs]
  rfl

-- The names at the top are those of before and that of the new node.
theorem Filled.top_made {settings : Settings} {done : List SavedNode}
    (hg : Filled settings done graph) (h : Made registry graph saved template other)
    (ho : other.Outlined) :
    (other.outline.children other.root).map other.nameAt? =
      (done ++ [saved]).map fun saved => some saved.uuid := by
  have hold : ∀ item ∈ graph.outline.children graph.root,
      other.nameAt? item = graph.nameAt? item := by
    intro item hitem
    have hname := List.mem_map_of_mem (f := graph.nameAt?) hitem
    rw [hg.top, List.mem_map] at hname
    obtain ⟨earlier, -, hname⟩ := hname
    obtain ⟨id, node, hn, rfl, hnode⟩ := hg.outlined.nameAt?_eq_some_iff.mp hname.symm
    obtain ⟨node', hn', heq⟩ := h.old_node hn
    rw [← hname, ← Node.eq_of_bare Node.item (fun _ => rfl) heq, ho.nameAt?_item hn',
      Node.eq_of_bare Node.uuid (fun _ => rfl) heq, hnode]
  have hnew : other.nameAt? graph.outline.items.fresh = some saved.uuid := by
    obtain ⟨new, hn, hbare⟩ := h.new_node
    have hitem : new.item = graph.outline.items.fresh :=
      Node.eq_of_bare Node.item (fun _ => rfl) hbare
    rw [← hitem, ho.nameAt?_item hn, Node.eq_of_bare Node.uuid (fun _ => rfl) hbare]
    rfl
  have hroot : other.root = graph.root := (Keeps.of_bare h.rest).root
  rw [hroot, (h.attached hg.outlined).below, if_pos rfl, Forest.children_insert, List.map_append,
    List.map_append, ← hg.top, List.map_congr_left hold]
  simp only [List.map_cons, List.map_nil, hnew]

theorem Filled.step {settings : Settings} {done : List SavedNode}
    (hg : Filled settings done graph) (h : restoreNode .core graph saved = .ok other) :
    Filled settings (done ++ [saved]) other := by
  have hedits : Edits (Graph.new settings) other := hg.edits.trans (edits_of_restoreNode h)
  have hw := hg.wired
  have hw' : other.Wired := hedits.wired (.new settings)
  have ho' : other.Outlined := hedits.outlined (.new settings)
  obtain ⟨template, hmade⟩ := made_of_restoreNode hw h
  constructor
  case edits => exact hedits
  case settings => exact (settings_of_bare hmade.rest).trans hg.settings
  case top => exact hg.top_made hmade ho'
  case leaf =>
    intro id node hn
    have hroot : other.root = graph.root := (Keeps.of_bare hmade.rest).root
    rw [(hmade.attached hg.outlined).below, Forest.children_insert,
      if_neg (hroot ▸ ho'.item_ne_root hn)]
    rcases hmade.node_cases hn with ⟨-, heq⟩ | ⟨old, hold, heq⟩
    · have hitem : node.item = graph.outline.items.fresh :=
        Node.eq_of_bare Node.item (fun _ => rfl) heq
      rw [hitem, Forest.children, Arena.find?_fresh]
      rfl
    · rw [Node.eq_of_bare Node.item (fun _ => rfl) heq]
      exact hg.leaf id old hold
  case plain => exact fun p port => hmade.plain hg.plain
  case edgeless =>
    intro e
    rw [edge?_of_bare hmade.rest]
    exact hg.edgeless e
  case made =>
    intro earlier hearlier
    rcases List.mem_append.mp hearlier with hearlier | hearlier
    · obtain ⟨id, node, made, hn, hcreate, hmadeOf, hsaved⟩ := hg.made earlier hearlier
      obtain ⟨node', hn', -⟩ := hmade.old_node hn
      have hadded := graph.node?_withNode_of_node? template saved.uuid graph.root hn
      exact ⟨id, node', made, hn', hcreate,
        (hmadeOf.insert hw hn template saved.uuid graph.root).part hmade.part hw' hadded hn',
        (hmade.old_saved hw hn).trans hsaved⟩
    · obtain rfl := List.mem_singleton.mp hearlier
      obtain ⟨new, hnew, -⟩ := hmade.new_node
      have hadded := graph.node?_withNode_fresh template earlier.uuid graph.root
      exact ⟨graph.nodes.fresh, new, template, hnew, hmade.created,
        (MadeOf.new template earlier.uuid graph.root).part hmade.part hw' hadded hnew,
        hmade.new_saved⟩

end Step

section Run

variable {settings : Settings} {nodes : List SavedNode}

theorem filled_of_foldlM
    (h : nodes.foldlM (restoreNode .core) (Graph.new settings) = .ok graph) :
    Filled settings nodes graph :=
  foldlM_induction (P := Filled settings) (fun _ hg hstep => hg.step hstep) (.new settings) h

-- No two nodes of a document that is accepted have one name.
theorem nodup_of_foldlM (h : nodes.foldlM (restoreNode .core) (Graph.new settings) = .ok graph) :
    (nodes.map (·.uuid)).Nodup := by
  refine (foldlM_induction (P := fun done next => Filled settings done next ∧
    (done.map (·.uuid)).Nodup) (fun {done saved rest graph other} _ hdone hstep => ?_)
    ⟨.new settings, .nil⟩ h).2
  obtain ⟨hfilled, hnodup⟩ := hdone
  refine ⟨hfilled.step hstep, ?_⟩
  rw [List.map_append, List.map_singleton]
  refine List.nodup_append.mpr ⟨hnodup, List.nodup_singleton _, fun a ha b hb hab => ?_⟩
  obtain rfl := List.mem_singleton.mp hb
  obtain ⟨id, node, hn, huuid⟩ := hfilled.exists_node (hab ▸ ha)
  obtain ⟨template, hmade⟩ := made_of_restoreNode hfilled.wired hstep
  cases hmade.unused.symm.trans (hfilled.named.findByUuid_eq_some_iff.mpr ⟨node, hn, huuid⟩)

-- Nodes of different names can be made, each if its template can be.
theorem exists_filled (huuids : (nodes.map (·.uuid)).Nodup)
    (hmake : ∀ saved ∈ nodes, ∃ template,
      Registry.core.create saved.tag saved.properties = .ok template ∧
      ∀ direction, (saved.flags direction).length ≤ (template.side direction).length) :
    ∃ graph, nodes.foldlM (restoreNode .core) (Graph.new settings) = .ok graph := by
  refine exists_foldlM (P := Filled settings) (fun _ hg hstep => hg.step hstep)
    (fun {done saved rest graph} hnodes hg => ?_) (.new settings)
  obtain ⟨template, hcreate, hlength⟩ := hmake saved (by simp [hnodes])
  refine exists_restoreNode hg.wired hcreate (Registry.sound_of_create hcreate) ?_
    (hlength .input) (hlength .output)
  cases hfound : graph.findByUuid saved.uuid with
  | none => rfl
  | some id =>
      obtain ⟨node, hn, huuid⟩ := hg.named.findByUuid_eq_some_iff.mp hfound
      have hmem := hg.uuid_mem hn
      rw [hnodes, List.map_append, List.map_cons, List.nodup_append] at huuids
      exact absurd huuid.symm (huuids.2.2 _ hmem _ List.mem_cons_self ∘ Eq.symm)

end Run

end Graph

end Dataflow
