import Dataflow.Proofs.Graph.Outlined
import Dataflow.Proofs.Reachable

namespace Dataflow

def Direction.opposite : Direction → Direction
  | .input => .output
  | .output => .input

-- The end of an edge that is a port of the given direction.
def Edge.ending (edge : Edge) : Direction → PortId
  | .input => edge.destination
  | .output => edge.source

namespace Graph

variable {graph : Graph}

section Neighbours

-- A node feeds another where an edge leads from the one to the other.
def Feeds (graph : Graph) (a b : NodeId) : Prop :=
  ∃ e edge source destination, graph.edge? e = some edge ∧
    graph.port? edge.source = some source ∧ source.node = a ∧
    graph.port? edge.destination = some destination ∧ destination.node = b

-- The nodes at the far ends of the edges at one end of a node.
def neighbours (graph : Graph) (direction : Direction) (id : NodeId) : List NodeId :=
  match graph.node? id with
  | none => []
  | some node =>
      distinct ((graph.edgesOf (node.side direction)).filterMap fun edge =>
        (graph.port? (edge.ending direction.opposite)).map (·.node))

theorem predecessors_eq (graph : Graph) (id : NodeId) :
    graph.predecessors id = graph.neighbours .input id := rfl

theorem successors_eq (graph : Graph) (id : NodeId) :
    graph.successors id = graph.neighbours .output id := rfl

theorem mem_distinct_iff (ids : List NodeId) (id : NodeId) : id ∈ distinct ids ↔ id ∈ ids := by
  rw [distinct, Closure.mem_unseen_iff]
  simp

namespace Wired

theorem exists_ending (hw : graph.Wired) {e : EdgeId} {edge : Edge}
    (he : graph.edge? e = some edge) (direction : Direction) :
    ∃ port, graph.port? (edge.ending direction) = some port ∧ port.direction = direction ∧
      e ∈ port.edges := by
  cases direction with
  | input => exact hw.destination he
  | output => exact hw.source he

theorem ending_eq (hw : graph.Wired) {p : PortId} {port : Port} {e : EdgeId} {edge : Edge}
    (hp : graph.port? p = some port) (hmem : e ∈ port.edges) (he : graph.edge? e = some edge) :
    edge.ending port.direction = p := by
  obtain ⟨edge', he', hends⟩ := hw.incident hp hmem
  obtain rfl := Option.some.inj (he.symm.trans he')
  rcases hends with rfl | rfl
  · obtain ⟨port', hp', hd, -⟩ := hw.source he
    rw [Option.some.inj (hp.symm.trans hp'), hd]
    rfl
  · obtain ⟨port', hp', hd, -⟩ := hw.destination he
    rw [Option.some.inj (hp.symm.trans hp'), hd]
    rfl

-- The edges at one end of a node are those with that end there.
theorem mem_edgesOf_side_iff (hw : graph.Wired) {id : NodeId} {node : Node}
    (hn : graph.node? id = some node) (direction : Direction) (edge : Edge) :
    edge ∈ graph.edgesOf (node.side direction) ↔ ∃ e port, graph.edge? e = some edge ∧
      graph.port? (edge.ending direction) = some port ∧ port.node = id := by
  rw [mem_edgesOf_iff]
  constructor
  · rintro ⟨p, hp, port, e, hport, hmem, he⟩
    obtain ⟨index, hindex⟩ := List.mem_iff_getElem?.mp hp
    have hat : graph.portAt? id direction index = some p := by rw [portAt?_eq, hn]; exact hindex
    obtain ⟨port', hport', hnode, rfl, -⟩ := hw.placed hat
    obtain rfl := Option.some.inj (hport.symm.trans hport')
    exact ⟨e, port, he, hw.ending_eq hport hmem he ▸ hport, hnode⟩
  · rintro ⟨e, port, he, hport, rfl⟩
    obtain ⟨port', hport', rfl, hmem⟩ := hw.exists_ending he direction
    obtain rfl := Option.some.inj (hport.symm.trans hport')
    have hat := hw.owned hport
    rw [portAt?_eq, hn] at hat
    exact ⟨_, List.mem_of_getElem? hat, port, e, hport, hmem, he⟩

theorem mem_neighbours_iff (hw : graph.Wired) (direction : Direction) (id other : NodeId) :
    other ∈ graph.neighbours direction id ↔ ∃ e edge near far, graph.edge? e = some edge ∧
      graph.port? (edge.ending direction) = some near ∧ near.node = id ∧
      graph.port? (edge.ending direction.opposite) = some far ∧ far.node = other := by
  cases hn : graph.node? id with
  | none =>
      simp only [neighbours, hn, List.not_mem_nil, false_iff]
      rintro ⟨e, edge, near, far, -, hnear, rfl, -, -⟩
      obtain ⟨node, hnode⟩ := hw.owner hnear
      cases hn.symm.trans hnode
  | some node =>
      simp only [neighbours, hn, mem_distinct_iff, List.mem_filterMap]
      constructor
      · rintro ⟨edge, hmem, hother⟩
        obtain ⟨e, near, he, hnear, hid⟩ := (hw.mem_edgesOf_side_iff hn direction edge).mp hmem
        obtain ⟨far, hfar, hnode⟩ := Option.map_eq_some_iff.mp hother
        exact ⟨e, edge, near, far, he, hnear, hid, hfar, hnode⟩
      · rintro ⟨e, edge, near, far, he, hnear, hid, hfar, rfl⟩
        exact ⟨edge, (hw.mem_edgesOf_side_iff hn direction edge).mpr ⟨e, near, he, hnear, hid⟩,
          Option.map_eq_some_iff.mpr ⟨far, hfar, rfl⟩⟩

theorem mem_predecessors_iff (hw : graph.Wired) (a b : NodeId) :
    a ∈ graph.predecessors b ↔ graph.Feeds a b := by
  rw [predecessors_eq, hw.mem_neighbours_iff]
  constructor
  · rintro ⟨e, edge, destination, source, he, hd, hb, hs, ha⟩
    exact ⟨e, edge, source, destination, he, hs, ha, hd, hb⟩
  · rintro ⟨e, edge, source, destination, he, hs, ha, hd, hb⟩
    exact ⟨e, edge, destination, source, he, hd, hb, hs, ha⟩

theorem mem_successors_iff (hw : graph.Wired) (a b : NodeId) :
    b ∈ graph.successors a ↔ graph.Feeds a b := by
  rw [successors_eq]
  exact hw.mem_neighbours_iff .output a b

end Wired

end Neighbours

-- Everything that is named by an identifier is there, and knows what names it.
structure Intact (graph : Graph) : Prop where
  -- an edge leads from an output to an input, and stands once in the list of each and in
  -- no other
  edge : ∀ {e edge}, graph.edge? e = some edge → ∃ source destination,
    graph.port? edge.source = some source ∧ source.direction = .output ∧
    graph.port? edge.destination = some destination ∧ destination.direction = .input ∧
    source.edges.count e = 1 ∧ destination.edges.count e = 1 ∧
    ∀ p port, graph.port? p = some port → e ∈ port.edges → p = edge.source ∨ p = edge.destination
  incident : ∀ {p port e}, graph.port? p = some port → e ∈ port.edges →
    ∃ edge, graph.edge? e = some edge ∧ (edge.source = p ∨ edge.destination = p)
  -- a port has its place in one node, and no other node lists it
  port : ∀ {p port}, graph.port? p = some port →
    (∃ node, graph.node? port.node = some node ∧
      (node.side port.direction)[port.index]? = some p) ∧
    ∀ {id node}, graph.node? id = some node → p ∈ node.ports → id = port.node
  side : ∀ {id node direction index p}, graph.node? id = some node →
    (node.side direction)[index]? = some p → ∃ port, graph.port? p = some port ∧
      port.node = id ∧ port.direction = direction ∧ port.index = index
  standsFor : ∀ {p port t}, graph.port? p = some port → port.aliasOf = some t →
    ∃ target, graph.port? t = some target ∧ target.direction = port.direction
  slots : ∀ {id node}, graph.node? id = some node → node.slots.length = node.outputs.length
  units : ∀ {id node}, graph.node? id = some node →
    (∀ unit ∈ node.units, unit.output < node.outputs.length ∧
      ∀ i ∈ unit.inputs, i < node.inputs.length) ∧
    (node.units.map (·.output)).Nodup
  -- the index holds the names of the nodes and no others, each once
  names : (graph.names.map (·.1)).Nodup ∧ ∀ uuid id, (uuid, id) ∈ graph.names ↔
    ∃ node, graph.node? id = some node ∧ node.uuid = uuid
  found : ∀ uuid id, graph.findByUuid uuid = some id ↔
    ∃ node, graph.node? id = some node ∧ node.uuid = uuid
  -- the outline holds its top and an item for each node
  outline : ∀ item entry, graph.outline.get? item = some entry ↔
    item = graph.root ∧ entry = .root ∨
      ∃ id node, graph.node? id = some node ∧ item = node.item ∧ entry = .node id

theorem Wired.intact (hw : graph.Wired) (hn : graph.Named) (ho : graph.Outlined) :
    graph.Intact := by
  constructor
  case edge =>
    intro e edge he
    obtain ⟨source, hs, hout, hsource⟩ := hw.source he
    obtain ⟨destination, hd, hin, hdestination⟩ := hw.destination he
    refine ⟨source, destination, hs, hout, hd, hin,
      List.count_eq_one_of_mem (hw.listedOnce hs) hsource,
      List.count_eq_one_of_mem (hw.listedOnce hd) hdestination, fun p port hp hmem => ?_⟩
    obtain ⟨edge', he', hends⟩ := hw.incident hp hmem
    obtain rfl := Option.some.inj (he.symm.trans he')
    exact hends.imp Eq.symm Eq.symm
  case incident => exact hw.incident
  case port =>
    intro p port hp
    constructor
    · have hat := hw.owned hp
      rw [portAt?_eq] at hat
      exact Option.bind_eq_some_iff.mp hat
    · intro id node hnode hmem
      obtain ⟨port', hp', rfl⟩ := (hw.mem_ports_iff hnode p).mp hmem
      rw [Option.some.inj (hp.symm.trans hp')]
  case side =>
    intro id node direction index p hnode hat
    refine hw.placed ?_
    rw [portAt?_eq, hnode]
    exact hat
  case standsFor => exact hw.target
  case slots => exact hw.slots
  case units => exact fun hnode => ⟨fun unit hu => hw.units hnode hu, hw.oneUnit hnode⟩
  case names => exact ⟨hn.once, fun uuid id => hn.listed⟩
  case found => exact fun uuid id => hn.findByUuid_eq_some_iff
  case outline => exact fun item entry => ho.items

theorem Reachable.named (h : Reachable graph) : graph.Named :=
  h.invariant .new (fun hg hedit => hedit.named hg) fun hg hconsulted =>
    hg.keeps (.of_bare hconsulted.1)

theorem Reachable.outlined (h : Reachable graph) : graph.Outlined :=
  h.invariant .new (fun hg hedit => hedit.outlined hg) fun hg hconsulted =>
    hg.keeps (.of_bare hconsulted.1)

theorem Edits.named {other : Graph} (h : Edits graph other) (hg : graph.Named) : other.Named := by
  induction h with
  | refl => exact hg
  | tail _ hedit ih => exact hedit.named ih

theorem Edits.outlined {other : Graph} (h : Edits graph other) (hg : graph.Outlined) :
    other.Outlined := by
  induction h with
  | refl => exact hg
  | tail _ hedit ih => exact hedit.outlined ih

-- No graph that can come about has a reference that leads nowhere, a thing that nothing
-- refers to, or two places for one thing. So neighbours know each other.
theorem reachable_intact (h : Reachable graph) :
    graph.Intact ∧ ∀ a b, a ∈ graph.predecessors b ↔ b ∈ graph.successors a := by
  have hw := h.healthy.wired
  refine ⟨hw.intact h.named h.outlined, fun a b => ?_⟩
  rw [hw.mem_predecessors_iff, hw.mem_successors_iff]

-- A container with a node inside that feeds one outside, and that an output of the
-- container stands for; then the container is removed.
def uprooting : List Operation :=
  [.addNode .relay ⟨1⟩, .addNodeIn .relay ⟨2⟩ ⟨1⟩, .addNode .relay ⟨3⟩, .addNode .relay ⟨4⟩,
    .addEdge ⟨4⟩ ⟨5⟩, .linkAlias ⟨2⟩ ⟨4⟩, .linkAlias ⟨8⟩ ⟨2⟩, .addEdge ⟨6⟩ ⟨7⟩, .removeNode ⟨1⟩]

def uprooted : Graph :=
  (Graph.new .standard).run uprooting

theorem uprooted_intact :
    uprooted.Intact ∧ uprooted.nodes.ids = [⟨3⟩, ⟨4⟩] ∧ uprooted.edges.ids = [⟨2⟩] ∧
      uprooted.predecessors ⟨4⟩ = [⟨3⟩] ∧ ⟨4⟩ ∈ uprooted.successors ⟨3⟩ := by
  obtain ⟨hintact, hneighbours⟩ :=
    reachable_intact (Reachable.run (.new .standard) uprooting)
  have hfed : uprooted.predecessors ⟨4⟩ = [⟨3⟩] := by decide
  refine ⟨hintact, by decide, by decide, hfed, (hneighbours ⟨3⟩ ⟨4⟩).mp ?_⟩
  show (⟨3⟩ : NodeId) ∈ uprooted.predecessors ⟨4⟩
  rw [hfed]
  exact List.mem_singleton_self _

end Graph

end Dataflow
