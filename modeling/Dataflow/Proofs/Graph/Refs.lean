import Dataflow.Proofs.Graph.Outlined
import Dataflow.Snapshot.Save

namespace Dataflow

-- A port without what it stands for and without its edges.
def Port.plain (port : Port) : Port :=
  { port with aliasOf := none, edges := [] }

namespace Node

-- Nodes that differ in their results only agree in everything else.
theorem eq_of_bare {α : Type} {a b : Node} (f : Node → α) (hf : ∀ node : Node, f node.bare = f node)
    (h : a.bare = b.bare) : f a = f b :=
  (hf a).symm.trans ((congrArg f h).trans (hf b))

theorem side_of_bare {a b : Node} (h : a.bare = b.bare) (direction : Direction) :
    a.side direction = b.side direction :=
  eq_of_bare (·.side direction) (fun _ => by cases direction <;> rfl) h

end Node

namespace Graph

variable {graph other : Graph}

-- The port that a reference means at one end of its node.
def portNamed? (graph : Graph) (direction : Direction) (ref : PortRef) : Option PortId :=
  (graph.findByUuid ref.node).bind fun id => graph.portAt? id direction ref.index

-- The name of the node that has an item of the outline.
def nameAt? (graph : Graph) (item : ItemId) : Option Uuid :=
  (graph.nodeOfItem? item).bind graph.uuidOf?

-- The outputs that feed an input, in the order of its edges, and the port that a port
-- stands for, all by reference.
def feeders (graph : Graph) (ref : PortRef) : List PortRef :=
  match (graph.portNamed? .input ref).bind graph.port? with
  | some port => (port.edges.filterMap graph.edge?).filterMap fun edge => graph.portRef? edge.source
  | none => []

def standIn? (graph : Graph) (direction : Direction) (ref : PortRef) : Option PortRef :=
  ((graph.portNamed? direction ref).bind graph.port?).bind fun port =>
    port.aliasOf.bind graph.portRef?

section Refs

theorem uuidOf?_eq_some_iff {id : NodeId} {uuid : Uuid} :
    graph.uuidOf? id = some uuid ↔ ∃ node, graph.node? id = some node ∧ node.uuid = uuid :=
  Option.map_eq_some_iff

theorem portRef?_eq_some_iff {p : PortId} {ref : PortRef} :
    graph.portRef? p = some ref ↔ ∃ port node, graph.port? p = some port ∧
      graph.node? port.node = some node ∧ ref = ⟨node.uuid, port.index⟩ := by
  rw [portRef?, Option.bind_eq_some_iff]
  constructor
  · rintro ⟨port, hp, href⟩
    obtain ⟨uuid, huuid, rfl⟩ := Option.map_eq_some_iff.mp href
    obtain ⟨node, hn, rfl⟩ := uuidOf?_eq_some_iff.mp huuid
    exact ⟨port, node, hp, hn, rfl⟩
  · rintro ⟨port, node, hp, hn, rfl⟩
    exact ⟨port, hp, by rw [uuidOf?, hn]; rfl⟩

theorem Outlined.nameAt?_eq_some_iff (ho : graph.Outlined) {item : ItemId} {uuid : Uuid} :
    graph.nameAt? item = some uuid ↔ ∃ id node, graph.node? id = some node ∧
      node.item = item ∧ node.uuid = uuid := by
  rw [nameAt?, Option.bind_eq_some_iff]
  constructor
  · rintro ⟨id, hid, huuid⟩
    obtain ⟨node, hnode, hitem⟩ := ho.nodeOfItem?_eq_some_iff.mp hid
    obtain ⟨node', hnode', hsame⟩ := uuidOf?_eq_some_iff.mp huuid
    obtain rfl := Option.some.inj (hnode.symm.trans hnode')
    exact ⟨id, node, hnode, hitem, hsame⟩
  · rintro ⟨id, node, hnode, rfl, rfl⟩
    exact ⟨id, ho.nodeOfItem?_eq_some_iff.mpr ⟨node, hnode, rfl⟩,
      uuidOf?_eq_some_iff.mpr ⟨node, hnode, rfl⟩⟩

namespace Named

variable (hn : graph.Named)

include hn

theorem id_eq_of_uuid {id id' : NodeId} {node node' : Node} (h : graph.node? id = some node)
    (h' : graph.node? id' = some node') (huuid : node.uuid = node'.uuid) : id = id' :=
  Option.some.inj ((hn.findByUuid_eq_some_iff.mpr ⟨node, h, rfl⟩).symm.trans
    (hn.findByUuid_eq_some_iff.mpr ⟨node', h', huuid.symm⟩))

-- A port has one reference, by which it is found.
theorem portNamed?_eq_some_iff (hw : graph.Wired) {direction : Direction} {ref : PortRef}
    {p : PortId} : graph.portNamed? direction ref = some p ↔ ∃ port,
      graph.port? p = some port ∧ port.direction = direction ∧ graph.portRef? p = some ref := by
  rw [portNamed?, Option.bind_eq_some_iff]
  constructor
  · rintro ⟨id, hid, hat⟩
    obtain ⟨node, hnode, huuid⟩ := hn.findByUuid_eq_some_iff.mp hid
    obtain ⟨port, hp, rfl, hd, hindex⟩ := hw.placed hat
    refine ⟨port, hp, hd, portRef?_eq_some_iff.mpr ⟨port, node, hp, hnode, ?_⟩⟩
    rw [huuid, hindex]
  · rintro ⟨port, hp, rfl, href⟩
    obtain ⟨port', node, hp', hnode, rfl⟩ := portRef?_eq_some_iff.mp href
    obtain rfl := Option.some.inj (hp.symm.trans hp')
    exact ⟨port.node, hn.findByUuid_eq_some_iff.mpr ⟨node, hnode, rfl⟩, hw.owned hp⟩

theorem item_eq_of_name (ho : graph.Outlined) {a b : ItemId} {uuid : Uuid}
    (ha : graph.nameAt? a = some uuid) (hb : graph.nameAt? b = some uuid) : a = b := by
  obtain ⟨id, node, hnode, rfl, huuid⟩ := ho.nameAt?_eq_some_iff.mp ha
  obtain ⟨id', node', hnode', rfl, huuid'⟩ := ho.nameAt?_eq_some_iff.mp hb
  obtain rfl := hn.id_eq_of_uuid hnode hnode' (huuid.trans huuid'.symm)
  rw [Option.some.inj (hnode.symm.trans hnode')]

end Named

theorem Wired.exists_portRef (hw : graph.Wired) {p : PortId} {port : Port}
    (hp : graph.port? p = some port) : ∃ ref, graph.portRef? p = some ref ∧
      ref.index = port.index := by
  obtain ⟨node, hn⟩ := hw.owner hp
  exact ⟨⟨node.uuid, port.index⟩, portRef?_eq_some_iff.mpr ⟨port, node, hp, hn, rfl⟩, rfl⟩

-- Ports at the same end under one reference are the same.
theorem Wired.port_eq_of_ref (hw : graph.Wired) {p q : PortId} {port found : Port}
    {ref : PortRef} (hn : graph.Named) (hp : graph.port? p = some port)
    (hq : graph.port? q = some found) (hd : port.direction = found.direction)
    (href : graph.portRef? p = some ref) (href' : graph.portRef? q = some ref) : p = q :=
  Option.some.inj (((hn.portNamed?_eq_some_iff hw).mpr ⟨port, hp, rfl, href⟩).symm.trans
    ((hn.portNamed?_eq_some_iff hw).mpr ⟨found, hq, hd.symm, href'⟩))

theorem standIn?_eq_some_iff (hw : graph.Wired) (hn : graph.Named) {direction : Direction}
    {ref target : PortRef} : graph.standIn? direction ref = some target ↔ ∃ p port t,
      graph.port? p = some port ∧ port.direction = direction ∧ graph.portRef? p = some ref ∧
        port.aliasOf = some t ∧ graph.portRef? t = some target := by
  simp only [standIn?, Option.bind_eq_some_iff, hn.portNamed?_eq_some_iff hw]
  constructor
  · rintro ⟨port, ⟨p, ⟨port', hp', hd, href⟩, hp⟩, t, ht, htarget⟩
    obtain rfl := Option.some.inj (hp.symm.trans hp')
    exact ⟨p, port, t, hp, hd, href, ht, htarget⟩
  · rintro ⟨p, port, t, hp, hd, href, ht, htarget⟩
    exact ⟨port, ⟨p, ⟨port, hp, hd, href⟩, hp⟩, t, ht, htarget⟩

theorem feeders_of_port (hw : graph.Wired) (hn : graph.Named) {ref : PortRef} {p : PortId}
    {port : Port} (hp : graph.port? p = some port) (hd : port.direction = .input)
    (href : graph.portRef? p = some ref) :
    graph.feeders ref = (port.edges.filterMap graph.edge?).filterMap fun edge =>
      graph.portRef? edge.source := by
  rw [feeders, (hn.portNamed?_eq_some_iff hw).mpr ⟨port, hp, hd, href⟩, Option.bind_some, hp]

theorem feeders_of_none {ref : PortRef} (h : graph.portNamed? .input ref = none) :
    graph.feeders ref = [] := by
  rw [feeders, h]
  rfl

end Refs

section Alike

-- Graphs with the same nodes and ports, which may differ in results, in what stands inside
-- what, in aliases and in edges.
structure Alike (graph other : Graph) : Prop where
  names : other.names = graph.names
  root : other.root = graph.root
  settings : other.settings = graph.settings
  entry : ∀ item, other.outline.get? item = graph.outline.get? item
  node : ∀ id, (other.node? id).map Node.bare = (graph.node? id).map Node.bare
  port : ∀ p, (other.port? p).map Port.plain = (graph.port? p).map Port.plain

namespace Alike

theorem refl (graph : Graph) : Alike graph graph :=
  ⟨rfl, rfl, rfl, fun _ => rfl, fun _ => rfl, fun _ => rfl⟩

theorem symm (h : Alike graph other) : Alike other graph :=
  ⟨h.names.symm, h.root.symm, h.settings.symm, fun item => (h.entry item).symm,
    fun id => (h.node id).symm, fun p => (h.port p).symm⟩

theorem trans {third : Graph} (h : Alike graph other) (h' : Alike other third) :
    Alike graph third :=
  ⟨h'.names.trans h.names, h'.root.trans h.root, h'.settings.trans h.settings,
    fun item => (h'.entry item).trans (h.entry item), fun id => (h'.node id).trans (h.node id),
    fun p => (h'.port p).trans (h.port p)⟩

theorem of_bare (h : other.bare = graph.bare) : Alike graph other where
  names := (Keeps.of_bare h).names
  root := (Keeps.of_bare h).root
  settings := settings_of_bare h
  entry item := by rw [(Keeps.of_bare h).outline]
  node := node?_of_bare h
  port p := by rw [port?_of_bare h]

variable (h : Alike graph other)

include h

theorem findByUuid (uuid : Uuid) : other.findByUuid uuid = graph.findByUuid uuid := by
  rw [Graph.findByUuid, h.names, Graph.findByUuid]

theorem map_node? {α : Type} (f : Node → α) (hf : ∀ node, f node.bare = f node) (id : NodeId) :
    (other.node? id).map f = (graph.node? id).map f :=
  map_node?_of_node (h.node id) f hf

theorem map_port? {α : Type} (f : Port → α) (hf : ∀ port, f port.plain = f port) (p : PortId) :
    (other.port? p).map f = (graph.port? p).map f := by
  have hcomp : f ∘ Port.plain = f := funext hf
  rw [← hcomp, ← Option.map_map, h.port, Option.map_map]

theorem exists_node {id : NodeId} {node : Node} (hn : graph.node? id = some node) :
    ∃ node', other.node? id = some node' ∧ node'.bare = node.bare := by
  have hnode := h.node id
  rw [hn] at hnode
  exact Option.map_eq_some_iff.mp hnode

theorem exists_port {p : PortId} {port : Port} (hp : graph.port? p = some port) :
    ∃ port', other.port? p = some port' ∧ port'.plain = port.plain := by
  have hport := h.port p
  rw [hp] at hport
  exact Option.map_eq_some_iff.mp hport

theorem uuidOf? (id : NodeId) : other.uuidOf? id = graph.uuidOf? id :=
  h.map_node? (·.uuid) (fun _ => rfl) id

theorem portAt? (id : NodeId) (direction : Direction) (index : Nat) :
    other.portAt? id direction index = graph.portAt? id direction index :=
  portAt?_congr (h.map_node? Node.frame (fun node => by simp [Node.frame, Node.bare]) id)
    direction index

theorem portNamed? (direction : Direction) (ref : PortRef) :
    other.portNamed? direction ref = graph.portNamed? direction ref := by
  rw [Graph.portNamed?, h.findByUuid, Graph.portNamed?]
  congr 1
  funext id
  exact h.portAt? id direction ref.index

theorem portRef? (p : PortId) : other.portRef? p = graph.portRef? p := by
  have hplace := h.map_port? (fun port => (port.node, port.index)) (fun _ => rfl) p
  rw [Graph.portRef?, Graph.portRef?]
  cases hp : graph.port? p with
  | none =>
      have hp' : other.port? p = none := by simpa [hp] using hplace
      rw [hp']
      rfl
  | some port =>
      obtain ⟨port', hp', hsame⟩ := h.exists_port hp
      have hnode : port'.node = port.node := by
        have := congrArg Port.node hsame
        exact this
      have hindex : port'.index = port.index := by
        have := congrArg Port.index hsame
        exact this
      rw [hp', Option.bind_some, Option.bind_some, hnode, hindex, h.uuidOf?]

theorem nodeOfItem? (item : ItemId) : other.nodeOfItem? item = graph.nodeOfItem? item := by
  rw [Graph.nodeOfItem?, h.entry, Graph.nodeOfItem?]

theorem nameAt? (item : ItemId) : other.nameAt? item = graph.nameAt? item := by
  rw [Graph.nameAt?, h.nodeOfItem?, Graph.nameAt?]
  congr 1
  funext id
  exact h.uuidOf? id

theorem savedFlags (ports : List PortId) : other.savedFlags ports = graph.savedFlags ports := by
  have hflags : (fun p => ((other.port? p).map (·.flags)).getD .none) =
      fun p => ((graph.port? p).map (·.flags)).getD .none := by
    funext p
    rw [h.map_port? (·.flags) (fun _ => rfl)]
  rw [Graph.savedFlags, hflags, Graph.savedFlags]

end Alike

end Alike

end Graph

end Dataflow
