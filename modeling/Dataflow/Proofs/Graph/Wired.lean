import Dataflow.Proofs.Graph.Lookup

namespace Dataflow

namespace Node

-- The ports of a node at one end.
def side (node : Node) : Direction → List PortId
  | .input => node.inputs
  | .output => node.outputs

-- What the rest of the graph relies on in a node.
def frame (node : Node) : List PortId × List PortId × List EvalUnit × Nat :=
  (node.inputs, node.outputs, node.units, node.slots.length)

@[simp] theorem frame_invalidate (node : Node) : node.invalidate.frame = node.frame := by
  simp [frame, invalidate]

end Node

namespace Graph

-- Nodes, ports and edges refer to one another without gaps: a node and its ports know
-- each other, an edge is in the lists of its two ports and in no other, and a port
-- stands for a port of its own direction. What a node computes it has ports for.
structure Wired (graph : Graph) : Prop where
  placed : ∀ {id direction index p}, graph.portAt? id direction index = some p →
    ∃ port, graph.port? p = some port ∧ port.node = id ∧ port.direction = direction ∧
      port.index = index
  owned : ∀ {p port}, graph.port? p = some port →
    graph.portAt? port.node port.direction port.index = some p
  source : ∀ {e edge}, graph.edge? e = some edge →
    ∃ port, graph.port? edge.source = some port ∧ port.direction = .output ∧ e ∈ port.edges
  destination : ∀ {e edge}, graph.edge? e = some edge →
    ∃ port, graph.port? edge.destination = some port ∧ port.direction = .input ∧ e ∈ port.edges
  incident : ∀ {p port e}, graph.port? p = some port → e ∈ port.edges →
    ∃ edge, graph.edge? e = some edge ∧ (edge.source = p ∨ edge.destination = p)
  listedOnce : ∀ {p port}, graph.port? p = some port → port.edges.Nodup
  target : ∀ {p port t}, graph.port? p = some port → port.aliasOf = some t →
    ∃ other, graph.port? t = some other ∧ other.direction = port.direction
  slots : ∀ {id node}, graph.node? id = some node → node.slots.length = node.outputs.length
  units : ∀ {id node unit}, graph.node? id = some node → unit ∈ node.units →
    unit.output < node.outputs.length ∧ ∀ i ∈ unit.inputs, i < node.inputs.length
  oneUnit : ∀ {id node}, graph.node? id = some node → (node.units.map (·.output)).Nodup

theorem frame_withProperty (graph : Graph) (id : NodeId) (key : String) (value : Nested Value)
    (n : NodeId) : ((graph.withProperty id key value).node? n).map Node.frame =
      (graph.node? n).map Node.frame := by
  rw [node?_withProperty, Option.map_map]
  congr 1
  funext node
  simp only [Function.comp]
  split <;> rfl

theorem frame_withPosition (graph : Graph) (id : NodeId) (position : Position) (n : NodeId) :
    ((graph.withPosition id position).node? n).map Node.frame =
      (graph.node? n).map Node.frame := by
  rw [node?_withPosition, Option.map_map]
  congr 1
  funext node
  simp only [Function.comp]
  split <;> rfl

theorem exists_of_frame_eq {graph other : Graph} {id : NodeId} {node' : Node}
    (h : (other.node? id).map Node.frame = (graph.node? id).map Node.frame)
    (hn : other.node? id = some node') :
    ∃ node, graph.node? id = some node ∧ node.inputs = node'.inputs ∧
      node.outputs = node'.outputs ∧ node.units = node'.units ∧
      node.slots.length = node'.slots.length := by
  rw [hn] at h
  obtain ⟨node, hn, hf⟩ := Option.map_eq_some_iff.mp h.symm
  simp only [Node.frame, Prod.mk.injEq] at hf
  exact ⟨node, hn, hf⟩

theorem portAt?_eq (graph : Graph) (id : NodeId) (direction : Direction) (index : Nat) :
    graph.portAt? id direction index =
      (graph.node? id).bind fun node => (node.side direction)[index]? := by
  cases direction <;> rfl

theorem mem_ports_iff_portAt? {graph : Graph} {id : NodeId} {node : Node}
    (hn : graph.node? id = some node) (p : PortId) :
    p ∈ node.ports ↔ ∃ direction index, graph.portAt? id direction index = some p := by
  simp only [portAt?_eq, hn, Option.bind_some]
  rw [Node.ports, List.mem_append, List.mem_iff_getElem?, List.mem_iff_getElem?]
  constructor
  · rintro (⟨i, hi⟩ | ⟨i, hi⟩)
    · exact ⟨.input, i, hi⟩
    · exact ⟨.output, i, hi⟩
  · rintro ⟨direction, i, hi⟩
    cases direction with
    | input => exact .inl ⟨i, hi⟩
    | output => exact .inr ⟨i, hi⟩

-- Ports are found by what a node's frame says.
theorem portAt?_congr {graph other : Graph} {id : NodeId}
    (h : (other.node? id).map Node.frame = (graph.node? id).map Node.frame)
    (direction : Direction) (index : Nat) :
    other.portAt? id direction index = graph.portAt? id direction index := by
  rw [portAt?_eq, portAt?_eq]
  cases hg : graph.node? id with
  | none =>
      have ho : other.node? id = none := by simpa [hg] using h
      simp [ho]
  | some node =>
      obtain ⟨node', ho, hf⟩ := Option.map_eq_some_iff.mp (h.trans (by rw [hg]; rfl))
      simp only [Node.frame, Prod.mk.injEq] at hf
      cases direction <;> simp [ho, Node.side, hf.1, hf.2.1]

namespace Wired

variable {graph : Graph}

theorem side_placed (hw : graph.Wired) {id : NodeId} {node : Node}
    (hn : graph.node? id = some node) {direction : Direction} {index : Nat} {p : PortId}
    (h : (node.side direction)[index]? = some p) :
    ∃ port, graph.port? p = some port ∧ port.node = id ∧ port.direction = direction ∧
      port.index = index :=
  hw.placed (by rw [portAt?_eq, hn]; exact h)

theorem mem_side_placed (hw : graph.Wired) {id : NodeId} {node : Node}
    (hn : graph.node? id = some node) {direction : Direction} {p : PortId}
    (h : p ∈ node.side direction) :
    ∃ port, graph.port? p = some port ∧ port.node = id ∧ port.direction = direction := by
  obtain ⟨index, hindex⟩ := List.mem_iff_getElem?.mp h
  obtain ⟨port, hp, hid, hd, -⟩ := hw.side_placed hn hindex
  exact ⟨port, hp, hid, hd⟩

theorem mem_ports_iff (hw : graph.Wired) {id : NodeId} {node : Node}
    (hn : graph.node? id = some node) (p : PortId) :
    p ∈ node.ports ↔ ∃ port, graph.port? p = some port ∧ port.node = id := by
  rw [mem_ports_iff_portAt? hn]
  constructor
  · rintro ⟨direction, index, h⟩
    obtain ⟨port, hport, hid, -⟩ := hw.placed h
    exact ⟨port, hport, hid⟩
  · rintro ⟨port, hport, rfl⟩
    exact ⟨_, _, hw.owned hport⟩

theorem mem_portsOf_iff (hw : graph.Wired) (nodes : List NodeId) (p : PortId) :
    p ∈ graph.portsOf nodes ↔ ∃ port, graph.port? p = some port ∧ port.node ∈ nodes := by
  rw [Graph.mem_portsOf_iff]
  constructor
  · rintro ⟨n, hn, node, hnode, hp⟩
    obtain ⟨port, hport, rfl⟩ := (hw.mem_ports_iff hnode p).mp hp
    exact ⟨port, hport, hn⟩
  · rintro ⟨port, hport, hn⟩
    have ho := hw.owned hport
    rw [portAt?_eq] at ho
    obtain ⟨node, hnode, -⟩ := Option.bind_eq_some_iff.mp ho
    exact ⟨port.node, hn, node, hnode, (hw.mem_ports_iff hnode p).mpr ⟨port, hport, rfl⟩⟩

-- A port goes with its node.
theorem mem_portsOf_iff_node (hw : graph.Wired) {nodes : List NodeId} {p : PortId} {port : Port}
    (hp : graph.port? p = some port) : p ∈ graph.portsOf nodes ↔ port.node ∈ nodes := by
  rw [hw.mem_portsOf_iff, hp]
  simp

theorem port?_withdraw_eq_some_iff (hw : graph.Wired) {doomed : List NodeId} {p : PortId}
    {left : Port} : (graph.withdraw doomed).port? p = some left ↔
      ∃ port, graph.port? p = some port ∧ port.node ∉ doomed ∧ graph.trim doomed port = left := by
  rw [port?_withdraw]
  cases hp : graph.port? p with
  | none => simp
  | some port => simp [hw.mem_portsOf_iff_node hp]

-- A port has a node.
theorem owner (hw : graph.Wired) {p : PortId} {port : Port} (hp : graph.port? p = some port) :
    ∃ node, graph.node? port.node = some node := by
  have ho := hw.owned hp
  rw [portAt?_eq] at ho
  obtain ⟨node, hnode, -⟩ := Option.bind_eq_some_iff.mp ho
  exact ⟨node, hnode⟩

theorem exists_placed (hw : graph.Wired) {n : NodeId} {direction : Direction} {i : Nat}
    {p : PortId} (h : graph.portAt? n direction i = some p) :
    ∃ port, graph.port? p = some port ∧ port.node = n ∧ port.direction = direction := by
  obtain ⟨port, hp, hn, hd, -⟩ := hw.placed h
  exact ⟨port, hp, hn, hd⟩

theorem input_placed (hw : graph.Wired) {n : NodeId} {i : Nat} {p : PortId}
    (h : graph.inputPort? n i = some p) :
    ∃ port, graph.port? p = some port ∧ port.node = n ∧ port.direction = .input :=
  hw.exists_placed h

theorem output_placed (hw : graph.Wired) {n : NodeId} {o : Nat} {p : PortId}
    (h : graph.outputPort? n o = some p) :
    ∃ port, graph.port? p = some port ∧ port.node = n ∧ port.direction = .output :=
  hw.exists_placed h

-- The edges in the list of an input are those that lead to it.
theorem destination_eq (hw : graph.Wired) {p : PortId} {port : Port} {e : EdgeId} {edge : Edge}
    (hp : graph.port? p = some port) (hd : port.direction = .input) (he : e ∈ port.edges)
    (hedge : graph.edge? e = some edge) : edge.destination = p := by
  obtain ⟨edge', hedge', hends⟩ := hw.incident hp he
  obtain rfl := Option.some.inj (hedge.symm.trans hedge')
  refine hends.resolve_left fun hsrc => ?_
  obtain ⟨source, hs, hout, -⟩ := hw.source hedge
  obtain rfl := Option.some.inj (hs.symm.trans (hsrc ▸ hp))
  rw [hd] at hout
  cases hout

theorem new (settings : Settings) : (Graph.new settings).Wired := by
  have hnode : ∀ id, (Graph.new settings).node? id = none := fun _ => rfl
  have hport : ∀ p, (Graph.new settings).port? p = none := fun _ => rfl
  have hedge : ∀ e, (Graph.new settings).edge? e = none := fun _ => rfl
  constructor <;> intros <;> simp_all [portAt?_eq]

-- Changes that leave the frames of nodes and the place of every port as they are. What
-- is left to see to are the edges, and what the ports stand for afterwards.
theorem of_places (hw : graph.Wired) {other : Graph} (f : PortId → Port → Port)
    (hnode : ∀ id, (other.node? id).map Node.frame = (graph.node? id).map Node.frame)
    (hport : ∀ p, other.port? p = (graph.port? p).map (f p))
    (hplace : ∀ p port, (f p port).node = port.node ∧ (f p port).index = port.index ∧
      (f p port).direction = port.direction)
    (htarget : ∀ {p port t}, graph.port? p = some port → (f p port).aliasOf = some t →
      ∃ found, graph.port? t = some found ∧ found.direction = port.direction)
    (hsource : ∀ {e edge}, other.edge? e = some edge → ∃ port,
      graph.port? edge.source = some port ∧ port.direction = .output ∧
        e ∈ (f edge.source port).edges)
    (hdestination : ∀ {e edge}, other.edge? e = some edge → ∃ port,
      graph.port? edge.destination = some port ∧ port.direction = .input ∧
        e ∈ (f edge.destination port).edges)
    (hincident : ∀ {p port e}, graph.port? p = some port → e ∈ (f p port).edges →
      ∃ edge, other.edge? e = some edge ∧ (edge.source = p ∨ edge.destination = p))
    (honce : ∀ {p port}, graph.port? p = some port → (f p port).edges.Nodup) :
    other.Wired := by
  have hat := fun id => portAt?_congr (hnode id)
  have hback : ∀ {p port'}, other.port? p = some port' →
      ∃ port, graph.port? p = some port ∧ f p port = port' :=
    fun {p port'} h => Option.map_eq_some_iff.mp (hport p ▸ h)
  have hthere : ∀ {p port}, graph.port? p = some port → other.port? p = some (f p port) := by
    intro p port h
    rw [hport, h]
    rfl
  constructor
  case placed =>
    intro id direction index p h
    rw [hat] at h
    obtain ⟨port, hp, hn, hd, hi⟩ := hw.placed h
    obtain ⟨h1, h2, h3⟩ := hplace p port
    exact ⟨_, hthere hp, h1.trans hn, h3.trans hd, h2.trans hi⟩
  case owned =>
    intro p port' h
    obtain ⟨port, hp, rfl⟩ := hback h
    obtain ⟨h1, h2, h3⟩ := hplace p port
    rw [hat, h1, h2, h3]
    exact hw.owned hp
  case source =>
    intro e edge h
    obtain ⟨port, hp, hd, he⟩ := hsource h
    exact ⟨_, hthere hp, (hplace _ port).2.2.trans hd, he⟩
  case destination =>
    intro e edge h
    obtain ⟨port, hp, hd, he⟩ := hdestination h
    exact ⟨_, hthere hp, (hplace _ port).2.2.trans hd, he⟩
  case incident =>
    intro p port' e h he
    obtain ⟨port, hp, rfl⟩ := hback h
    exact hincident hp he
  case listedOnce =>
    intro p port' h
    obtain ⟨port, hp, rfl⟩ := hback h
    exact honce hp
  case target =>
    intro p port' t h ht
    obtain ⟨port, hp, rfl⟩ := hback h
    obtain ⟨found, hf, hd⟩ := htarget hp ht
    exact ⟨_, hthere hf, by rw [(hplace t found).2.2, (hplace p port).2.2, hd]⟩
  case slots =>
    intro id node' h
    obtain ⟨node, hn, -, ho, -, hl⟩ := exists_of_frame_eq (hnode id) h
    rw [← hl, ← ho]
    exact hw.slots hn
  case units =>
    intro id node' unit h hu
    obtain ⟨node, hn, hi, ho, hunits, -⟩ := exists_of_frame_eq (hnode id) h
    rw [← hi, ← ho]
    exact hw.units hn (hunits ▸ hu)
  case oneUnit =>
    intro id node' h
    obtain ⟨node, hn, -, -, hunits, -⟩ := exists_of_frame_eq (hnode id) h
    exact hunits ▸ hw.oneUnit hn

-- Changes that leave the edges alone, too.
theorem of_frames (hw : graph.Wired) {other : Graph} (f : PortId → Port → Port)
    (hnode : ∀ id, (other.node? id).map Node.frame = (graph.node? id).map Node.frame)
    (hedge : ∀ e, other.edge? e = graph.edge? e)
    (hport : ∀ p, other.port? p = (graph.port? p).map (f p))
    (hplace : ∀ p port, (f p port).node = port.node ∧ (f p port).index = port.index ∧
      (f p port).direction = port.direction ∧ (f p port).edges = port.edges)
    (htarget : ∀ {p port t}, graph.port? p = some port → (f p port).aliasOf = some t →
      ∃ found, graph.port? t = some found ∧ found.direction = port.direction) :
    other.Wired := by
  have hlist : ∀ p port, (f p port).edges = port.edges := fun p port => (hplace p port).2.2.2
  refine hw.of_places f hnode hport (fun p port => ?_) htarget ?_ ?_ ?_ ?_
  · exact ⟨(hplace p port).1, (hplace p port).2.1, (hplace p port).2.2.1⟩
  · intro e edge h
    simpa only [hlist] using hw.source (hedge e ▸ h)
  · intro e edge h
    simpa only [hlist] using hw.destination (hedge e ▸ h)
  · intro p port e hp he
    rw [hedge]
    exact hw.incident hp (hlist p port ▸ he)
  · intro p port hp
    exact hlist p port ▸ hw.listedOnce hp

end Wired

end Graph

end Dataflow
