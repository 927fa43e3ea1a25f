import Dataflow.Graph.Edit
import Dataflow.Proofs.Arena

namespace Dataflow.Graph

-- What each edit makes of the nodes, ports and edges that can be looked up.

section Invalidate

variable (graph : Graph) (id : NodeId)

@[simp] theorem settings_invalidate : (graph.invalidate id).settings = graph.settings := rfl

@[simp] theorem port?_invalidate (p : PortId) :
    (graph.invalidate id).port? p = graph.port? p := rfl

@[simp] theorem edge?_invalidate (e : EdgeId) :
    (graph.invalidate id).edge? e = graph.edge? e := rfl

theorem node?_invalidate (n : NodeId) :
    (graph.invalidate id).node? n = (graph.node? n).map fun node =>
      if (graph.downstream id).contains n then node.invalidate else node :=
  graph.nodes.find?_update _ n

end Invalidate

section Join

variable (graph : Graph) (source destination : PortId)

@[simp] theorem node?_join (n : NodeId) :
    (graph.join source destination).node? n = graph.node? n := rfl

theorem edge?_join (e : EdgeId) :
    (graph.join source destination).edge? e =
      if e = graph.edges.fresh then some ⟨source, destination⟩ else graph.edge? e :=
  graph.edges.find?_insert _ e

theorem port?_join (p : PortId) :
    (graph.join source destination).port? p = (graph.port? p).map fun port =>
      { port with
        edges := port.edges ++ (if p = source then [graph.edges.fresh] else []) ++
          (if p = destination then [graph.edges.fresh] else []) } := by
  simp only [join, port?, Arena.find?_modify, Option.map_map]
  congr 1
  funext port
  simp only [Function.comp]
  split_ifs <;> simp only [List.append_nil, List.append_assoc]

end Join

section Drop

variable (graph : Graph) (ids : List EdgeId)

@[simp] theorem node?_dropEdges (n : NodeId) :
    (graph.dropEdges ids).node? n = graph.node? n := rfl

theorem edge?_dropEdges (e : EdgeId) :
    (graph.dropEdges ids).edge? e = if e ∈ ids then none else graph.edge? e := by
  simp only [dropEdges, edge?, Arena.find?_keep]
  by_cases h : e ∈ ids <;> simp [h]

theorem edge?_dropEdges_eq_some_iff {e : EdgeId} {edge : Edge} :
    (graph.dropEdges ids).edge? e = some edge ↔ e ∉ ids ∧ graph.edge? e = some edge := by
  simp [edge?_dropEdges]

theorem port?_dropEdges (p : PortId) :
    (graph.dropEdges ids).port? p = (graph.port? p).map fun port =>
      { port with edges := port.edges.filter fun id => !ids.contains id } :=
  graph.ports.find?_update _ p

end Drop

section Withdraw

variable (graph : Graph) (doomed : List NodeId)

theorem mem_portsOf_iff (p : PortId) :
    p ∈ graph.portsOf doomed ↔
      ∃ n ∈ doomed, ∃ node, graph.node? n = some node ∧ p ∈ node.ports := by
  simp only [portsOf, List.mem_flatMap, List.mem_filterMap]
  constructor
  · rintro ⟨node, ⟨n, hn, hnode⟩, hp⟩
    exact ⟨n, hn, node, hnode, hp⟩
  · rintro ⟨n, hn, node, hnode, hp⟩
    exact ⟨node, ⟨n, hn, hnode⟩, hp⟩

theorem mem_edgesAt_iff (ports : List PortId) (e : EdgeId) :
    e ∈ graph.edgesAt ports ↔
      ∃ p ∈ ports, ∃ port, graph.port? p = some port ∧ e ∈ port.edges := by
  simp only [edgesAt, List.mem_flatMap, List.mem_filterMap]
  constructor
  · rintro ⟨port, ⟨p, hp, hport⟩, he⟩
    exact ⟨p, hp, port, hport, he⟩
  · rintro ⟨p, hp, port, hport, he⟩
    exact ⟨port, ⟨p, hp, hport⟩, he⟩

@[simp] theorem outline_withdraw : (graph.withdraw doomed).outline = graph.outline := rfl

theorem node?_withdraw (n : NodeId) :
    (graph.withdraw doomed).node? n = if n ∈ doomed then none else graph.node? n := by
  simp only [withdraw, node?, Arena.find?_keep]
  by_cases h : n ∈ doomed <;> simp [h, dropEdges]

theorem node?_withdraw_eq_some_iff {n : NodeId} {node : Node} :
    (graph.withdraw doomed).node? n = some node ↔ n ∉ doomed ∧ graph.node? n = some node := by
  simp [node?_withdraw]

theorem edge?_withdraw (e : EdgeId) :
    (graph.withdraw doomed).edge? e =
      if e ∈ graph.edgesAt (graph.portsOf doomed) then none else graph.edge? e :=
  graph.edge?_dropEdges _ e

theorem edge?_withdraw_eq_some_iff {e : EdgeId} {edge : Edge} :
    (graph.withdraw doomed).edge? e = some edge ↔
      e ∉ graph.edgesAt (graph.portsOf doomed) ∧ graph.edge? e = some edge :=
  graph.edge?_dropEdges_eq_some_iff _

-- What is left of a port that stays: it no longer leads to what goes.
def trim (port : Port) : Port :=
  { port with
    edges := port.edges.filter fun id => !(graph.edgesAt (graph.portsOf doomed)).contains id
    aliasOf := if port.aliasOf.any (graph.portsOf doomed).contains then none else port.aliasOf }

theorem mem_edges_trim_iff {port : Port} {e : EdgeId} :
    e ∈ (graph.trim doomed port).edges ↔
      e ∈ port.edges ∧ e ∉ graph.edgesAt (graph.portsOf doomed) := by
  simp [trim]

theorem aliasOf_trim_eq_some_iff {port : Port} {t : PortId} :
    (graph.trim doomed port).aliasOf = some t ↔
      port.aliasOf = some t ∧ t ∉ graph.portsOf doomed := by
  cases h : port.aliasOf with
  | none => simp [trim, h]
  | some other =>
      by_cases hgone : other ∈ graph.portsOf doomed
      · have ht : other = t → t ∈ graph.portsOf doomed := fun heq => heq ▸ hgone
        simpa [trim, h, hgone] using ht
      · have ht : other = t → t ∉ graph.portsOf doomed := fun heq => heq ▸ hgone
        simpa [trim, h, hgone] using ht

theorem port?_withdraw (p : PortId) :
    (graph.withdraw doomed).port? p =
      if p ∈ graph.portsOf doomed then none else (graph.port? p).map (graph.trim doomed) := by
  simp only [withdraw, port?, Arena.find?_keep, Arena.find?_update]
  by_cases h : p ∈ graph.portsOf doomed
  · simp [h]
  · have hp : (graph.dropEdges (graph.edgesAt (graph.portsOf doomed))).ports.find? p = _ :=
      graph.port?_dropEdges (graph.edgesAt (graph.portsOf doomed)) p
    rw [hp, Option.map_map]
    simp only [h, List.contains_eq_mem, decide_false, Bool.not_false, if_true, if_false]
    apply congrArg (fun f => Option.map f (graph.port? p))
    funext port
    simp only [Function.comp, trim, List.contains_eq_mem]
    split <;> rfl

end Withdraw

section Forward

variable (graph : Graph) (port target : PortId)

@[simp] theorem node?_forward (n : NodeId) :
    (graph.forward port target).node? n = graph.node? n := rfl

@[simp] theorem edge?_forward (e : EdgeId) :
    (graph.forward port target).edge? e = graph.edge? e := rfl

theorem port?_forward (p : PortId) :
    (graph.forward port target).port? p = (graph.port? p).map fun found =>
      if p = port then { found with aliasOf := some target } else found :=
  graph.ports.find?_modify _ _ p

@[simp] theorem node?_unlink (n : NodeId) : (graph.unlink port).node? n = graph.node? n := rfl

@[simp] theorem edge?_unlink (e : EdgeId) : (graph.unlink port).edge? e = graph.edge? e := rfl

theorem port?_unlink (p : PortId) :
    (graph.unlink port).port? p = (graph.port? p).map fun found =>
      if p = port then { found with aliasOf := none } else found :=
  graph.ports.find?_modify _ _ p

end Forward

section Set

variable (graph : Graph)

theorem node?_withProperty (node : NodeId) (key : String) (value : Nested Value) (n : NodeId) :
    (graph.withProperty node key value).node? n = (graph.node? n).map fun found =>
      if n = node then { found with properties := found.properties.insert key value }
      else found :=
  graph.nodes.find?_modify _ _ n

theorem node?_withPosition (node : NodeId) (position : Position) (n : NodeId) :
    (graph.withPosition node position).node? n = (graph.node? n).map fun found =>
      if n = node then { found with position := position } else found :=
  graph.nodes.find?_modify _ _ n

theorem port?_withFlags (port : PortId) (flags : Flags) (p : PortId) :
    (graph.withFlags port flags).port? p = (graph.port? p).map fun found =>
      if p = port then { found with flags := flags } else found :=
  graph.ports.find?_modify _ _ p

end Set

section Create

-- The port that a description makes.
def createdPort (node : NodeId) (direction : Direction) (index : Nat) (spec : PortSpec) : Port :=
  ⟨node, index, spec.name, direction, spec.type, spec.flags, spec.default, none, []⟩

theorem next_createPorts (node : NodeId) (direction : Direction) (index : Nat)
    (specs : List PortSpec) (ports : Arena .port Port) :
    (createPorts node direction index specs ports).2.next = ports.next + specs.length := by
  induction specs generalizing index ports with
  | nil => rfl
  | cons spec rest ih =>
      simp only [createPorts, ih, List.length_cons, Arena.insert]
      omega

-- New ports are numbered in order.
theorem createPorts_fst (node : NodeId) (direction : Direction) (index : Nat)
    (specs : List PortSpec) (ports : Arena .port Port) :
    (createPorts node direction index specs ports).1 =
      (List.range specs.length).map fun k => ⟨ports.next + k⟩ := by
  induction specs generalizing index ports with
  | nil => rfl
  | cons spec rest ih =>
      simp only [createPorts, ih, List.length_cons, List.range_succ_eq_map, List.map_cons,
        List.map_map, Arena.insert, Arena.fresh]
      congr 1
      apply List.map_congr_left
      intro k _
      simp only [Function.comp, Id.mk.injEq]
      omega

theorem find?_createPorts (node : NodeId) (direction : Direction) (index : Nat)
    (specs : List PortSpec) (ports : Arena .port Port) (p : PortId) :
    (createPorts node direction index specs ports).2.find? p =
      if p.number < ports.next then ports.find? p
      else (specs[p.number - ports.next]?).map
        (createdPort node direction (index + (p.number - ports.next))) := by
  induction specs generalizing index ports with
  | nil =>
      simp only [createPorts, List.getElem?_nil, Option.map_none]
      split
      · rfl
      · next h =>
        cases hp : ports.find? p with
        | none => rfl
        | some port => exact absurd (ports.number_lt_of_find? hp) h
  | cons spec rest ih =>
      simp only [createPorts, ih, Arena.find?_insert]
      simp only [Arena.insert, Arena.fresh]
      by_cases hlt : p.number < ports.next
      · have hne : p ≠ ⟨ports.next⟩ := by rintro rfl; exact absurd hlt (Nat.lt_irrefl _)
        simp [hlt, hne, Nat.lt_succ_of_lt hlt]
      · by_cases heq : p.number = ports.next
        · have he : p = ⟨ports.next⟩ := by cases p; simpa using heq
          subst he
          simp [createdPort]
        · have hne : p ≠ ⟨ports.next⟩ := by rintro rfl; exact heq rfl
          have hk : p.number - ports.next = (p.number - (ports.next + 1)) + 1 := by omega
          have hi : index + 1 + (p.number - (ports.next + 1)) =
              index + (p.number - (ports.next + 1) + 1) := by omega
          simp only [hlt, if_false, show ¬p.number < ports.next + 1 by omega, hk,
            List.getElem?_cons_succ, hi]

end Create

section Insert

variable (graph : Graph) (template : Template) (uuid : Uuid) (parent : ItemId)

-- The identifiers of a new node's ports: its inputs first.
def newInputs : List PortId :=
  (List.range template.inputs.length).map fun k => ⟨graph.ports.next + k⟩

def newOutputs : List PortId :=
  (List.range template.outputs.length).map fun k =>
    ⟨graph.ports.next + template.inputs.length + k⟩

def newNode : Node where
  uuid := uuid
  tag := template.tag
  position := .origin
  properties := template.properties
  inputs := graph.newInputs template
  outputs := graph.newOutputs template
  units := template.units
  slots := List.replicate template.outputs.length .empty
  item := (graph.outline.insert (.node graph.nodes.fresh)).1

theorem node?_withNode (n : NodeId) :
    (graph.withNode template uuid parent).node? n =
      if n = graph.nodes.fresh then some (graph.newNode template uuid) else graph.node? n := by
  have h := graph.nodes.find?_insert (graph.newNode template uuid) n
  simp only [node?, ← h]
  simp only [withNode, newNode, newInputs, newOutputs, createPorts_fst, next_createPorts]

theorem port?_withNode (p : PortId) :
    (graph.withNode template uuid parent).port? p =
      if p.number < graph.ports.next then graph.port? p
      else if p.number < graph.ports.next + template.inputs.length then
        (template.inputs[p.number - graph.ports.next]?).map
          (createdPort graph.nodes.fresh .input (p.number - graph.ports.next))
      else
        (template.outputs[p.number - (graph.ports.next + template.inputs.length)]?).map
          (createdPort graph.nodes.fresh .output
            (p.number - (graph.ports.next + template.inputs.length))) := by
  simp only [withNode, port?, find?_createPorts, next_createPorts, Nat.zero_add]
  by_cases h : p.number < graph.ports.next
  · simp [h, show p.number < graph.ports.next + template.inputs.length by omega]
  · simp [h]

-- What there was before is there still.
theorem port?_withNode_of_port? {p : PortId} {port : Port} (h : graph.port? p = some port) :
    (graph.withNode template uuid parent).port? p = some port := by
  rw [port?_withNode, if_pos (graph.ports.number_lt_of_find? h), h]

theorem node?_withNode_of_node? {n : NodeId} {node : Node} (h : graph.node? n = some node) :
    (graph.withNode template uuid parent).node? n = some node := by
  rw [node?_withNode, if_neg (graph.nodes.ne_fresh_of_find? h), h]

theorem node?_withNode_fresh :
    (graph.withNode template uuid parent).node? graph.nodes.fresh =
      some (graph.newNode template uuid) := by
  rw [node?_withNode, if_pos rfl]

theorem node?_withNode_eq_some_iff {n : NodeId} {node : Node} :
    (graph.withNode template uuid parent).node? n = some node ↔
      n = graph.nodes.fresh ∧ node = graph.newNode template uuid ∨ graph.node? n = some node := by
  constructor
  · intro h
    rw [node?_withNode] at h
    split at h
    · next hn => exact .inl ⟨hn, (Option.some.inj h).symm⟩
    · exact .inr h
  · rintro (⟨rfl, rfl⟩ | h)
    · exact graph.node?_withNode_fresh template uuid parent
    · exact graph.node?_withNode_of_node? template uuid parent h

end Insert

end Dataflow.Graph
