import Dataflow.Proofs.Graph.Acyclic

namespace Dataflow.Graph

-- Two ports may be joined where one is an output and the other an input of another node,
-- neither node stands inside the other, the types fit where they have to, and no edge leads
-- from the one to the other yet.
theorem orientConnection_eq_ok_iff {graph : Graph} {a b s d : PortId} :
    graph.orientConnection a b = .ok (s, d) ↔ (s = a ∧ d = b ∨ s = b ∧ d = a) ∧
      ∃ source destination, graph.port? s = some source ∧ graph.port? d = some destination ∧
        source.direction = .output ∧ destination.direction = .input ∧
        source.node ≠ destination.node ∧
        (graph.encloses source.node destination.node ||
          graph.encloses destination.node source.node) = false ∧
        (graph.settings.enforcePortTypes && !source.type.feeds destination.type) = false ∧
        ((source.edges.filterMap graph.edge?).any fun edge => edge.destination = d) = false := by
  simp only [orientConnection]
  constructor
  · intro h
    split at h
    · cases h
    split at h
    · cases h
    · cases h
    · next portA portB ha hb =>
      split at h
      · cases h
      next hdir =>
      cases hA : portA.direction with
      | output =>
          have hB : portB.direction = .input := by
            cases hB : portB.direction with
            | input => rfl
            | output => exact absurd (hA.trans hB.symm) hdir
          simp only [hA] at h
          split_ifs at h with hnode hscope htypes hfound
          obtain ⟨rfl, rfl⟩ := Prod.mk.inj (Except.ok.inj h)
          exact ⟨.inl ⟨rfl, rfl⟩, portA, portB, ha, hb, hA, hB, hnode, Bool.not_eq_true _ ▸ hscope,
            Bool.not_eq_true _ ▸ htypes, Bool.not_eq_true _ ▸ hfound⟩
      | input =>
          have hB : portB.direction = .output := by
            cases hB : portB.direction with
            | input => exact absurd (hA.trans hB.symm) hdir
            | output => rfl
          simp only [hA] at h
          split_ifs at h with hnode hscope htypes hfound
          obtain ⟨rfl, rfl⟩ := Prod.mk.inj (Except.ok.inj h)
          exact ⟨.inr ⟨rfl, rfl⟩, portB, portA, hb, ha, hB, hA, hnode, Bool.not_eq_true _ ▸ hscope,
            Bool.not_eq_true _ ▸ htypes, Bool.not_eq_true _ ▸ hfound⟩
  · rintro ⟨hends, source, destination, hs, hd, hout, hin, hnode, hscope, htypes, hfound⟩
    have hne : s ≠ d := by
      rintro rfl
      rw [Option.some.inj (hs.symm.trans hd), hin] at hout
      cases hout
    rcases hends with ⟨rfl, rfl⟩ | ⟨rfl, rfl⟩
    · simp only [hne, hs, hd, hout, hin, hnode, hscope, htypes, hfound]
      simp
    · simp only [hne.symm, hs, hd, hout, hin, hnode, hscope, htypes, hfound]
      simp

-- What two ports have passed that may be joined: the source is the output of the two,
-- and the other is the input of a node outside its own.
theorem orientConnection_eq_ok {graph : Graph} {a b s d : PortId}
    (h : graph.orientConnection a b = .ok (s, d)) :
    (s = a ∧ d = b ∨ s = b ∧ d = a) ∧
    ∃ source destination, graph.port? s = some source ∧ graph.port? d = some destination ∧
      source.direction = .output ∧ destination.direction = .input ∧
      source.node ≠ destination.node := by
  obtain ⟨hends, source, destination, hs, hd, hout, hin, hnode, -⟩ :=
    orientConnection_eq_ok_iff.mp h
  exact ⟨hends, source, destination, hs, hd, hout, hin, hnode⟩

-- One change of a graph that was not refused, with what the change was allowed for.
inductive Edit (graph : Graph) : Graph → Prop where
  | insert {template : Template} {uuid : Uuid} (parent : ItemId) (hf : template.fault? = none)
      (hu : graph.findByUuid uuid = none)
      (hp : parent = graph.root ∨ ∃ c node, graph.node? c = some node ∧ parent = node.item) :
      Edit graph (graph.withNode template uuid parent)
  | remove {id : NodeId} {node : Node} (hn : graph.node? id = some node) :
      Edit graph
        { (((graph.nodesUnder id node).foldl invalidate graph).withdraw
            (graph.nodesUnder id node)) with
          outline := (graph.outline.take node.item).2 }
  | connect {a b s d : PortId} {port : Port} (ho : graph.orientConnection a b = .ok (s, d))
      (hl : graph.closesLoop s d = false) (hd : graph.port? d = some port) :
      Edit graph ((graph.join s d).invalidate port.node)
  | disconnect {e : EdgeId} {edge : Edge} {port : Port} (he : graph.edge? e = some edge)
      (hd : graph.port? edge.destination = some port) :
      Edit graph ((graph.dropEdges [e]).invalidate port.node)
  | link {p t : PortId} {port other : Port} (hp : graph.port? p = some port)
      (ht : graph.port? t = some other) (hd : port.direction = other.direction)
      (hl : graph.closesLoop t p = false) :
      Edit graph ((graph.forward p t).invalidate port.node)
  | unlink {p : PortId} {port : Port} (hp : graph.port? p = some port) :
      Edit graph ((graph.unlink p).invalidate port.node)
  | property {id : NodeId} {node : Node} (hn : graph.node? id = some node) (key : String)
      (value : Nested Value) : Edit graph ((graph.withProperty id key value).invalidate id)
  | position {id : NodeId} {node : Node} (hn : graph.node? id = some node) (position : Position) :
      Edit graph (graph.withPosition id position)
  | flags {p : PortId} {port : Port} (hp : graph.port? p = some port) (flags : Flags) :
      Edit graph ((graph.withFlags p flags).invalidate port.node)
  | invalidate (id : NodeId) : Edit graph (graph.invalidate id)
  | move (id : NodeId) (container : Option NodeId) : Edit graph (graph.moveInto id container).2

-- A change that makes no node, moves none and leaves the properties of all as they are.
inductive Adjustment (graph : Graph) : Graph → Prop where
  | remove {id : NodeId} {node : Node} (hn : graph.node? id = some node) :
      Adjustment graph
        { (((graph.nodesUnder id node).foldl invalidate graph).withdraw
            (graph.nodesUnder id node)) with
          outline := (graph.outline.take node.item).2 }
  | connect {a b s d : PortId} {port : Port} (ho : graph.orientConnection a b = .ok (s, d))
      (hl : graph.closesLoop s d = false) (hd : graph.port? d = some port) :
      Adjustment graph ((graph.join s d).invalidate port.node)
  | disconnect {e : EdgeId} {edge : Edge} {port : Port} (he : graph.edge? e = some edge)
      (hd : graph.port? edge.destination = some port) :
      Adjustment graph ((graph.dropEdges [e]).invalidate port.node)
  | link {p t : PortId} {port other : Port} (hp : graph.port? p = some port)
      (ht : graph.port? t = some other) (hd : port.direction = other.direction)
      (hl : graph.closesLoop t p = false) :
      Adjustment graph ((graph.forward p t).invalidate port.node)
  | unlink {p : PortId} {port : Port} (hp : graph.port? p = some port) :
      Adjustment graph ((graph.unlink p).invalidate port.node)
  | position {id : NodeId} {node : Node} (hn : graph.node? id = some node) (position : Position) :
      Adjustment graph (graph.withPosition id position)
  | flags {p : PortId} {port : Port} (hp : graph.port? p = some port) (flags : Flags) :
      Adjustment graph ((graph.withFlags p flags).invalidate port.node)
  | invalidate (id : NodeId) : Adjustment graph (graph.invalidate id)

-- A change that makes no node and moves none.
inductive Revision (graph : Graph) : Graph → Prop where
  | adjusted {other : Graph} (h : graph.Adjustment other) : Revision graph other
  | property {id : NodeId} {node : Node} (hn : graph.node? id = some node) (key : String)
      (value : Nested Value) : Revision graph ((graph.withProperty id key value).invalidate id)

variable {graph other : Graph}

theorem Adjustment.edit (h : graph.Adjustment other) : graph.Edit other := by
  cases h with
  | remove hn => exact .remove hn
  | connect ho hl hd => exact .connect ho hl hd
  | disconnect he hd => exact .disconnect he hd
  | link hp ht hd hl => exact .link hp ht hd hl
  | unlink hp => exact .unlink hp
  | position hn position => exact .position hn position
  | flags hp flags => exact .flags hp flags
  | invalidate id => exact .invalidate id

theorem Revision.edit (h : graph.Revision other) : graph.Edit other := by
  cases h with
  | adjusted h => exact h.edit
  | property hn key value => exact .property hn key value

-- Moving a node changes the outline and nothing else.
theorem moveInto_snd (graph : Graph) (id : NodeId) (container : Option NodeId) :
    ∃ outline, (graph.moveInto id container).2 = { graph with outline := outline } := by
  simp only [moveInto]
  split
  · exact ⟨_, rfl⟩
  · exact ⟨_, rfl⟩
  · split <;> exact ⟨_, rfl⟩

theorem insertNode_eq_ok {template : Template} {uuid : Uuid} {parent : ItemId}
    {result : NodeId × Graph} (h : graph.insertNode template uuid parent = .ok result) :
    template.fault? = none ∧ graph.findByUuid uuid = none ∧ result.1 = graph.nodes.fresh ∧
      result.2 = graph.withNode template uuid parent := by
  simp only [insertNode] at h
  split at h
  · cases h
  · next hf =>
    split at h
    · cases h
    · next hu =>
      obtain rfl := Except.ok.inj h
      exact ⟨hf, Option.not_isSome_iff_eq_none.mp hu, rfl, rfl⟩

theorem edit_of_addNode {template : Template} {uuid : Uuid} {id : NodeId}
    (h : graph.addNode template uuid = .ok (id, other)) : graph.Edit other := by
  obtain ⟨hf, hu, -, rfl⟩ := insertNode_eq_ok h
  exact .insert graph.root hf hu (.inl rfl)

theorem adjustment_of_removeNode {id : NodeId} (h : graph.removeNode id = some other) :
    graph.Adjustment other := by
  have houtline : ∀ (ids : List NodeId) (g : Graph),
      (ids.foldl invalidate g).outline = g.outline := by
    intro ids
    induction ids with
    | nil => exact fun _ => rfl
    | cons id rest ih => exact fun g => ih (g.invalidate id)
  simp only [removeNode] at h
  split at h
  · cases h
  · next node hn =>
    obtain rfl := Option.some.inj h
    simp only [outline_withdraw, houtline]
    exact .remove hn

-- What there was to two ports that an edge was made of, and what came of it.
theorem exists_join_of_addEdge {a b : PortId} {e : EdgeId}
    (h : graph.addEdge a b = .ok (e, other)) :
    ∃ s d port, graph.orientConnection a b = .ok (s, d) ∧ graph.closesLoop s d = false ∧
      graph.port? d = some port ∧ other = (graph.join s d).invalidate port.node := by
  simp only [addEdge, checkConnection] at h
  split at h
  · cases h
  · next s d hc =>
    split at hc
    · cases hc
    · next s' d' ho =>
      split at hc
      · cases hc
      · next hl =>
        obtain ⟨rfl, rfl⟩ := Prod.mk.inj (Except.ok.inj hc)
        obtain ⟨-, source, destination, -, hd, -⟩ := orientConnection_eq_ok ho
        rw [hd] at h
        obtain ⟨-, rfl⟩ := Prod.mk.inj (Except.ok.inj h)
        exact ⟨s', d', destination, ho, Bool.not_eq_true _ ▸ hl, hd, rfl⟩

theorem adjustment_of_addEdge {a b : PortId} {e : EdgeId} (h : graph.addEdge a b = .ok (e, other)) :
    graph.Adjustment other := by
  obtain ⟨s, d, port, ho, hl, hd, rfl⟩ := exists_join_of_addEdge h
  exact .connect ho hl hd

theorem adjustment_of_removeEdge (hw : graph.Wired) {e : EdgeId}
    (h : graph.removeEdge e = some other) :
    graph.Adjustment other := by
  simp only [removeEdge] at h
  split at h
  · cases h
  · next edge he =>
    obtain ⟨port, hd, -⟩ := hw.destination he
    rw [hd] at h
    obtain rfl := Option.some.inj h
    exact .disconnect he hd

theorem adjustment_of_linkAlias {p t : PortId} (h : graph.linkAlias p t = .ok other) :
    graph.Adjustment other := by
  simp only [linkAlias] at h
  split at h
  · cases h
  · cases h
  · next port target hp ht =>
    split_ifs at h with hd hl
    obtain rfl := Except.ok.inj h
    exact .link hp ht (not_not.mp hd) (Bool.not_eq_true _ ▸ hl)

theorem adjustment_of_unlinkAlias {p : PortId} {old : Option PortId}
    (h : graph.unlinkAlias p = .ok (old, other)) : other = graph ∨ graph.Adjustment other := by
  simp only [unlinkAlias] at h
  split at h
  · cases h
  · next port hp =>
    split at h
    · exact .inl (Prod.mk.inj (Except.ok.inj h)).2.symm
    · obtain ⟨-, rfl⟩ := Prod.mk.inj (Except.ok.inj h)
      exact .inr (.unlink hp)

theorem setProperty_eq_ok {id : NodeId} {key : String} {value : Nested Value}
    (h : graph.setProperty id key value = .ok other) : ∃ node, graph.node? id = some node ∧
      other = (graph.withProperty id key value).invalidate id := by
  simp only [setProperty] at h
  split at h
  · cases h
  · next node hn => exact ⟨node, hn, (Except.ok.inj h).symm⟩

theorem adjustment_of_setPosition {id : NodeId} {position : Position}
    (h : graph.setPosition id position = .ok other) : graph.Adjustment other := by
  simp only [setPosition] at h
  split at h
  · cases h
  · next node hn =>
    obtain rfl := Except.ok.inj h
    exact .position hn position

theorem adjustment_of_setPortFlags {p : PortId} {flags : Flags}
    (h : graph.setPortFlags p flags = .ok other) : graph.Adjustment other := by
  simp only [setPortFlags] at h
  split at h
  · cases h
  · next port hp =>
    obtain rfl := Except.ok.inj h
    exact .flags hp flags

theorem Edit.wired (h : graph.Edit other) (hw : graph.Wired) : other.Wired := by
  cases h with
  | insert parent hf _ _ => exact hw.withNode _ hf _ _
  | remove hn => exact ((hw.invalidateAll _).withdraw _).of_nodes rfl rfl (fun _ => rfl)
  | connect ho hl hd =>
      obtain ⟨-, source, destination, hs, hd', hout, hin, -⟩ := orientConnection_eq_ok ho
      exact (hw.join hs hd' hout hin).invalidate _
  | disconnect he hd => exact (hw.dropEdges _).invalidate _
  | link hp ht hd hl => exact (hw.forward hp ht hd).invalidate _
  | unlink hp => exact (hw.unlink _).invalidate _
  | property hn key value => exact (hw.withProperty _ key value).invalidate _
  | position hn position => exact hw.withPosition _ position
  | flags hp flags => exact (hw.withFlags _ flags).invalidate _
  | invalidate id => exact hw.invalidate id
  | move id container =>
      obtain ⟨outline, h⟩ := graph.moveInto_snd id container
      rw [h]
      exact hw.of_nodes rfl rfl (fun _ => rfl)

theorem Edit.acyclic (h : graph.Edit other) (hw : graph.Wired) (ha : graph.Acyclic) :
    other.Acyclic := by
  cases h with
  | insert parent hf _ _ => exact ha.withNode hw _ _ _
  | remove hn => exact ((ha.invalidateAll _).withdraw _).of_nodes rfl rfl (fun _ => rfl)
  | connect ho hl hd =>
      obtain ⟨-, source, destination, hs, hd', -⟩ := orientConnection_eq_ok ho
      rw [← Bool.not_eq_true, hw.closesLoop_iff ⟨_, hs⟩ ⟨_, hd'⟩] at hl
      exact Acyclic.invalidate ((ha.join_iff _ _).mpr hl) _
  | disconnect he hd => exact (ha.dropEdges _).invalidate _
  | link hp ht hd hl =>
      rw [← Bool.not_eq_true, hw.closesLoop_iff ⟨_, ht⟩ ⟨_, hp⟩] at hl
      exact Acyclic.invalidate ((ha.forward_iff hp _).mpr hl) _
  | unlink hp => exact (ha.unlink _).invalidate _
  | property hn key value => exact (ha.withProperty _ key value).invalidate _
  | position hn position => exact ha.withPosition _ position
  | flags hp flags => exact (ha.withFlags _ flags).invalidate _
  | invalidate id => exact ha.invalidate id
  | move id container =>
      obtain ⟨outline, h⟩ := graph.moveInto_snd id container
      rw [h]
      exact ha.of_nodes rfl rfl (fun _ => rfl)

end Dataflow.Graph
