import Dataflow.Proofs.Graph.Refs
import Dataflow.Proofs.Reachable

namespace Dataflow

-- A port that takes its flags from a list, if it is at the given end of a node and not
-- before the given index.
def Port.flagged (node : NodeId) (direction : Direction) (start : Nat) (flags : List Flags)
    (port : Port) : Port :=
  if port.node = node ∧ port.direction = direction ∧ start ≤ port.index then
    { port with flags := flags[port.index - start]?.getD port.flags }
  else port

@[simp] theorem Port.node_flagged (node : NodeId) (direction : Direction) (start : Nat)
    (flags : List Flags) (port : Port) :
    (port.flagged node direction start flags).node = port.node := by
  rw [flagged]
  split <;> rfl

@[simp] theorem Port.aliasOf_flagged (node : NodeId) (direction : Direction) (start : Nat)
    (flags : List Flags) (port : Port) :
    (port.flagged node direction start flags).aliasOf = port.aliasOf := by
  rw [flagged]
  split <;> rfl

@[simp] theorem Port.edges_flagged (node : NodeId) (direction : Direction) (start : Nat)
    (flags : List Flags) (port : Port) :
    (port.flagged node direction start flags).edges = port.edges := by
  rw [flagged]
  split <;> rfl

theorem Port.flagged_nil (node : NodeId) (direction : Direction) (start : Nat) (port : Port) :
    port.flagged node direction start [] = port := by
  rw [flagged]
  split <;> rfl

namespace Graph

variable {graph other : Graph}

section Resolve

theorem savedNode_eq_ok_iff {uuid : Uuid} {id : NodeId} :
    graph.savedNode uuid = .ok id ↔ graph.findByUuid uuid = some id := by
  rw [savedNode]
  cases graph.findByUuid uuid <;> simp

theorem savedPort_eq_ok_iff {direction : Direction} {id : NodeId} {ref : PortRef} {p : PortId} :
    graph.savedPort direction id ref = .ok p ↔ graph.portAt? id direction ref.index = some p := by
  rw [savedPort]
  cases graph.portAt? id direction ref.index <;> simp

theorem resolveRef_eq_ok_iff {direction : Direction} {ref : PortRef} {p : PortId} :
    graph.resolveRef direction ref = .ok p ↔ graph.portNamed? direction ref = some p := by
  rw [portNamed?, Option.bind_eq_some_iff]
  constructor
  · intro h
    obtain ⟨id, hid, hp⟩ := exists_of_bind_eq_ok h
    exact ⟨id, savedNode_eq_ok_iff.mp hid, savedPort_eq_ok_iff.mp hp⟩
  · rintro ⟨id, hid, hp⟩
    simp only [resolveRef, savedNode_eq_ok_iff.mpr hid]
    exact savedPort_eq_ok_iff.mpr hp

end Resolve

section Flags

-- Flags restored, and nothing else changed but what is out of date.
structure Flagged (graph : Graph) (node : NodeId) (direction : Direction) (start : Nat)
    (flags : List Flags) (other : Graph) : Prop where
  rest : other.bare = { graph with ports := other.ports }.bare
  port : ∀ p, other.port? p = (graph.port? p).map (Port.flagged node direction start flags)

theorem Flagged.exists_node {node : NodeId} {direction : Direction} {start : Nat}
    {flags : List Flags} (h : Flagged graph node direction start flags other) {id : NodeId}
    {found : Node} (hn : graph.node? id = some found) : ∃ node, other.node? id = some node ∧
      ∀ direction, node.side direction = found.side direction := by
  have hbare := node?_of_bare h.rest id
  have hn : Graph.node? { graph with ports := other.ports } id = some found := hn
  rw [hn] at hbare
  obtain ⟨node, hnode, hsame⟩ := Option.map_eq_some_iff.mp hbare
  exact ⟨node, hnode, Node.side_of_bare hsame⟩

theorem setPortFlags_eq_ok {p : PortId} {flags : Flags}
    (h : graph.setPortFlags p flags = .ok other) : ∃ port, graph.port? p = some port ∧
      other = (graph.withFlags p flags).invalidate port.node := by
  simp only [setPortFlags] at h
  split at h
  · cases h
  · next port hp => exact ⟨port, hp, (Except.ok.inj h).symm⟩

theorem Wired.eq_iff_place (hw : graph.Wired) {id : NodeId} {direction : Direction} {index : Nat}
    {p q : PortId} {port : Port} (hp : graph.portAt? id direction index = some p)
    (hq : graph.port? q = some port) :
    q = p ↔ port.node = id ∧ port.direction = direction ∧ port.index = index := by
  constructor
  · rintro rfl
    obtain ⟨port', hp', hplace⟩ := hw.placed hp
    obtain rfl := Option.some.inj (hq.symm.trans hp')
    exact hplace
  · rintro ⟨rfl, rfl, rfl⟩
    exact Option.some.inj ((hw.owned hq).symm.trans hp)

theorem flagged_of_restoreFlags (hw : graph.Wired) {direction : Direction} {node : NodeId}
    {uuid : Uuid} {start : Nat} {flags : List Flags}
    (h : restoreFlags direction node uuid start flags graph = .ok other) :
    Flagged graph node direction start flags other := by
  induction flags generalizing start graph with
  | nil =>
      obtain rfl := Except.ok.inj h
      refine ⟨rfl, fun p => ?_⟩
      rw [funext (Port.flagged_nil node direction start)]
      exact (Option.map_id' ..).symm
  | cons first rest ih =>
      obtain ⟨p, hat, h⟩ := exists_of_bind_eq_ok h
      obtain ⟨next, hset, h⟩ := exists_of_bind_eq_ok h
      have hat := savedPort_eq_ok_iff.mp hat
      obtain ⟨port, hp, rfl⟩ := setPortFlags_eq_ok (edited_eq_ok hset)
      have hnext := ih ((hw.withFlags p first).invalidate port.node) h
      constructor
      case rest =>
        have hports : ∀ ports, { (graph.withFlags p first).invalidate port.node with
            ports := ports }.bare = { graph with ports := ports }.bare := fun ports =>
          congrArg (fun g : Graph => { g with ports := ports })
            (bare_invalidate (graph.withFlags p first) port.node)
        rw [← hports]
        exact hnext.rest
      case port =>
        intro q
        rw [hnext.port, port?_invalidate, port?_withFlags, Option.map_map]
        cases hq : graph.port? q with
        | none => rfl
        | some found =>
            simp only [Option.map_some, Function.comp, Option.some.injEq]
            have hplace := hw.eq_iff_place hat hq
            by_cases hqp : q = p
            · obtain ⟨hnode, hdirection, hindex⟩ := hplace.mp hqp
              simp [hqp, Port.flagged, hnode, hdirection, hindex]
            · rw [if_neg hqp, Port.flagged, Port.flagged]
              by_cases hend : found.node = node ∧ found.direction = direction
              · have hne : found.index ≠ start := fun heq => hqp (hplace.mpr ⟨hend.1, hend.2, heq⟩)
                by_cases hle : start ≤ found.index
                · have hstep : found.index - start = found.index - (start + 1) + 1 := by omega
                  simp [hend, hle, hstep, show start + 1 ≤ found.index by omega]
                · simp [hle, show ¬ start + 1 ≤ found.index by omega]
              · simp [← and_assoc, hend]

theorem exists_node_withFlags {id : NodeId} {node : Node} (hn : graph.node? id = some node)
    (p : PortId) (flags : Flags) (other : NodeId) :
    ∃ node', ((graph.withFlags p flags).invalidate other).node? id = some node' ∧
      ∀ direction, node'.side direction = node.side direction := by
  have hn : (graph.withFlags p flags).node? id = some node := hn
  rw [node?_invalidate, hn]
  refine ⟨_, rfl, fun direction => ?_⟩
  split <;> cases direction <;> rfl

-- There are no more flags to restore than there are ports.
theorem length_of_restoreFlags {direction : Direction} {id : NodeId} {node : Node}
    (hn : graph.node? id = some node) {uuid : Uuid} {start : Nat} {flags : List Flags}
    (h : restoreFlags direction id uuid start flags graph = .ok other) :
    flags = [] ∨ start + flags.length ≤ (node.side direction).length := by
  induction flags generalizing start graph node with
  | nil => exact .inl rfl
  | cons first rest ih =>
      obtain ⟨p, hat, h⟩ := exists_of_bind_eq_ok h
      obtain ⟨next, hset, h⟩ := exists_of_bind_eq_ok h
      obtain ⟨port, hp, rfl⟩ := setPortFlags_eq_ok (edited_eq_ok hset)
      have hat := savedPort_eq_ok_iff.mp hat
      rw [portAt?_eq, hn, Option.bind_some] at hat
      have hlt := (List.getElem?_eq_some_iff.mp hat).1
      obtain ⟨node', hnode, hsame⟩ := exists_node_withFlags hn p first port.node
      rw [List.length_cons]
      rcases ih hnode h with rfl | hle
      · right
        exact hlt
      · rw [hsame] at hle
        right
        omega

theorem exists_restoreFlags (hw : graph.Wired) {direction : Direction} {id : NodeId} {node : Node}
    (hn : graph.node? id = some node) (uuid : Uuid) {start : Nat} {flags : List Flags}
    (hlength : start + flags.length ≤ (node.side direction).length) :
    ∃ other, restoreFlags direction id uuid start flags graph = .ok other := by
  induction flags generalizing start graph node with
  | nil => exact ⟨graph, rfl⟩
  | cons first rest ih =>
      rw [List.length_cons] at hlength
      have hlt : start < (node.side direction).length := by omega
      have hside := List.getElem?_eq_getElem hlt
      obtain ⟨port, hport, -⟩ := hw.side_placed hn hside
      have hat : graph.savedPort direction id ⟨uuid, start⟩ =
          .ok (node.side direction)[start] :=
        savedPort_eq_ok_iff.mpr (by rw [portAt?_eq, hn]; exact hside)
      have hset : graph.setPortFlags (node.side direction)[start] first =
          .ok ((graph.withFlags (node.side direction)[start] first).invalidate port.node) := by
        rw [setPortFlags, hport]
      obtain ⟨node', hnode, hsame⟩ :=
        exists_node_withFlags hn (node.side direction)[start] first port.node
      have hrest : start + 1 + rest.length ≤ (node.side direction).length := by omega
      rw [← hsame] at hrest
      obtain ⟨other, hother⟩ := ih ((hw.withFlags _ first).invalidate port.node) hnode hrest
      refine ⟨other, ?_⟩
      rw [restoreFlags, hat]
      show (edited (graph.setPortFlags _ first) >>= _) = _
      rw [hset]
      exact hother

end Flags

section Nodes

-- A node of a document made at the end of the top of the outline.
structure Made (registry : Registry) (graph : Graph) (saved : SavedNode) (template : Template)
    (other : Graph) : Prop where
  created : registry.create saved.tag saved.properties = .ok template
  sound : template.fault? = none
  unused : graph.findByUuid saved.uuid = none
  inputs : saved.inputFlags.length ≤ template.inputs.length
  outputs : saved.outputFlags.length ≤ template.outputs.length
  rest : other.bare = { (graph.withNode template saved.uuid graph.root).withPosition
    graph.nodes.fresh saved.position with ports := other.ports }.bare
  port : ∀ p, other.port? p = ((graph.withNode template saved.uuid graph.root).port? p).map
    fun port => (port.flagged graph.nodes.fresh .input 0 saved.inputFlags).flagged
      graph.nodes.fresh .output 0 saved.outputFlags

theorem createSaved_eq_ok_iff {registry : Registry} {saved : SavedNode} {template : Template} :
    createSaved registry saved = .ok template ↔
      registry.create saved.tag saved.properties = .ok template := by
  rw [createSaved]
  split
  · next made h => simp [h]
  · next tag h => simp [h]
  · next e _ h => simp [h]

theorem setPosition_eq_ok {id : NodeId} {position : Position}
    (h : graph.setPosition id position = .ok other) : other = graph.withPosition id position := by
  simp only [setPosition] at h
  split at h
  · cases h
  · exact (Except.ok.inj h).symm

theorem node?_placed (graph : Graph) (template : Template) (uuid : Uuid) (position : Position) :
    ((graph.withNode template uuid graph.root).withPosition graph.nodes.fresh position).node?
      graph.nodes.fresh = some { graph.newNode template uuid with position := position } := by
  rw [node?_withPosition, node?_withNode, if_pos rfl, Option.map_some, if_pos rfl]

theorem made_of_restoreNode (hw : graph.Wired) {registry : Registry} {saved : SavedNode}
    (h : restoreNode registry graph saved = .ok other) :
    ∃ template, Made registry graph saved template other := by
  simp only [Graph.restoreNode] at h
  split at h
  · cases h
  obtain ⟨template, hcreate, h⟩ := exists_of_bind_eq_ok h
  obtain ⟨⟨id, added⟩, hadd, h⟩ := exists_of_bind_eq_ok h
  obtain ⟨placed, hplace, h⟩ := exists_of_bind_eq_ok h
  obtain ⟨flagged, hinputs, houtputs⟩ := exists_of_bind_eq_ok h
  obtain ⟨hsound, hunused, hid, hadded⟩ := insertNode_eq_ok (edited_eq_ok hadd)
  dsimp only at hid hadded hplace hinputs houtputs
  subst hid hadded
  obtain rfl := setPosition_eq_ok (edited_eq_ok hplace)
  have hwired := (hw.withNode template hsound saved.uuid graph.root).withPosition
    graph.nodes.fresh saved.position
  have hfirst := flagged_of_restoreFlags hwired hinputs
  have hsecond := flagged_of_restoreFlags ((edits_of_restoreFlags hinputs).wired hwired) houtputs
  have hplaced := node?_placed graph template saved.uuid saved.position
  obtain ⟨node, hnode, hside⟩ := hfirst.exists_node hplaced
  refine ⟨template, createSaved_eq_ok_iff.mp hcreate, hsound, hunused, ?_, ?_, ?_, fun p => ?_⟩
  · rcases length_of_restoreFlags hplaced hinputs with hnil | hle
    · simp [hnil]
    · simpa [Node.side, newNode, newInputs] using hle
  · rcases length_of_restoreFlags hnode houtputs with hnil | hle
    · simp [hnil]
    · rw [hside] at hle
      simpa [Node.side, newNode, newOutputs] using hle
  · have hports := congrArg (fun g : Graph => { g with ports := other.ports }) hfirst.rest
    exact hsecond.rest.trans hports
  · rw [hsecond.port, hfirst.port, Option.map_map]
    rfl

theorem exists_restoreNode (hw : graph.Wired) {registry : Registry} {saved : SavedNode}
    {template : Template} (hcreate : registry.create saved.tag saved.properties = .ok template)
    (hsound : template.fault? = none) (hunused : graph.findByUuid saved.uuid = none)
    (hinputs : saved.inputFlags.length ≤ template.inputs.length)
    (houtputs : saved.outputFlags.length ≤ template.outputs.length) :
    ∃ other, restoreNode registry graph saved = .ok other := by
  have hadd : graph.addNode template saved.uuid =
      .ok (graph.nodes.fresh, graph.withNode template saved.uuid graph.root) := by
    rw [addNode, insertNode, hsound]
    simp only [hunused, Option.isSome_none, Bool.false_eq_true, if_false]
  have hplace : (graph.withNode template saved.uuid graph.root).setPosition graph.nodes.fresh
      saved.position = .ok ((graph.withNode template saved.uuid graph.root).withPosition
        graph.nodes.fresh saved.position) := by
    rw [setPosition, node?_withNode_fresh]
  have hwired := (hw.withNode template hsound saved.uuid graph.root).withPosition
    graph.nodes.fresh saved.position
  have hplaced := node?_placed graph template saved.uuid saved.position
  have hfirst : 0 + saved.inputFlags.length ≤
      ({ graph.newNode template saved.uuid with position := saved.position }.side
        .input).length := by
    simpa [Node.side, newNode, newInputs] using hinputs
  obtain ⟨flagged, hflagged⟩ := exists_restoreFlags hwired hplaced saved.uuid hfirst
  obtain ⟨node, hnode, hside⟩ := (flagged_of_restoreFlags hwired hflagged).exists_node hplaced
  have hsecond : 0 + saved.outputFlags.length ≤ (node.side .output).length := by
    rw [hside]
    simpa [Node.side, newNode, newOutputs] using houtputs
  obtain ⟨other, hother⟩ := exists_restoreFlags
    ((edits_of_restoreFlags hflagged).wired hwired) hnode saved.uuid hsecond
  refine ⟨other, ?_⟩
  rw [Graph.restoreNode, hunused, createSaved_eq_ok_iff.mpr hcreate]
  show (edited (graph.addNode template saved.uuid) >>= _) = _
  rw [hadd]
  show (edited (setPosition _ graph.nodes.fresh saved.position) >>= _) = _
  rw [hplace]
  show (restoreFlags .input _ _ 0 _ _ >>= _) = _
  rw [hflagged]
  exact hother

end Nodes

section Parents

theorem moveInto_eq_ok (ho : graph.Outlined) {id container : NodeId}
    (h : graph.moveInto id (some container) = (.ok (), other)) : ∃ node holder loose,
      graph.node? id = some node ∧ graph.node? container = some holder ∧
      Forest.Detached graph.outline node.item loose ∧
      Forest.Attached loose holder.item node.item other.outline ∧
      other = { graph with outline := other.outline } := by
  simp only [moveInto] at h
  split at h
  · cases h
  · cases h
  · next node parent hn hcontainer =>
    obtain ⟨holder, hholder, rfl⟩ := Option.map_eq_some_iff.mp hcontainer
    split at h
    · next outline happend =>
      obtain ⟨-, rfl⟩ := Prod.mk.inj h
      exact ⟨node, holder, _, hn, hholder, ho.tidy.detached node.item,
        (Forest.appendChild?_eq_some happend).2.2, rfl⟩
    · cases h

theorem restoreParent_eq_ok {saved : SavedNode} (h : restoreParent graph saved = .ok other) :
    saved.parent = none ∧ other = graph ∨ ∃ parent container child,
      saved.parent = some parent ∧ graph.findByUuid parent = some container ∧
      graph.findByUuid saved.uuid = some child ∧
      graph.moveInto child (some container) = (.ok (), other) := by
  simp only [Graph.restoreParent] at h
  split at h
  · next hnone => exact .inl ⟨hnone, (Except.ok.inj h).symm⟩
  · next parent hparent =>
    obtain ⟨container, hcontainer, h⟩ := exists_of_bind_eq_ok h
    obtain ⟨child, hchild, h⟩ := exists_of_bind_eq_ok h
    obtain ⟨⟨⟩, hmoved, h⟩ := exists_of_bind_eq_ok h
    exact .inr ⟨parent, container, child, hparent, savedNode_eq_ok_iff.mp hcontainer,
      savedNode_eq_ok_iff.mp hchild, Prod.ext (edited_eq_ok hmoved) (Except.ok.inj h)⟩

theorem exists_restoreParent (ho : graph.Outlined) {saved : SavedNode} {parent : Uuid}
    (hparent : saved.parent = some parent) {container child : NodeId} {holder node : Node}
    (hcontainer : graph.findByUuid parent = some container)
    (hholder : graph.node? container = some holder)
    (hchild : graph.findByUuid saved.uuid = some child) (hn : graph.node? child = some node)
    (hup : ¬ Relation.ReflTransGen graph.outline.Under holder.item node.item) :
    ∃ other, restoreParent graph saved = .ok other := by
  have hitem : graph.containerItem? (some container) = some holder.item := by
    rw [containerItem?, hholder]
    rfl
  obtain ⟨result, above, loose, outline, hmove, -, -, -, -, hfits, -⟩ :=
    ho.moveInto_eq hn hitem
  obtain ⟨rfl, -⟩ := hfits hup
  refine ⟨{ graph with outline := outline }, ?_⟩
  rw [Graph.restoreParent, hparent]
  show (graph.savedNode parent >>= _) = _
  rw [savedNode_eq_ok_iff.mpr hcontainer]
  show (graph.savedNode saved.uuid >>= _) = _
  rw [savedNode_eq_ok_iff.mpr hchild]
  show (edited (graph.moveInto child (some container)).1 >>= _) = _
  rw [hmove]
  show Except.ok (graph.moveInto child (some container)).2 = _
  rw [hmove]

end Parents

section Links

theorem restoreAlias_eq_ok {saved : SavedAlias} (h : restoreAlias graph saved = .ok other) :
    ∃ p t port, graph.portNamed? saved.direction saved.port = some p ∧
      graph.portNamed? saved.direction saved.target = some t ∧ graph.port? p = some port ∧
      other = (graph.forward p t).invalidate port.node := by
  obtain ⟨p, hp, h⟩ := exists_of_bind_eq_ok h
  obtain ⟨t, ht, h⟩ := exists_of_bind_eq_ok h
  have h := edited_eq_ok h
  simp only [linkAlias] at h
  split at h
  · cases h
  · cases h
  · next port target hport htarget =>
    split_ifs at h
    exact ⟨p, t, port, resolveRef_eq_ok_iff.mp hp, resolveRef_eq_ok_iff.mp ht, hport,
      (Except.ok.inj h).symm⟩

theorem exists_restoreAlias (hw : graph.Wired) (hn : graph.Named) {saved : SavedAlias}
    {p t : PortId} (hp : graph.portNamed? saved.direction saved.port = some p)
    (ht : graph.portNamed? saved.direction saved.target = some t)
    (hloop : graph.closesLoop t p = false) : ∃ other, restoreAlias graph saved = .ok other := by
  obtain ⟨port, hport, hd, -⟩ := (hn.portNamed?_eq_some_iff hw).mp hp
  obtain ⟨target, htarget, hd', -⟩ := (hn.portNamed?_eq_some_iff hw).mp ht
  refine ⟨(graph.forward p t).invalidate port.node, ?_⟩
  rw [Graph.restoreAlias, resolveRef_eq_ok_iff.mpr hp]
  show (graph.resolveRef saved.direction saved.target >>= _) = _
  rw [resolveRef_eq_ok_iff.mpr ht]
  show edited (graph.linkAlias p t) = _
  rw [linkAlias, hport, htarget]
  simp only [hd.trans hd'.symm, ne_eq, not_true_eq_false, if_false, hloop, Bool.false_eq_true]
  rfl

theorem restoreEdge_eq_ok (hw : graph.Wired) (hn : graph.Named) {saved : SavedEdge}
    (h : restoreEdge graph saved = .ok other) : ∃ s d port,
      graph.portNamed? .output saved.source = some s ∧
      graph.portNamed? .input saved.destination = some d ∧ graph.port? d = some port ∧
      other = (graph.join s d).invalidate port.node := by
  obtain ⟨s, hs, h⟩ := exists_of_bind_eq_ok h
  obtain ⟨d, hd, h⟩ := exists_of_bind_eq_ok h
  have hs := resolveRef_eq_ok_iff.mp hs
  have hd := resolveRef_eq_ok_iff.mp hd
  obtain ⟨source, hsource, hout, -⟩ := (hn.portNamed?_eq_some_iff hw).mp hs
  split at h
  · next e joined hadd =>
    obtain rfl := Except.ok.inj h
    obtain ⟨s', d', port, horient, -, hport, rfl⟩ := exists_join_of_addEdge hadd
    obtain ⟨hends, -, found, -, hfound, -, hin, -⟩ := orientConnection_eq_ok horient
    rcases hends with ⟨rfl, rfl⟩ | ⟨rfl, rfl⟩
    · exact ⟨_, _, port, hs, hd, hport, rfl⟩
    · rw [Option.some.inj (hfound.symm.trans hsource), hout] at hin
      cases hin
  · cases h

theorem exists_restoreEdge {saved : SavedEdge} {s d : PortId}
    (hs : graph.portNamed? .output saved.source = some s)
    (hd : graph.portNamed? .input saved.destination = some d)
    (horient : graph.orientConnection s d = .ok (s, d)) (hloop : graph.closesLoop s d = false) :
    ∃ other, restoreEdge graph saved = .ok other := by
  obtain ⟨-, source, destination, -, hdestination, -⟩ := orientConnection_eq_ok horient
  refine ⟨(graph.join s d).invalidate destination.node, ?_⟩
  rw [Graph.restoreEdge, resolveRef_eq_ok_iff.mpr hs]
  show (graph.resolveRef .input saved.destination >>= _) = _
  rw [resolveRef_eq_ok_iff.mpr hd]
  have hadd : graph.addEdge s d =
      .ok (graph.edges.fresh, (graph.join s d).invalidate destination.node) := by
    rw [addEdge, checkConnection, horient]
    simp only [hloop, hdestination, Bool.false_eq_true, if_false]
  simp only [bind, Except.bind, hadd]
  rfl

end Links

end Graph

end Dataflow
