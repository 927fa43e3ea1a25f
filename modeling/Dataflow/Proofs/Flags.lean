import Dataflow.Proofs.Twins

namespace Dataflow

namespace Flags

variable {flags : List Flags} {index : Nat}

theorem getElem?_rdropWhile (hlt : index < (flags.rdropWhile isNone).length) :
    (flags.rdropWhile isNone)[index]? = flags[index]? := by
  rw [List.getElem?_eq_getElem hlt,
    List.prefix_iff_getElem?.mp (List.rdropWhile_prefix isNone flags) index hlt]

-- What is kept of a list of flags ends with the last that are any.
theorem lt_length_rdropWhile_iff : index < (flags.rdropWhile isNone).length ↔
    ∃ later found, index ≤ later ∧ flags[later]? = some found ∧ found ≠ .none := by
  constructor
  · intro hlt
    have hne : flags.rdropWhile isNone ≠ [] := List.ne_nil_of_length_pos (by omega)
    have hlast := List.rdropWhile_last_not isNone flags hne
    refine ⟨(flags.rdropWhile isNone).length - 1, (flags.rdropWhile isNone).getLast hne, by omega,
      ?_, fun heq => hlast (isNone_iff.mpr heq)⟩
    rw [← getElem?_rdropWhile (by omega), List.getLast_eq_getElem, List.getElem?_eq_getElem]
  · rintro ⟨later, found, hle, hlater, hsome⟩
    by_contra hnot
    obtain ⟨count, hflags⟩ := exists_rdropWhile_append flags
    rw [← hflags, List.getElem?_append_right (by omega)] at hlater
    exact hsome (List.eq_of_mem_replicate (List.mem_of_getElem? hlater))

end Flags

namespace Graph

variable {graph other : Graph} {registry : Registry} {settings : Settings}

-- The ports of a node carry the flags listed for them, and those past the end of the list
-- what the template declares.
def Carries (graph : Graph) (node : Node) (saved : SavedNode) (template : Template) : Prop :=
  ∀ direction (index : Nat) p port, (node.side direction)[index]? = some p →
    graph.port? p = some port →
    ∃ spec : PortSpec, (template.side direction)[index]? = some spec ∧
      port.flags = (saved.flags direction)[index]?.getD spec.flags

-- The nodes of a document are there, made by the registry and with the flags listed for
-- them.
def Reflagged (registry : Registry) (done : List SavedNode) (graph : Graph) : Prop :=
  ∀ saved ∈ done, ∃ id node template, graph.node? id = some node ∧ node.uuid = saved.uuid ∧
    registry.create saved.tag saved.properties = .ok template ∧
    graph.Carries node saved template

theorem Carries.congr {node node' : Node} {saved : SavedNode} {template : Template}
    (h : graph.Carries node saved template) (hbare : node'.bare = node.bare)
    (hport : ∀ direction, ∀ p ∈ node.side direction, ∀ port', other.port? p = some port' →
      ∃ port, graph.port? p = some port ∧ port.flags = port'.flags) :
    other.Carries node' saved template := by
  intro direction index p port' hindex hp'
  rw [Node.side_of_bare hbare] at hindex
  obtain ⟨port, hp, heq⟩ := hport direction p (List.mem_of_getElem? hindex) port' hp'
  rw [← heq]
  exact h direction index p port hindex hp

namespace Reflagged

variable {done : List SavedNode}

theorem congr (h : Reflagged registry done graph)
    (hnode : ∀ id, (other.node? id).map Node.bare = (graph.node? id).map Node.bare)
    (hport : ∀ p, (other.port? p).map (·.flags) = (graph.port? p).map (·.flags)) :
    Reflagged registry done other := by
  intro saved hsaved
  obtain ⟨id, node, template, hn, huuid, hcreate, hcarries⟩ := h saved hsaved
  have hbare := hnode id
  rw [hn] at hbare
  obtain ⟨node', hn', hsame⟩ := Option.map_eq_some_iff.mp hbare
  refine ⟨id, node', template, hn', (Node.eq_of_bare Node.uuid (fun _ => rfl) hsame).trans huuid,
    hcreate, hcarries.congr hsame fun _ p _ port' hp' => ?_⟩
  have hflags := hport p
  rw [hp'] at hflags
  exact Option.map_eq_some_iff.mp hflags.symm

theorem alike (h : Reflagged registry done graph) (halike : Alike graph other) :
    Reflagged registry done other :=
  h.congr halike.node (halike.map_port? (·.flags) fun _ => rfl)

theorem make {saved : SavedNode} (hw : graph.Wired) (h : Reflagged registry done graph)
    (hstep : restoreNode registry graph saved = .ok other) :
    Reflagged registry (done ++ [saved]) other := by
  obtain ⟨template, hmade⟩ := made_of_restoreNode hw hstep
  intro earlier hearlier
  rcases List.mem_append.mp hearlier with hearlier | hearlier
  · obtain ⟨id, node, made, hn, huuid, hcreate, hcarries⟩ := h earlier hearlier
    obtain ⟨node', hn', hbare⟩ := hmade.old_node hn
    refine ⟨id, node', made, hn', (Node.eq_of_bare Node.uuid (fun _ => rfl) hbare).trans huuid,
      hcreate, hcarries.congr hbare fun _ p hside port' hp' => ?_⟩
    obtain ⟨port, hp, -⟩ := hw.mem_side_placed hn hside
    rw [hmade.old_port hw hp] at hp'
    exact ⟨port, hp, congrArg Port.flags (Option.some.inj hp')⟩
  · obtain rfl := List.mem_singleton.mp hearlier
    obtain ⟨node, hn, hbare⟩ := hmade.new_node
    refine ⟨graph.nodes.fresh, node, template, hn, Node.eq_of_bare Node.uuid (fun _ => rfl) hbare,
      hmade.created, fun direction index p port hindex hp => ?_⟩
    rw [Node.side_of_bare hbare] at hindex
    have hindex : ((graph.newNode template earlier.uuid).side direction)[index]? = some p := by
      cases direction <;> exact hindex
    rcases graph.getElem?_newNode template earlier.uuid graph.root direction index with
      ⟨hnone, -⟩ | ⟨q, spec, hq, hspec, hcreated⟩
    · rw [hindex] at hnone
      cases hnone
    · obtain rfl := Option.some.inj (hindex.symm.trans hq)
      rw [hmade.port, hcreated] at hp
      rw [← Option.some.inj hp]
      exact ⟨spec, hspec, flags_createdPort earlier _ direction index spec⟩

end Reflagged

-- Only the making of nodes decides flags: what is moved and joined later leaves them alone.
theorem reflagged_of_restore {snapshot : Snapshot}
    (h : restore snapshot registry settings = .ok graph) :
    Reflagged registry snapshot.nodes graph := by
  obtain ⟨filled, hnodes, h⟩ := exists_of_bind_eq_ok h
  obtain ⟨nested, hparents, h⟩ := exists_of_bind_eq_ok h
  obtain ⟨linked, haliases, hedges⟩ := exists_of_bind_eq_ok h
  let P (done : List SavedNode) (g : Graph) : Prop :=
    Edits (Graph.new settings) g ∧ Reflagged registry done g
  have hfilled : P snapshot.nodes filled := by
    refine foldlM_induction (P := P) (fun {done saved rest g next} _ hg hstep => ?_)
      ⟨.refl, fun _ hmem => absurd hmem List.not_mem_nil⟩ hnodes
    exact ⟨hg.1.trans (edits_of_restoreNode hstep), hg.2.make (hg.1.wired (.new settings)) hstep⟩
  have hnested : P snapshot.nodes nested := by
    refine foldlM_induction (P := fun _ => P snapshot.nodes)
      (fun {done saved rest g next} _ hg hstep => ?_) hfilled hparents
    refine ⟨hg.1.trans (edits_of_restoreParent hstep), ?_⟩
    rcases restoreParent_eq_ok hstep with ⟨-, rfl⟩ | ⟨_, container, child, -, -, -, hmove⟩
    · exact hg.2
    · obtain ⟨outline, houtline⟩ := g.moveInto_snd child (some container)
      rw [hmove] at houtline
      dsimp only at houtline
      subst houtline
      exact hg.2.congr (fun _ => rfl) fun _ => rfl
  have hlinked : P snapshot.nodes linked := by
    refine foldlM_induction (P := fun _ => P snapshot.nodes)
      (fun {done saved rest g next} _ hg hstep => ?_) hnested haliases
    refine ⟨hg.1.tail (revision_of_restoreAlias hstep).edit, ?_⟩
    obtain ⟨p, t, port, -, -, -, rfl⟩ := restoreAlias_eq_ok hstep
    exact hg.2.alike (alike_forward g p t port.node)
  have hjoined : P snapshot.nodes graph := by
    refine foldlM_induction (P := fun _ => P snapshot.nodes)
      (fun {done saved rest g next} _ hg hstep => ?_) hlinked hedges
    refine ⟨hg.1.tail (revision_of_restoreEdge hstep).edit, ?_⟩
    obtain ⟨s, d, port, -, -, -, rfl⟩ := restoreEdge_eq_ok (hg.1.wired (.new settings))
      (hg.1.named (.new settings)) hstep
    exact hg.2.alike (alike_join g s d port.node)
  exact hjoined.2

-- A port's flags are written into a document where it, or a port after it at the same end
-- of its node, has any.
def Written (graph : Graph) (direction : Direction) (ref : PortRef) : Prop :=
  ∃ later p port, ref.index ≤ later ∧ graph.portNamed? direction ⟨ref.node, later⟩ = some p ∧
    graph.port? p = some port ∧ port.flags ≠ .none

theorem lt_length_savedFlags_iff (hw : graph.Wired) (hnamed : graph.Named) {id : NodeId}
    {node : Node} (hn : graph.node? id = some node) {direction : Direction} {index : Nat} :
    index < (graph.savedFlags (node.side direction)).length ↔
      graph.Written direction ⟨node.uuid, index⟩ := by
  have hside : ∀ later, graph.portNamed? direction ⟨node.uuid, later⟩ =
      (node.side direction)[later]? := by
    intro later
    rw [portNamed?, hnamed.findByUuid_eq_some_iff.mpr ⟨node, hn, rfl⟩, Option.bind_some,
      portAt?_eq, hn, Option.bind_some]
  rw [savedFlags_eq, Flags.lt_length_rdropWhile_iff]
  constructor
  · rintro ⟨later, found, hle, hlater, hsome⟩
    rw [List.getElem?_map] at hlater
    obtain ⟨p, hp, rfl⟩ := Option.map_eq_some_iff.mp hlater
    obtain ⟨port, hport, -⟩ := hw.side_placed hn hp
    rw [hport] at hsome
    exact ⟨later, p, port, hle, (hside later).trans hp, hport, hsome⟩
  · rintro ⟨later, p, port, hle, hp, hport, hsome⟩
    refine ⟨later, port.flags, hle, ?_, hsome⟩
    rw [List.getElem?_map, ← hside, hp, Option.map_some, hport]
    rfl

-- What is read back from a list of written flags.
theorem getElem?_savedFlags (hw : graph.Wired) (hnamed : graph.Named) {id : NodeId} {node : Node}
    (hn : graph.node? id = some node) {direction : Direction} {index : Nat} {p : PortId}
    {port : Port} (hp : (node.side direction)[index]? = some p) (hport : graph.port? p = some port) :
    (graph.Written direction ⟨node.uuid, index⟩ →
      (graph.savedFlags (node.side direction))[index]? = some port.flags) ∧
    (¬ graph.Written direction ⟨node.uuid, index⟩ →
      (graph.savedFlags (node.side direction))[index]? = none ∧ port.flags = .none) := by
  rw [← lt_length_savedFlags_iff hw hnamed hn, savedFlags_eq]
  have hat : ((node.side direction).map fun p =>
      ((graph.port? p).map (·.flags)).getD .none)[index]? = some port.flags := by
    rw [List.getElem?_map, hp, Option.map_some, hport]
    rfl
  constructor
  · intro hlt
    rw [Flags.getElem?_rdropWhile hlt, hat]
  · intro hnot
    refine ⟨List.getElem?_eq_none (Nat.le_of_not_lt hnot), ?_⟩
    by_contra hsome
    exact hnot (Flags.lt_length_rdropWhile_iff.mpr ⟨index, port.flags, le_rfl, hat, hsome⟩)

theorem exists_side_of_portNamed? (hw : graph.Wired) (hnamed : graph.Named)
    {direction : Direction} {ref : PortRef} {p : PortId} {port : Port}
    (hp : graph.portNamed? direction ref = some p) (hport : graph.port? p = some port) :
    ∃ node, graph.node? port.node = some node ∧ node.uuid = ref.node ∧
      (node.side direction)[ref.index]? = some p := by
  obtain ⟨found, node, hfound, rfl, hn, huuid, hindex⟩ := exists_of_portNamed? hw hnamed hp
  obtain rfl := Option.some.inj (hport.symm.trans hfound)
  refine ⟨node, hn, huuid, ?_⟩
  have hat := hw.owned hport
  rwa [portAt?_eq, hn, Option.bind_some, hindex] at hat

-- A port of a restored graph has the flags of the port under the same reference, where these
-- were written. Where they were not there were none, and the port has what its template
-- declares.
theorem restored_flags_as_written (h : Reachable graph)
    (hrestore : restore graph.save registry settings = .ok other) {direction : Direction}
    {ref : PortRef} {p p' : PortId} {port port' : Port}
    (hp : graph.portNamed? direction ref = some p) (hport : graph.port? p = some port)
    (hp' : other.portNamed? direction ref = some p') (hport' : other.port? p' = some port') :
    ∃ node template spec, graph.node? port.node = some node ∧
      registry.create node.tag node.properties = .ok template ∧
      (template.side direction)[ref.index]? = some spec ∧
      (graph.Written direction ref → port'.flags = port.flags) ∧
      (¬ graph.Written direction ref → port.flags = .none ∧ port'.flags = spec.flags) := by
  have hw := h.healthy.wired
  have hw' := (Reachable.restored hrestore).healthy.wired
  have hnamed' := (Reachable.restored hrestore).named
  obtain ⟨node, hn, huuid, hside⟩ := exists_side_of_portNamed? hw h.named hp hport
  obtain ⟨node', hn', huuid', hside'⟩ := exists_side_of_portNamed? hw' hnamed' hp' hport'
  obtain ⟨saved, hsaved⟩ := exists_saveNode? hn
  obtain ⟨htag, hproperties, hflags⟩ := saveNode?_fields hn hsaved
  obtain ⟨found, hfound, hname, -⟩ := saveNode?_eq_some hsaved
  obtain rfl := Option.some.inj (hn.symm.trans hfound)
  obtain ⟨id, made, template, hmade, hmadeName, hcreate, hcarries⟩ :=
    reflagged_of_restore hrestore saved (mem_save_nodes h.outlined hsaved)
  obtain rfl : id = port'.node := hnamed'.id_eq_of_uuid hmade hn'
    (hmadeName.trans (hname.trans (huuid.trans huuid'.symm)))
  obtain rfl := Option.some.inj (hmade.symm.trans hn')
  obtain ⟨spec, hspec, hcarried⟩ := hcarries direction ref.index p' port' hside' hport'
  obtain ⟨hwritten, hunwritten⟩ := getElem?_savedFlags hw h.named hn hside hport
  rw [huuid] at hwritten hunwritten
  rw [hflags] at hcarried
  rw [htag, hproperties] at hcreate
  refine ⟨node, template, spec, hn, hcreate, hspec, fun hyes => ?_, fun hno => ?_⟩
  · rw [hcarried, hwritten hyes, Option.getD_some]
  · obtain ⟨hnone, hflagless⟩ := hunwritten hno
    exact ⟨hflagless, by rw [hcarried, hnone, Option.getD_none]⟩

end Graph

-- A kind whose nodes flatten what they put out.
def Template.flattener : Template where
  tag := "flattener"
  inputs := [⟨"in", .any, .none, none⟩]
  outputs := [⟨"out", .any, ⟨true, false, false⟩, none⟩]
  units := [⟨0, [0], fun inputs => inputs.get 0⟩]
  properties := .empty

def Registry.flattening : Registry :=
  ⟨[("flattener", ⟨⟨"flattener", "Flattener", "", none, [], []⟩, fun _ => .ok .flattener⟩)]⟩

namespace Graph

def flattening : Graph :=
  (Graph.new .standard).perform (.addNode .flattener ⟨1⟩)

theorem flattening_reachable : Reachable flattening :=
  (Reachable.new .standard).performed _

-- Such a node, told to graft instead, grafts when it is read back.
theorem flattener_grafts_again : ∃ other port',
    restore (flattening.perform (.setPortFlags ⟨2⟩ ⟨false, false, true⟩)).save .flattening
      .standard = .ok other ∧
    other.port? ⟨2⟩ = some port' ∧ port'.flags = ⟨false, false, true⟩ := by
  obtain ⟨node, template, spec, -, -, -, hwritten, -⟩ :=
    @restored_flags_as_written _ _ .flattening .standard
      (flattening_reachable.performed (.setPortFlags ⟨2⟩ ⟨false, false, true⟩)) rfl .output
      ⟨⟨1⟩, 0⟩ ⟨2⟩ ⟨2⟩ _ _ rfl rfl rfl rfl
  exact ⟨_, _, rfl, rfl, hwritten ⟨0, ⟨2⟩, _, le_rfl, rfl, rfl, by decide⟩⟩

-- Told to leave its output as it is, it flattens when it is read back: no flags are written,
-- and none written means those that are declared.
theorem flattener_flattens_again : ∃ other port port',
    Registry.flattening.create "flattener" .empty = .ok .flattener ∧
    Reachable (flattening.perform (.setPortFlags ⟨2⟩ .none)) ∧
    restore (flattening.perform (.setPortFlags ⟨2⟩ .none)).save .flattening .standard = .ok other ∧
    (flattening.perform (.setPortFlags ⟨2⟩ .none)).portNamed? .output ⟨⟨1⟩, 0⟩ = some ⟨2⟩ ∧
    (flattening.perform (.setPortFlags ⟨2⟩ .none)).port? ⟨2⟩ = some port ∧
    other.portNamed? .output ⟨⟨1⟩, 0⟩ = some ⟨2⟩ ∧ other.port? ⟨2⟩ = some port' ∧
    port.flags = .none ∧ port'.flags = ⟨true, false, false⟩ :=
  ⟨_, _, _, rfl, flattening_reachable.performed _, rfl, rfl, rfl, rfl, rfl, rfl, rfl⟩

end Graph

end Dataflow
