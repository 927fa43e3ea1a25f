import Dataflow.Proofs.Restore.Linked

namespace Dataflow

namespace Graph

open Relation

variable {graph base other : Graph}

section Names

-- The node of the first name stands inside that of the second.
def Above (graph : Graph) (a b : Uuid) : Prop :=
  ∃ id node id' holder, graph.node? id = some node ∧ graph.node? id' = some holder ∧
    node.uuid = a ∧ holder.uuid = b ∧ TransGen graph.outline.Under node.item holder.item

theorem Above.trans (hn : graph.Named) {a b c : Uuid} (h : graph.Above a b)
    (h' : graph.Above b c) : graph.Above a c := by
  obtain ⟨id, node, mid, inner, hnode, hinner, rfl, hb, hup⟩ := h
  obtain ⟨mid', outer, id', holder, houter, hholder, hb', rfl, hup'⟩ := h'
  obtain rfl := hn.id_eq_of_uuid hinner houter (hb.trans hb'.symm)
  obtain rfl := Option.some.inj (hinner.symm.trans houter)
  exact ⟨id, node, id', holder, hnode, hholder, rfl, rfl, hup.trans hup'⟩

theorem Above.under (hn : graph.Named) {a b : NodeId} {node holder : Node}
    (ha : graph.node? a = some node) (hb : graph.node? b = some holder)
    (h : graph.Above node.uuid holder.uuid) :
    TransGen graph.outline.Under node.item holder.item := by
  obtain ⟨id, node', id', holder', hnode, hholder, huuid, huuid', hup⟩ := h
  obtain rfl := hn.id_eq_of_uuid hnode ha huuid
  obtain rfl := hn.id_eq_of_uuid hholder hb huuid'
  rwa [Option.some.inj (ha.symm.trans hnode), Option.some.inj (hb.symm.trans hholder)]

theorem Above.irrefl (hn : graph.Named) (ho : graph.Outlined) (a : Uuid) : ¬ graph.Above a a := by
  rintro ⟨id, node, id', holder, hnode, hholder, rfl, huuid, hup⟩
  obtain rfl := hn.id_eq_of_uuid hholder hnode huuid
  rw [Option.some.inj (hholder.symm.trans hnode)] at hup
  exact ho.tidy.irrefl _ hup

-- What a document of a graph says of nesting is so in the graph.
theorem above_of_within (ho : graph.Outlined) {a b : Uuid} (h : Within graph.save.nodes a b) :
    graph.Above a b := by
  obtain ⟨saved, hsaved, rfl, hparent⟩ := h
  obtain ⟨id, -, hsaved⟩ := List.mem_filterMap.mp hsaved
  obtain ⟨node, hnode, huuid, hsame⟩ := saveNode?_eq_some hsaved
  rw [hparent] at hsame
  obtain ⟨item, hitem, hname⟩ := Option.bind_eq_some_iff.mp hsame.symm
  obtain ⟨id', holder, hholder, rfl, rfl⟩ := ho.nameAt?_eq_some_iff.mp hname
  exact ⟨id, node, id', holder, hnode, hholder, huuid.symm, rfl, .single hitem⟩

theorem above_of_transGen_within (hn : graph.Named) (ho : graph.Outlined) {a b : Uuid}
    (h : TransGen (Within graph.save.nodes) a b) : graph.Above a b := by
  induction h with
  | single h => exact above_of_within ho h
  | tail _ h ih => exact ih.trans hn (above_of_within ho h)

theorem exists_of_portNamed? (hw : graph.Wired) (hn : graph.Named) {direction : Direction}
    {ref : PortRef} {p : PortId} (h : graph.portNamed? direction ref = some p) :
    ∃ port node, graph.port? p = some port ∧ port.direction = direction ∧
      graph.node? port.node = some node ∧ node.uuid = ref.node ∧ port.index = ref.index := by
  obtain ⟨port, hp, hd, href⟩ := (hn.portNamed?_eq_some_iff hw).mp h
  obtain ⟨port', node, hp', hnode, rfl⟩ := portRef?_eq_some_iff.mp href
  obtain rfl := Option.some.inj (hp.symm.trans hp')
  exact ⟨port, node, hp, hd, hnode, rfl, rfl⟩

theorem portNamed?_source (hw : graph.Wired) (hn : graph.Named) {e : EdgeId} {edge : Edge}
    {ref : PortRef} (he : graph.edge? e = some edge)
    (href : graph.portRef? edge.source = some ref) :
    graph.portNamed? .output ref = some edge.source := by
  obtain ⟨port, hp, hd, -⟩ := hw.source he
  exact (hn.portNamed?_eq_some_iff hw).mpr ⟨port, hp, hd, href⟩

theorem portNamed?_destination (hw : graph.Wired) (hn : graph.Named) {e : EdgeId} {edge : Edge}
    {ref : PortRef} (he : graph.edge? e = some edge)
    (href : graph.portRef? edge.destination = some ref) :
    graph.portNamed? .input ref = some edge.destination := by
  obtain ⟨port, hp, hd, -⟩ := hw.destination he
  exact (hn.portNamed?_eq_some_iff hw).mpr ⟨port, hp, hd, href⟩

theorem portNamed?_target (hw : graph.Wired) (hn : graph.Named) {p t : PortId} {port : Port}
    {ref : PortRef} (hp : graph.port? p = some port) (ht : port.aliasOf = some t)
    (href : graph.portRef? t = some ref) : graph.portNamed? port.direction ref = some t := by
  obtain ⟨target, htarget, hd⟩ := hw.target hp ht
  exact (hn.portNamed?_eq_some_iff hw).mpr ⟨target, htarget, hd, href⟩

-- No edge leads from an output to an input that it does not feed.
theorem any_destination_eq_false (hw : graph.Wired) (hn : graph.Named)
    {source destination : PortRef} {s d : PortId} {port : Port}
    (hs : graph.portNamed? .output source = some s)
    (hd : graph.portNamed? .input destination = some d) (hport : graph.port? s = some port)
    (hnew : source ∉ graph.feeders destination) :
    ((port.edges.filterMap graph.edge?).any fun edge => edge.destination = d) = false := by
  rw [List.any_eq_false]
  intro edge hedge hends
  obtain ⟨e, he, hedge⟩ := List.mem_filterMap.mp hedge
  have hsource : edge.source = s := by
    obtain ⟨found, hfound, hends⟩ := hw.incident hport he
    obtain rfl := Option.some.inj (hedge.symm.trans hfound)
    refine hends.resolve_right fun heq => ?_
    obtain ⟨port', hport', hin, -⟩ := hw.destination hedge
    obtain ⟨found, hfound, hout, -⟩ := (hn.portNamed?_eq_some_iff hw).mp hs
    rw [heq, hfound] at hport'
    rw [Option.some.inj hport', hin] at hout
    cases hout
  refine hnew ((mem_feeders_iff hw hn).mpr ⟨e, edge, hedge, ?_, ?_⟩)
  · rw [hsource]
    exact portRef?_of_named hw hn hs
  · rw [of_decide_eq_true hends]
    exact portRef?_of_named hw hn hd

end Names

section Twins

-- Nodes of two graphs that go by one name, compute the same and have ports that look the
-- same.
structure Peer (graph other : Graph) (node node' : Node) : Prop where
  uuid : node'.uuid = node.uuid
  units : node'.units = node.units
  looks : ∀ direction, (node'.side direction).map (fun p => (other.port? p).map (·.look)) =
    (node.side direction).map fun p => (graph.port? p).map (·.look)

theorem Peer.symm {node node' : Node} (h : Peer graph other node node') :
    Peer other graph node' node :=
  ⟨h.uuid.symm, h.units.symm, fun direction => (h.looks direction).symm⟩

theorem Peer.exists_side {node node' : Node} (h : Peer graph other node node')
    {direction : Direction} {index : Nat} {p : PortId}
    (hp : (node.side direction)[index]? = some p) :
    ∃ q, (node'.side direction)[index]? = some q ∧
      (other.port? q).map (·.look) = (graph.port? p).map (·.look) := by
  have hlooks := congrArg (·[index]?) (h.looks direction)
  simp only [List.getElem?_map, hp, Option.map_some] at hlooks
  exact Option.map_eq_some_iff.mp hlooks

-- Ports of two graphs under one reference.
def Twin (graph other : Graph) (p q : PortId) : Prop :=
  ∃ direction ref, graph.portNamed? direction ref = some p ∧ other.portNamed? direction ref = some q

theorem Twin.left_unique (hw : other.Wired) (hn : other.Named) {p p' q : PortId}
    (h : Twin graph other p q) (h' : Twin graph other p' q) : p = p' := by
  obtain ⟨direction, ref, hp, hq⟩ := h
  obtain ⟨direction', ref', hp', hq'⟩ := h'
  obtain ⟨port, hport, rfl, href⟩ := (hn.portNamed?_eq_some_iff hw).mp hq
  obtain ⟨port', hport', rfl, href'⟩ := (hn.portNamed?_eq_some_iff hw).mp hq'
  obtain rfl := Option.some.inj (hport.symm.trans hport')
  obtain rfl := Option.some.inj (href.symm.trans href')
  exact Option.some.inj (hp.symm.trans hp')

theorem Peer.exists_twin (hn : graph.Named) (hn' : other.Named) {id id' : NodeId}
    {node node' : Node} (h : Peer graph other node node') (hnode : graph.node? id = some node)
    (hnode' : other.node? id' = some node') (direction : Direction) {q : PortId}
    (hq : q ∈ node'.side direction) : ∃ p ∈ node.side direction, Twin graph other p q := by
  obtain ⟨index, hindex⟩ := List.mem_iff_getElem?.mp hq
  obtain ⟨p, hp, -⟩ := h.symm.exists_side hindex
  refine ⟨p, List.mem_of_getElem? hp, direction, ⟨node.uuid, index⟩, ?_, ?_⟩
  · rw [portNamed?, hn.findByUuid_eq_some_iff.mpr ⟨node, hnode, rfl⟩, Option.bind_some, portAt?_eq,
      hnode]
    exact hp
  · rw [portNamed?, hn'.findByUuid_eq_some_iff.mpr ⟨node', hnode', h.uuid⟩, Option.bind_some,
      portAt?_eq, hnode']
    exact hindex

end Twins

-- A graph on its way to be another one: it has the same nodes, and no nesting, no alias
-- and no edge that the other has not.
structure Replica (graph other : Graph) : Prop where
  settings : other.settings = graph.settings
  forth : ∀ {id node}, graph.node? id = some node →
    ∃ id' node', other.node? id' = some node' ∧ Peer graph other node node'
  back : ∀ {id' node'}, other.node? id' = some node' →
    ∃ id node, graph.node? id = some node ∧ Peer graph other node node'
  above : ∀ {a b}, other.Above a b → graph.Above a b
  standIns : ∀ {direction ref target}, other.standIn? direction ref = some target →
    graph.standIn? direction ref = some target
  feeders : ∀ {source destination}, source ∈ other.feeders destination →
    source ∈ graph.feeders destination

namespace Replica

section Arcs

variable (hw : graph.Wired) (hn : graph.Named) (hw' : other.Wired) (hn' : other.Named)

include hw hn hw' hn'

-- The port under the same reference looks the same, and has a node of the same name.
theorem exists_port (hr : Replica graph other) {direction : Direction} {ref : PortRef} {p : PortId}
    {port : Port} {node : Node} (h : graph.portNamed? direction ref = some p)
    (hp : graph.port? p = some port) (hnode : graph.node? port.node = some node) :
    ∃ q port' node', other.portNamed? direction ref = some q ∧ other.port? q = some port' ∧
      port'.direction = direction ∧ port'.look = port.look ∧
      other.node? port'.node = some node' ∧ node'.uuid = node.uuid := by
  obtain ⟨found, holder, hfound, rfl, hholder, huuid, hindex⟩ := exists_of_portNamed? hw hn h
  obtain rfl := Option.some.inj (hp.symm.trans hfound)
  obtain rfl := Option.some.inj (hnode.symm.trans hholder)
  obtain ⟨id', node', hnode', hpeer⟩ := hr.forth hnode
  have hat := hw.owned hp
  rw [portAt?_eq, hnode, Option.bind_some, hindex] at hat
  obtain ⟨q, hq, hlook⟩ := hpeer.exists_side hat
  obtain ⟨port', hport', rfl, hd, -⟩ := hw'.side_placed hnode' hq
  rw [hp, hport', Option.map_some, Option.map_some] at hlook
  refine ⟨q, port', node', ?_, hport', hd, Option.some.inj hlook, hnode', hpeer.uuid⟩
  rw [portNamed?, hn'.findByUuid_eq_some_iff.mpr ⟨node', hnode', hpeer.uuid.trans huuid⟩,
    Option.bind_some, portAt?_eq, hnode']
  exact hq

-- A dependency in the replica is one in the other graph.
theorem arc (hr : Replica graph other) {a b : PortId} (h : other.Arc a b) :
    ∃ a' b', Twin graph other a' a ∧ Twin graph other b' b ∧ graph.Arc a' b' := by
  cases h with
  | through hnode' hu hi ho =>
      obtain ⟨id, node, hnode, hpeer⟩ := hr.back hnode'
      obtain ⟨a', ha, htwin⟩ := hpeer.exists_twin hn hn' hnode hnode' .input hi
      obtain ⟨b', hb, htwin'⟩ := hpeer.exists_twin hn hn' hnode hnode' .output ho
      exact ⟨a', b', htwin, htwin', .through hnode (hpeer.units ▸ hu) ha hb⟩
  | along he =>
      obtain ⟨source, destination, hs, hd, -⟩ := exists_saveEdge? hw' he
      obtain ⟨e', edge, hedge, hs', hd'⟩ := (mem_feeders_iff hw hn).mp
        (hr.feeders ((mem_feeders_iff hw' hn').mpr ⟨_, _, he, hs, hd⟩))
      exact ⟨edge.source, edge.destination,
        ⟨.output, source, portNamed?_source hw hn hedge hs', portNamed?_source hw' hn' he hs⟩,
        ⟨.input, destination, portNamed?_destination hw hn hedge hd',
          portNamed?_destination hw' hn' he hd⟩, .along hedge⟩
  | forwards hp ht =>
      obtain ⟨own, hown, -⟩ := hw'.exists_portRef hp
      obtain ⟨found, htarget, -⟩ := hw'.target hp ht
      obtain ⟨target, href, -⟩ := hw'.exists_portRef htarget
      obtain ⟨p, port, t, hport, hd, hown', ht', href'⟩ := (standIn?_eq_some_iff hw hn).mp
        (hr.standIns ((standIn?_eq_some_iff hw' hn').mpr ⟨_, _, _, hp, rfl, hown, ht, href⟩))
      refine ⟨t, p, ⟨port.direction, target, portNamed?_target hw hn hport ht' href', ?_⟩,
        ⟨port.direction, own, (hn.portNamed?_eq_some_iff hw).mpr ⟨port, hport, rfl, hown'⟩, ?_⟩,
        .forwards hport ht'⟩
      · exact hd ▸ portNamed?_target hw' hn' hp ht href
      · exact (hn'.portNamed?_eq_some_iff hw').mpr ⟨_, hp, hd.symm, hown⟩

theorem path (hr : Replica graph other) {a b a' : PortId} (h : ReflTransGen other.Arc a b)
    (ha : Twin graph other a' a) :
    ∃ b', Twin graph other b' b ∧ ReflTransGen graph.Arc a' b' := by
  induction h with
  | refl => exact ⟨a', ha, .refl⟩
  | tail _ harc ih =>
      obtain ⟨b', hb, hpath⟩ := ih
      obtain ⟨b'', c', hb', hc, harc⟩ := hr.arc hw hn hw' hn' harc
      obtain rfl := hb.left_unique hw' hn' hb'
      exact ⟨c', hc, hpath.tail harc⟩

-- So what depends on nothing in a circle there does not here.
theorem closesLoop_eq_false (hr : Replica graph other) (hacyclic : graph.Acyclic)
    {s t s' t' : PortId} (harc : graph.Arc s t) (hs : Twin graph other s s')
    (ht : Twin graph other t t') : other.closesLoop s' t' = false := by
  have hlive : ∀ {p p'}, Twin graph other p p' → ∃ port, other.port? p' = some port := by
    rintro p p' ⟨direction, ref, -, hp⟩
    obtain ⟨port, -, hport, -⟩ := exists_of_portNamed? hw' hn' hp
    exact ⟨port, hport⟩
  rw [← Bool.not_eq_true, hw'.closesLoop_iff (hlive hs) (hlive ht)]
  intro hback
  obtain ⟨s'', hs'', hpath⟩ := hr.path hw hn hw' hn' hback ht
  obtain rfl := hs.left_unique hw' hn' hs''
  exact hacyclic s (.head' harc hpath)

end Arcs

section Steps

-- Aliases and edges of the other graph may be added.
theorem linked (hw : graph.Wired) (hn : graph.Named) (ho : graph.Outlined)
    (hr : Replica graph base) {aliases : List SavedAlias} {edges : List SavedEdge}
    (hl : Linked base aliases edges other)
    (haliases : ∀ saved ∈ aliases, saved ∈ graph.save.aliases)
    (hedges : ∀ saved ∈ edges, saved ∈ graph.save.edges) : Replica graph other := by
  have hpeer : ∀ {id' node node' node''}, base.node? id' = some node' →
      other.node? id' = some node'' → Peer graph base node node' →
      Peer graph other node node'' := by
    intro id' node node' node'' hnode' hnode'' hpeer
    obtain ⟨found, hfound, hbare⟩ := hl.alike.exists_node hnode'
    obtain rfl := Option.some.inj (hnode''.symm.trans hfound)
    refine ⟨(Node.eq_of_bare Node.uuid (fun _ => rfl) hbare).trans hpeer.uuid,
      (Node.eq_of_bare Node.units (fun _ => rfl) hbare).trans hpeer.units, fun direction => ?_⟩
    rw [← hpeer.looks, Node.side_of_bare hbare]
    exact List.map_congr_left fun p _ => hl.alike.map_port? (·.look) (fun _ => rfl) p
  constructor
  case settings => exact hl.alike.settings.trans hr.settings
  case forth =>
    intro id node hnode
    obtain ⟨id', node', hnode', hsame⟩ := hr.forth hnode
    obtain ⟨node'', hnode'', -⟩ := hl.alike.exists_node hnode'
    exact ⟨id', node'', hnode'', hpeer hnode' hnode'' hsame⟩
  case back =>
    intro id' node'' hnode''
    obtain ⟨node', hnode', -⟩ := hl.alike.symm.exists_node hnode''
    obtain ⟨id, node, hnode, hsame⟩ := hr.back hnode'
    exact ⟨id, node, hnode, hpeer hnode' hnode'' hsame⟩
  case above =>
    rintro a b ⟨id, node, id', holder, hnode, hholder, rfl, rfl, hup⟩
    obtain ⟨found, hfound, hbare⟩ := hl.alike.symm.exists_node hnode
    obtain ⟨outer, houter, hbare'⟩ := hl.alike.symm.exists_node hholder
    rw [hl.outline, ← Node.eq_of_bare Node.item (fun _ => rfl) hbare,
      ← Node.eq_of_bare Node.item (fun _ => rfl) hbare'] at hup
    exact hr.above ⟨id, found, id', outer, hfound, houter,
      Node.eq_of_bare Node.uuid (fun _ => rfl) hbare,
      Node.eq_of_bare Node.uuid (fun _ => rfl) hbare', hup⟩
  case standIns =>
    intro direction ref target h
    exact (mem_save_aliases_iff hw hn ho).mp (haliases _ (hl.standIns.mp h))
  case feeders =>
    intro source destination h
    rw [hl.feeders, List.mem_map] at h
    obtain ⟨saved, hsaved, rfl⟩ := h
    obtain ⟨hmem, hdestination⟩ := List.mem_filter.mp hsaved
    rw [feeders_eq_filter hw hn ho]
    exact List.mem_map_of_mem (List.mem_filter.mpr ⟨hedges saved hmem, hdestination⟩)

variable (hw' : other.Wired) (hn' : other.Named)

include hw' hn'

theorem exists_restoreAlias (hg : Stocked graph) (hr : Replica graph other) {saved : SavedAlias}
    (h : saved ∈ graph.save.aliases) : ∃ next, restoreAlias other saved = .ok next := by
  have hw := hg.reachable.healthy.wired
  have hn := hg.reachable.named
  obtain ⟨p, port, t, hp, hd, hown, ht, htarget⟩ := (standIn?_eq_some_iff hw hn).mp
    ((mem_save_aliases_iff hw hn hg.reachable.outlined).mp h)
  have hpNamed := (hn.portNamed?_eq_some_iff hw).mpr ⟨port, hp, hd, hown⟩
  have htNamed := hd ▸ portNamed?_target hw hn hp ht htarget
  obtain ⟨target, hlive, -⟩ := hw.target hp ht
  obtain ⟨node, hnode⟩ := hw.owner hp
  obtain ⟨holder, hholder⟩ := hw.owner hlive
  obtain ⟨p', -, -, hp', -⟩ := hr.exists_port hw hn hw' hn' hpNamed hp hnode
  obtain ⟨t', -, -, ht', -⟩ := hr.exists_port hw hn hw' hn' htNamed hlive hholder
  exact Graph.exists_restoreAlias hw' hn' hp' ht' (hr.closesLoop_eq_false hw hn hw' hn'
    hg.reachable.healthy.acyclic (.forwards hp ht) ⟨_, _, htNamed, ht'⟩ ⟨_, _, hpNamed, hp'⟩)

theorem exists_restoreEdge (hg : Stocked graph) (ho' : other.Outlined) (hr : Replica graph other)
    {saved : SavedEdge} (h : saved ∈ graph.save.edges)
    (hnew : saved.source ∉ other.feeders saved.destination) :
    ∃ next, restoreEdge other saved = .ok next := by
  have hw := hg.reachable.healthy.wired
  have hn := hg.reachable.named
  have hfeeds : saved.source ∈ graph.feeders saved.destination := by
    rw [feeders_eq_filter hw hn hg.reachable.outlined]
    exact List.mem_map_of_mem (List.mem_filter.mpr ⟨h, by simp⟩)
  obtain ⟨e, edge, hedge, hs, hd⟩ := (mem_feeders_iff hw hn).mp hfeeds
  obtain ⟨source, destination, a, b, hsource, hdestination, ha, hb, hne, hab, hba, htypes⟩ :=
    (hg.reachable.legal.allowed hedge).ports
  have hsNamed := portNamed?_source hw hn hedge hs
  have hdNamed := portNamed?_destination hw hn hedge hd
  obtain ⟨s, source', a', hs', hsource', hout, hsLook, ha', haUuid⟩ :=
    hr.exists_port hw hn hw' hn' hsNamed hsource ha
  obtain ⟨d, destination', b', hd', hdestination', hin, hdLook, hb', hbUuid⟩ :=
    hr.exists_port hw hn hw' hn' hdNamed hdestination hb
  have hunder : ∀ {x y x' y' : Node} {i j i' j' : NodeId}, graph.node? i = some x →
      graph.node? j = some y → other.node? i' = some x' → other.node? j' = some y' →
      x'.uuid = x.uuid → y'.uuid = y.uuid → ¬ TransGen graph.outline.Under x.item y.item →
      ¬ TransGen other.outline.Under x'.item y'.item :=
    fun hx hy hx' hy' huuid huuid' hnot hup => hnot
      (Above.under hn hx hy (hr.above ⟨_, _, _, _, hx', hy', huuid, huuid', hup⟩))
  have horient : other.orientConnection s d = .ok (s, d) := by
    refine orientConnection_eq_ok_iff.mpr ⟨.inl ⟨rfl, rfl⟩, source', destination', hsource',
      hdestination', hout, hin, ?_, ?_, ?_, ?_⟩
    · intro heq
      rw [heq] at ha'
      obtain rfl := Option.some.inj (ha'.symm.trans hb')
      exact hne (hn.id_eq_of_uuid ha hb (haUuid.symm.trans hbUuid))
    · simp only [encloses, ha', hb', Bool.or_eq_false_iff]
      rw [← Bool.not_eq_true, ← Bool.not_eq_true, ho'.tidy.isAncestor_iff,
        ho'.tidy.isAncestor_iff]
      exact ⟨hunder hb ha hb' ha' hbUuid haUuid hba, hunder ha hb ha' hb' haUuid hbUuid hab⟩
    · rw [hr.settings, Port.type_of_look hsLook, Port.type_of_look hdLook]
      simpa using htypes
    · exact any_destination_eq_false hw' hn' hs' hd' hsource' hnew
  exact Graph.exists_restoreEdge hs' hd' horient (hr.closesLoop_eq_false hw hn hw' hn'
    hg.reachable.healthy.acyclic (.along hedge) ⟨_, _, hsNamed, hs'⟩ ⟨_, _, hdNamed, hd'⟩)

end Steps

end Replica

-- The aliases and the edges of a graph can be made between its nodes, in the order in
-- which they are saved.
theorem exists_linked (hg : Stocked graph) (hr : Replica graph base) (hw : base.Wired)
    (hn : base.Named) (ho : base.Outlined)
    (hplain : ∀ p port, base.port? p = some port → port.aliasOf = none ∧ port.edges = []) :
    ∃ linked, graph.save.aliases.foldlM restoreAlias base = .ok linked ∧
      ∃ other, graph.save.edges.foldlM restoreEdge linked = .ok other := by
  have hwired := hg.reachable.healthy.wired
  have hnamed := hg.reachable.named
  have houtlined := hg.reachable.outlined
  have hcomplete := complete hwired hnamed houtlined hg.reachable.legal.single
  have hstep : ∀ {done saved rest g next}, graph.save.aliases = done ++ saved :: rest →
      Linked base done [] g → restoreAlias g saved = .ok next →
      Linked base (done ++ [saved]) [] next :=
    fun hitems hl hnext => hl.link hw hn (hitems ▸ hcomplete.aliasesOnce) hnext
  obtain ⟨linked, haliases⟩ := exists_foldlM (P := fun done g => Linked base done [] g) hstep
    (fun {done saved rest g} hitems hl => by
      refine (hr.linked hwired hnamed houtlined hl (fun saved hsaved => ?_) (by simp))
        |>.exists_restoreAlias (hl.edits.wired hw) (hl.edits.named hn) hg (by simp [hitems])
      simp [hitems, hsaved])
    (.of_plain hplain)
  refine ⟨linked, haliases, ?_⟩
  have hlinked := foldlM_induction (P := fun done g => Linked base done [] g) hstep
    (.of_plain hplain) haliases
  refine exists_foldlM (P := fun done g => Linked base graph.save.aliases done g)
    (fun _ hl hnext => hl.connect hw hn hnext) (fun {done saved rest g} hitems hl => ?_) hlinked
  refine (hr.linked hwired hnamed houtlined hl (fun _ h => h) fun saved hsaved => ?_)
    |>.exists_restoreEdge (hl.edits.wired hw) (hl.edits.named hn) hg (hl.edits.outlined ho)
      (by simp [hitems]) ?_
  · simp [hitems, hsaved]
  · rw [hl.feeders, List.mem_map]
    rintro ⟨earlier, hearlier, hsource⟩
    obtain ⟨hmem, hdestination⟩ := List.mem_filter.mp hearlier
    have heq : earlier = saved := by
      cases earlier
      cases saved
      simp_all
    have honce := hcomplete.edgesOnce
    rw [hitems, List.nodup_append] at honce
    exact honce.2.2 _ hmem _ List.mem_cons_self heq

end Graph

end Dataflow
