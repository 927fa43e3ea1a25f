import Dataflow.Proofs.Intact
import Dataflow.Proofs.Registry
import Dataflow.Proofs.Restore.Steps

namespace Dataflow

def Port.look (port : Port) : String × ValueType × Option (Nested Value) :=
  (port.name, port.type, port.default)

theorem Port.type_of_look {port other : Port} (h : other.look = port.look) :
    other.type = port.type :=
  congrArg (·.2.1) h

@[simp] theorem Port.look_flagged (node : NodeId) (direction : Direction) (start : Nat)
    (flags : List Flags) (port : Port) :
    (port.flagged node direction start flags).look = port.look := by
  rw [flagged]
  split <;> rfl

-- Nodes of the built-in kinds are the only ones that the operation makes.
def Operation.BuiltIn : Operation → Prop
  | .addNode template _ | .addNodeIn template _ _ =>
      ∃ tag given, Registry.core.create tag given = .ok template
  | _ => True

namespace Graph

open Relation

variable {graph other : Graph} {keys : String → Prop}

-- A node of a graph that can come about, made by the built-in registry.
inductive Sourced (id : NodeId) : Graph → Prop where
  | restored {snapshot : Snapshot} {settings : Settings} {graph : Graph}
      (h : Graph.restore snapshot .core settings = .ok graph) (hn : (graph.node? id).isSome) :
      Sourced id graph
  | added {graph : Graph} {operation : Operation} (hb : operation.BuiltIn) (h : Reachable graph)
      (hnew : graph.node? id = none) (hn : ((graph.perform operation).node? id).isSome) :
      Sourced id (graph.perform operation)
  | performed {graph : Graph} (operation : Operation) (h : Sourced id graph)
      (hn : ((graph.perform operation).node? id).isSome) : Sourced id (graph.perform operation)
  | answered {graph : Graph} (query : Query) (h : Sourced id graph) :
      Sourced id (graph.answer query)

-- The graphs that can come about and have nodes of the built-in registry only. There may
-- have been others that were removed.
structure Stocked (graph : Graph) : Prop where
  reachable : Reachable graph
  sourced : ∀ {id node}, graph.node? id = some node → Sourced id graph

-- What a node has from the template it was made from, whatever is edited afterwards.
structure MadeOf (graph : Graph) (node : Node) (template : Template) : Prop where
  tag : node.tag = template.tag
  units : node.units = template.units
  looks : ∀ direction, (node.side direction).map (fun p => (graph.port? p).map (·.look)) =
    (template.side direction).map fun spec => some spec.look
  keys : ∀ key, (template.properties.find? key).isSome → (node.properties.find? key).isSome

theorem MadeOf.length_side {node : Node} {template : Template} (h : graph.MadeOf node template)
    (direction : Direction) :
    (node.side direction).length = (template.side direction).length := by
  simpa using congrArg List.length (h.looks direction)

-- A node was made from a template of a registry.
def Catalogued (registry : Registry) (graph : Graph) (node : Node) : Prop :=
  ∃ tag given template, registry.create tag given = .ok template ∧ graph.MadeOf node template

-- An edge may lead from one port to another.
structure Allows (graph : Graph) (s d : PortId) : Prop where
  ports : ∃ source destination a b, graph.port? s = some source ∧
    graph.port? d = some destination ∧ graph.node? source.node = some a ∧
    graph.node? destination.node = some b ∧ source.node ≠ destination.node ∧
    ¬ TransGen graph.outline.Under a.item b.item ∧ ¬ TransGen graph.outline.Under b.item a.item ∧
    (graph.settings.enforcePortTypes = true → source.type.feeds destination.type = true)

-- Every edge is one that may be there, and no other edge has the same ends.
structure Legal (graph : Graph) : Prop where
  allowed : ∀ {e edge}, graph.edge? e = some edge → graph.Allows edge.source edge.destination
  single : ∀ {e e' edge}, graph.edge? e = some edge → graph.edge? e' = some edge → e = e'

section Part

-- The nodes and ports of the other graph are there already, and alike for what edges and
-- templates are about. Properties are the same but for some keys, and under these keys
-- there are values.
structure Part (keys : String → Prop) (graph other : Graph) : Prop where
  settings : other.settings = graph.settings
  node : ∀ {id node'}, other.node? id = some node' → ∃ node, graph.node? id = some node ∧
    node'.item = node.item ∧ node'.tag = node.tag ∧ node'.units = node.units ∧
    (∀ direction, node'.side direction = node.side direction) ∧
    ∀ key, node'.properties.find? key = node.properties.find? key ∨
      keys key ∧ (node'.properties.find? key).isSome
  port : ∀ {p port'}, other.port? p = some port' → ∃ port, graph.port? p = some port ∧
    port'.node = port.node ∧ port'.look = port.look

namespace Part

theorem refl (graph : Graph) : Part keys graph graph where
  settings := rfl
  node h := ⟨_, h, rfl, rfl, rfl, fun _ => rfl, fun _ => .inl rfl⟩
  port h := ⟨_, h, rfl, rfl⟩

theorem trans {third : Graph} (h : Part keys graph other) (h' : Part keys other third) :
    Part keys graph third where
  settings := h'.settings.trans h.settings
  node hn := by
    obtain ⟨node', hn', hitem', htag', hunits', hside', hkeys'⟩ := h'.node hn
    obtain ⟨node, hn, hitem, htag, hunits, hside, hkeys⟩ := h.node hn'
    refine ⟨node, hn, hitem'.trans hitem, htag'.trans htag, hunits'.trans hunits,
      fun direction => (hside' direction).trans (hside direction),
      fun key => ?_⟩
    rcases hkeys' key with heq | hset
    · rw [heq]
      exact hkeys key
    · exact .inr hset
  port hp := by
    obtain ⟨port', hp', hnode', hlook'⟩ := h'.port hp
    obtain ⟨port, hp, hnode, hlook⟩ := h.port hp'
    exact ⟨port, hp, hnode'.trans hnode, hlook'.trans hlook⟩

-- Ports that are changed in nothing but what they stand for, their edges and their flags.
theorem of_ports (hsettings : other.settings = graph.settings)
    (hnode : ∀ id, other.node? id = graph.node? id)
    (f : PortId → Port → Port) (hport : ∀ p, other.port? p = (graph.port? p).map (f p))
    (hf : ∀ p port, (f p port).node = port.node ∧ (f p port).look = port.look) :
    Part keys graph other where
  settings := hsettings
  node h := by
    rw [hnode] at h
    exact ⟨_, h, rfl, rfl, rfl, fun _ => rfl, fun _ => .inl rfl⟩
  port h := by
    rw [hport] at h
    obtain ⟨port, hp, rfl⟩ := Option.map_eq_some_iff.mp h
    exact ⟨port, hp, hf _ port⟩

theorem invalidate (h : Part keys graph other) (id : NodeId) :
    Part keys graph (other.invalidate id) := by
  refine h.trans ⟨rfl, fun {n node'} hchanged => ?_, fun hp => ⟨_, hp, rfl, rfl⟩⟩
  rw [node?_invalidate] at hchanged
  obtain ⟨node, hn, rfl⟩ := Option.map_eq_some_iff.mp hchanged
  refine ⟨node, hn, ?_⟩
  split <;> exact ⟨rfl, rfl, rfl, fun direction => by cases direction <;> rfl, fun _ => .inl rfl⟩

theorem invalidateAll (h : Part keys graph other) (ids : List NodeId) :
    Part keys graph (ids.foldl Graph.invalidate other) := by
  induction ids generalizing other with
  | nil => exact h
  | cons id rest ih => exact ih (h.invalidate id)

theorem withdraw (graph : Graph) (doomed : List NodeId) :
    Part keys graph (graph.withdraw doomed) where
  settings := rfl
  node h := ⟨_, ((node?_withdraw_eq_some_iff _ _).mp h).2, rfl, rfl, rfl, fun _ => rfl,
    fun _ => .inl rfl⟩
  port h := by
    rw [port?_withdraw] at h
    split at h
    · cases h
    · obtain ⟨port, hp, rfl⟩ := Option.map_eq_some_iff.mp h
      exact ⟨port, hp, rfl, rfl⟩

theorem join (graph : Graph) (s d : PortId) : Part keys graph (graph.join s d) :=
  of_ports rfl (fun _ => rfl) _ (port?_join graph s d) fun _ _ => ⟨rfl, rfl⟩

theorem withProperty (graph : Graph) (id : NodeId) {key : String} (hkey : keys key)
    (value : Nested Value) : Part keys graph (graph.withProperty id key value) where
  settings := rfl
  node h := by
    rw [node?_withProperty] at h
    obtain ⟨node, hn, rfl⟩ := Option.map_eq_some_iff.mp h
    refine ⟨node, hn, ?_⟩
    split
    · refine ⟨rfl, rfl, rfl, fun direction => by cases direction <;> rfl, fun other => ?_⟩
      simp only [Properties.find?_insert]
      split
      · next heq => exact .inr ⟨heq ▸ hkey, rfl⟩
      · exact .inl rfl
    · exact ⟨rfl, rfl, rfl, fun _ => rfl, fun _ => .inl rfl⟩
  port h := ⟨_, h, rfl, rfl⟩

theorem withPosition (graph : Graph) (id : NodeId) (position : Position) :
    Part keys graph (graph.withPosition id position) where
  settings := rfl
  node h := by
    rw [node?_withPosition] at h
    obtain ⟨node, hn, rfl⟩ := Option.map_eq_some_iff.mp h
    refine ⟨node, hn, ?_⟩
    split <;> exact ⟨rfl, rfl, rfl, fun direction => by cases direction <;> rfl, fun _ => .inl rfl⟩
  port h := ⟨_, h, rfl, rfl⟩

theorem of_bare (h : other.bare = graph.bare) : Part keys graph other where
  settings := settings_of_bare h
  node {id node'} hn := by
    have hbare := node?_of_bare h id
    rw [hn] at hbare
    obtain ⟨node, hn, heq⟩ := Option.map_eq_some_iff.mp hbare.symm
    refine ⟨node, hn, Node.eq_of_bare Node.item (fun _ => rfl) heq.symm,
      Node.eq_of_bare Node.tag (fun _ => rfl) heq.symm,
      Node.eq_of_bare Node.units (fun _ => rfl) heq.symm, Node.side_of_bare heq.symm,
      fun key => .inl ?_⟩
    rw [Node.eq_of_bare Node.properties (fun _ => rfl) heq]
  port hp := ⟨_, (port?_of_bare h _) ▸ hp, rfl, rfl⟩

end Part

-- A changed graph has no more nodes and ports than there were. Its edges are among those
-- that were there, and what stands inside what is as it was, or there is one more edge.
theorem Adjustment.part (h : graph.Adjustment other) (ho : graph.Outlined) : Part keys graph other ∧
    ((∀ {e edge}, other.edge? e = some edge → graph.edge? e = some edge) ∧
        (∀ {a b}, other.outline.Under a b → graph.outline.Under a b) ∨
      ∃ (a b s d : PortId) (port : Port), graph.orientConnection a b = .ok (s, d) ∧
        other = (graph.join s d).invalidate port.node) := by
  cases h with
  | @remove id node hn =>
      have hinvalid : Part keys graph ((graph.nodesUnder id node).foldl Graph.invalidate graph) :=
        (Part.refl graph).invalidateAll _
      have hrest := hinvalid.trans (.withdraw _ (graph.nodesUnder id node))
      have hbare := graph.bare_invalidateAll (graph.nodesUnder id node)
      refine ⟨⟨hrest.settings, hrest.node, hrest.port⟩, .inl ⟨fun {e edge} he => ?_, ?_⟩⟩
      · have he : ((((graph.nodesUnder id node).foldl Graph.invalidate graph).withdraw
          (graph.nodesUnder id node))).edge? e = some edge := he
        rw [edge?_withdraw] at he
        split at he
        · cases he
        · rw [edge?_of_bare hbare] at he
          exact he
      · exact fun hab => (ho.pruned hn).under hab
  | @connect a b s d port horient hl hd =>
      exact ⟨.invalidate (.join graph s d) _, .inr ⟨a, b, s, d, port, horient, rfl⟩⟩
  | @disconnect e edge port he hd =>
      have hdropped : Part keys graph (graph.dropEdges [e]) :=
        .of_ports rfl (fun _ => rfl) _ (port?_dropEdges graph [e]) fun _ _ => ⟨rfl, rfl⟩
      refine ⟨hdropped.invalidate _, .inl ⟨fun {e edge} he => ?_, fun h => h⟩⟩
      rw [edge?_invalidate, edge?_dropEdges] at he
      split at he
      · cases he
      · exact he
  | @link p t port target hp ht hd hl =>
      have hforwarded : Part keys graph (graph.forward p t) :=
        .of_ports rfl (fun _ => rfl) _ (port?_forward graph p t) fun _ _ => by
          split <;> exact ⟨rfl, rfl⟩
      exact ⟨hforwarded.invalidate _, .inl ⟨fun he => he, fun h => h⟩⟩
  | @unlink p port hp =>
      have hunlinked : Part keys graph (graph.unlink p) :=
        .of_ports rfl (fun _ => rfl) _ (port?_unlink graph p) fun _ _ => by
          split <;> exact ⟨rfl, rfl⟩
      exact ⟨hunlinked.invalidate _, .inl ⟨fun he => he, fun h => h⟩⟩
  | position hn position =>
      exact ⟨.withPosition graph _ position, .inl ⟨fun he => he, fun h => h⟩⟩
  | @flags p port hp flags =>
      have hflagged : Part keys graph (graph.withFlags p flags) :=
        .of_ports rfl (fun _ => rfl) _ (port?_withFlags graph p flags) fun _ _ => by
          split <;> exact ⟨rfl, rfl⟩
      exact ⟨hflagged.invalidate _, .inl ⟨fun he => he, fun h => h⟩⟩
  | invalidate id => exact ⟨.invalidate (.refl graph) id, .inl ⟨fun he => he, fun h => h⟩⟩

theorem Revision.part (h : graph.Revision other) (ho : graph.Outlined) :
    Part (fun _ => True) graph other ∧
    ((∀ {e edge}, other.edge? e = some edge → graph.edge? e = some edge) ∧
        (∀ {a b}, other.outline.Under a b → graph.outline.Under a b) ∨
      ∃ (a b s d : PortId) (port : Port), graph.orientConnection a b = .ok (s, d) ∧
        other = (graph.join s d).invalidate port.node) := by
  cases h with
  | adjusted h => exact h.part ho
  | property hn key value =>
      exact ⟨.invalidate (.withProperty graph _ trivial value) _, .inl ⟨fun he => he, fun h => h⟩⟩

end Part

section Catalogued

theorem MadeOf.part {id : NodeId} {node node' : Node} {template : Template}
    (hmade : graph.MadeOf node template) (h : Part (fun _ => True) graph other) (hw : other.Wired)
    (hn : graph.node? id = some node) (hn' : other.node? id = some node') :
    other.MadeOf node' template := by
  obtain ⟨found, hfound, -, htag, hunits, hside, hkeys⟩ := h.node hn'
  obtain rfl := Option.some.inj (hn.symm.trans hfound)
  refine ⟨htag.trans hmade.tag, hunits.trans hmade.units, fun direction => ?_, fun key hkey => ?_⟩
  · rw [← hmade.looks, ← hside]
    refine List.map_congr_left fun p hp => ?_
    obtain ⟨port', hp', -⟩ := hw.mem_side_placed hn' hp
    obtain ⟨port, hport, -, hlook⟩ := h.port hp'
    rw [hp', hport, Option.map_some, Option.map_some, hlook]
  · rcases hkeys key with heq | ⟨-, hset⟩
    · exact heq ▸ hmade.keys key hkey
    · exact hset

theorem MadeOf.insert {id : NodeId} {node : Node} {template : Template}
    (hmade : graph.MadeOf node template) (hw : graph.Wired) (hn : graph.node? id = some node)
    (added : Template) (uuid : Uuid) (parent : ItemId) :
    (graph.withNode added uuid parent).MadeOf node template := by
  refine ⟨hmade.tag, hmade.units, fun direction => ?_, hmade.keys⟩
  rw [← hmade.looks]
  refine List.map_congr_left fun p hp => ?_
  obtain ⟨port, hport, -⟩ := hw.mem_side_placed hn hp
  rw [graph.port?_withNode_of_port? added uuid parent hport, hport]

theorem Catalogued.part {registry : Registry} {id : NodeId} {node node' : Node}
    (hg : Catalogued registry graph node) (h : Part (fun _ => True) graph other) (hw : other.Wired)
    (hn : graph.node? id = some node) (hn' : other.node? id = some node') :
    Catalogued registry other node' := by
  obtain ⟨tag, given, template, hcreate, hmade⟩ := hg
  exact ⟨tag, given, template, hcreate, hmade.part h hw hn hn'⟩

theorem MadeOf.new (template : Template) (uuid : Uuid) (parent : ItemId) :
    (graph.withNode template uuid parent).MadeOf (graph.newNode template uuid) template := by
  refine ⟨rfl, rfl, fun direction => List.ext_getElem? fun index => ?_, fun _ h => h⟩
  rw [List.getElem?_map, List.getElem?_map]
  rcases graph.getElem?_newNode template uuid parent direction index with
    ⟨hport, hspec⟩ | ⟨p, spec, hport, hspec, hcreated⟩
  · rw [hport, hspec]
    rfl
  · rw [hport, hspec, Option.map_some, hcreated]
    rfl

theorem Catalogued.insert {registry : Registry} {id : NodeId} {node : Node}
    (hg : Catalogued registry graph node) (hw : graph.Wired) (hn : graph.node? id = some node)
    (added : Template) (uuid : Uuid) (parent : ItemId) :
    Catalogued registry (graph.withNode added uuid parent) node := by
  obtain ⟨tag, given, template, hcreate, hmade⟩ := hg
  exact ⟨tag, given, template, hcreate, hmade.insert hw hn added uuid parent⟩

end Catalogued

section Legal

theorem Legal.of_edgeless (h : ∀ e, graph.edge? e = none) : graph.Legal where
  allowed he := by
    rw [h] at he
    cases he
  single he := by
    rw [h] at he
    cases he

theorem Allows.of_orient (hw : graph.Wired) (ho : graph.Outlined) {a b s d : PortId}
    (h : graph.orientConnection a b = .ok (s, d)) :
    graph.Allows s d ∧ ∀ {e edge}, graph.edge? e = some edge → edge ≠ ⟨s, d⟩ := by
  obtain ⟨-, source, destination, hs, hd, hout, hin, hnode, hscope, htypes, hfound⟩ :=
    orientConnection_eq_ok_iff.mp h
  obtain ⟨outer, houter⟩ := hw.owner hs
  obtain ⟨inner, hinner⟩ := hw.owner hd
  simp only [encloses, houter, hinner, Bool.or_eq_false_iff] at hscope
  rw [← Bool.not_eq_true, ← Bool.not_eq_true, ho.tidy.isAncestor_iff, ho.tidy.isAncestor_iff]
    at hscope
  refine ⟨⟨source, destination, outer, inner, hs, hd, houter, hinner, hnode, hscope.2, hscope.1,
    fun henforce => by simpa [henforce] using htypes⟩, ?_⟩
  rintro e edge he rfl
  obtain ⟨port, hport, -, hmem⟩ := hw.source he
  obtain rfl := Option.some.inj (hs.symm.trans hport)
  rw [List.any_eq_false] at hfound
  exact hfound _ (List.mem_filterMap.mpr ⟨e, hmem, he⟩) (by simp)

-- What allows an edge is still there in a graph with the same nodes and ports and no more
-- nesting.
theorem Allows.part {s d : PortId} (h : graph.Allows s d) (hpart : Part (fun _ => True) graph other)
    (hw : other.Wired) (hthere : ∀ p, (graph.port? p).isSome → p = s ∨ p = d →
      (other.port? p).isSome)
    (habove : ∀ {a b}, TransGen other.outline.Under a b → TransGen graph.outline.Under a b) :
    other.Allows s d := by
  obtain ⟨source, destination, a, b, hs, hd, ha, hb, hne, hab, hba, htypes⟩ := h.ports
  obtain ⟨source', hs'⟩ := Option.isSome_iff_exists.mp (hthere s (by rw [hs]; rfl) (.inl rfl))
  obtain ⟨destination', hd'⟩ :=
    Option.isSome_iff_exists.mp (hthere d (by rw [hd]; rfl) (.inr rfl))
  obtain ⟨found, hfound, hnode, hlook⟩ := hpart.port hs'
  obtain rfl := Option.some.inj (hs.symm.trans hfound)
  obtain ⟨found', hfound', hnode', hlook'⟩ := hpart.port hd'
  obtain rfl := Option.some.inj (hd.symm.trans hfound')
  obtain ⟨a', ha'⟩ := hw.owner hs'
  obtain ⟨b', hb'⟩ := hw.owner hd'
  obtain ⟨old, hold, hitem, -⟩ := hpart.node ha'
  obtain rfl := Option.some.inj ((hnode ▸ hold).symm.trans ha)
  obtain ⟨old', hold', hitem', -⟩ := hpart.node hb'
  obtain rfl := Option.some.inj ((hnode' ▸ hold').symm.trans hb)
  refine ⟨source', destination', a', b', hs', hd', ha', hb', by rwa [hnode, hnode'], ?_, ?_, ?_⟩
  · rw [hitem, hitem']
    exact fun h => hab (habove h)
  · rw [hitem, hitem']
    exact fun h => hba (habove h)
  · rw [hpart.settings, Port.type_of_look hlook, Port.type_of_look hlook']
    exact htypes

theorem Legal.part (hg : graph.Legal) (hpart : Part (fun _ => True) graph other) (hw : other.Wired)
    (hedge : ∀ {e edge}, other.edge? e = some edge → graph.edge? e = some edge)
    (habove : ∀ {a b}, other.outline.Under a b → graph.outline.Under a b) : other.Legal where
  allowed {e edge} he := by
    refine (hg.allowed (hedge he)).part hpart hw ?_ fun h => TransGen.mono (fun _ _ => habove) _ _ h
    obtain ⟨source, hs, -⟩ := hw.source he
    obtain ⟨destination, hd, -⟩ := hw.destination he
    rintro p - (rfl | rfl)
    · rw [hs]
      rfl
    · rw [hd]
      rfl
  single he he' := hg.single (hedge he) (hedge he')

theorem Legal.connect (hg : graph.Legal) (hw : graph.Wired) (ho : graph.Outlined)
    {a b s d : PortId} (h : graph.orientConnection a b = .ok (s, d)) (id : NodeId) :
    ((graph.join s d).invalidate id).Legal := by
  obtain ⟨-, source, destination, hs, hd, hout, hin, -⟩ := orientConnection_eq_ok_iff.mp h
  obtain ⟨hallows, hnew⟩ := Allows.of_orient hw ho h
  have hjoined : Part (fun _ => True) graph ((graph.join s d).invalidate id) :=
    .invalidate (.join graph s d) id
  have hwired : ((graph.join s d).invalidate id).Wired := (hw.join hs hd hout hin).invalidate id
  have hthere : ∀ p, (graph.port? p).isSome →
      (((graph.join s d).invalidate id).port? p).isSome := by
    intro p hp
    rw [port?_invalidate, port?_join, Option.isSome_map]
    exact hp
  have hkept : ∀ {s' d'}, graph.Allows s' d' → ((graph.join s d).invalidate id).Allows s' d' :=
    fun hallowed => hallowed.part hjoined hwired (fun p hp _ => hthere p hp) fun hab => hab
  have hcases : ∀ {e edge}, ((graph.join s d).invalidate id).edge? e = some edge →
      e = graph.edges.fresh ∧ edge = ⟨s, d⟩ ∨ graph.edge? e = some edge := by
    intro e edge he
    rw [edge?_invalidate, edge?_join] at he
    split at he
    · next hfresh => exact .inl ⟨hfresh, (Option.some.inj he).symm⟩
    · exact .inr he
  constructor
  case allowed =>
    intro e edge he
    rcases hcases he with ⟨-, rfl⟩ | he
    · exact hkept hallows
    · exact hkept (hg.allowed he)
  case single =>
    intro e e' edge he he'
    rcases hcases he with ⟨rfl, rfl⟩ | he <;> rcases hcases he' with ⟨rfl, heq⟩ | he'
    · rfl
    · exact absurd rfl (hnew he')
    · exact absurd heq (hnew he)
    · exact hg.single he he'

theorem Legal.insert (hg : graph.Legal) (ho : graph.Outlined) (template : Template) (uuid : Uuid)
    {parent : ItemId}
    (hp : parent = graph.root ∨ ∃ c node, graph.node? c = some node ∧ parent = node.item) :
    (graph.withNode template uuid parent).Legal := by
  obtain ⟨hattached, -⟩ := ho.attached_withNode template uuid (ho.contains_parent hp)
  have hport := @port?_withNode_of_port? graph template uuid parent
  have hnode := @node?_withNode_of_node? graph template uuid parent
  -- nothing stands under the new item, so no way up leads through it
  have habove : ∀ {a b}, TransGen (graph.withNode template uuid parent).outline.Under a b →
      a ≠ graph.outline.items.fresh → TransGen graph.outline.Under a b := by
    intro a b hab hne
    have hstep : ∀ {x y}, (graph.withNode template uuid parent).outline.Under x y →
        x ≠ graph.outline.items.fresh → graph.outline.Under x y := by
      intro x y hxy hx
      rw [Forest.Under, hattached.above, if_neg hx, Forest.parent?_insert] at hxy
      exact hxy
    induction hab with
    | single hab => exact .single (hstep hab hne)
    | tail hac hcb ih =>
        refine ih.tail (hstep hcb ?_)
        rintro rfl
        obtain ⟨item, hitem⟩ := (Arena.mem_ids_iff _ _).mp (ho.tidy.mem_ids_of_above ih)
        rw [Arena.find?_fresh] at hitem
        cases hitem
  constructor
  case allowed =>
    intro e edge he
    obtain ⟨source, destination, a, b, hs, hd, ha, hb, hne, hab, hba, htypes⟩ :=
      (hg.allowed he).ports
    have hout : ∀ {id node}, graph.node? id = some node →
        node.item ≠ graph.outline.items.fresh := fun hn =>
      Forest.ne_fresh (ho.contains_item hn)
    exact ⟨source, destination, a, b, hport hs, hport hd, hnode ha, hnode hb, hne,
      fun h => hab (habove h (hout ha)), fun h => hba (habove h (hout hb)), htypes⟩
  case single => exact fun he he' => hg.single he he'

theorem Legal.revised (hg : graph.Legal) (hw : graph.Wired) (ho : graph.Outlined)
    (h : graph.Revision other) : other.Legal := by
  obtain ⟨hpart, ⟨hedge, habove⟩ | ⟨a, b, s, d, port, horient, rfl⟩⟩ := h.part ho
  · exact hg.part hpart (h.edit.wired hw) hedge habove
  · exact hg.connect hw ho horient port.node

end Legal

section Restored

theorem Part.of_outline (graph : Graph) (outline : Forest Entry) :
    Part keys graph { graph with outline := outline } :=
  ⟨rfl, fun h => ⟨_, h, rfl, rfl, rfl, fun _ => rfl, fun _ => .inl rfl⟩, fun h => ⟨_, h, rfl, rfl⟩⟩

-- What comes after the making of a restored node keeps what the node was made with.
theorem Made.part {registry : Registry} {saved : SavedNode} {template : Template}
    (h : Made registry graph saved template other) :
    Part (fun _ => True) (graph.withNode template saved.uuid graph.root) other := by
  have hplaced : Part (fun _ => True) (graph.withNode template saved.uuid graph.root)
      ((graph.withNode template saved.uuid graph.root).withPosition graph.nodes.fresh
        saved.position) := .withPosition _ _ _
  have hports : Part (fun _ => True) (graph.withNode template saved.uuid graph.root)
      { (graph.withNode template saved.uuid graph.root).withPosition graph.nodes.fresh
        saved.position with ports := other.ports } := by
    refine ⟨hplaced.settings, hplaced.node, fun {p port'} hp => ?_⟩
    obtain ⟨port, hport, rfl⟩ := Option.map_eq_some_iff.mp ((h.port p).symm.trans hp)
    exact ⟨port, hport, by simp only [Port.node_flagged], by simp only [Port.look_flagged]⟩
  exact hports.trans (.of_bare h.rest)

-- What was restored so far: made by the registry, and with no edges yet.
structure Unjoined (registry : Registry) (settings : Settings) (graph : Graph) : Prop where
  edits : Edits (Graph.new settings) graph
  catalogued : ∀ {id node}, graph.node? id = some node → Catalogued registry graph node
  edgeless : ∀ e, graph.edge? e = none

namespace Unjoined

variable {registry : Registry} {settings : Settings}

theorem new (registry : Registry) (settings : Settings) :
    Unjoined registry settings (Graph.new settings) where
  edits := .refl
  catalogued hn := by cases hn
  edgeless _ := rfl

theorem part (hg : Unjoined registry settings graph) (h : Part (fun _ => True) graph other)
    (hedits : Edits graph other) (hedge : ∀ e, other.edge? e = graph.edge? e) :
    Unjoined registry settings other where
  edits := hg.edits.trans hedits
  catalogued {id node'} hn' := by
    have hw := hg.edits.wired (.new settings)
    obtain ⟨node, hn, -⟩ := h.node hn'
    exact (hg.catalogued hn).part h (hedits.wired hw) hn hn'
  edgeless e := (hedge e).trans (hg.edgeless e)

theorem make {saved : SavedNode} (hg : Unjoined registry settings graph)
    (h : restoreNode registry graph saved = .ok other) : Unjoined registry settings other := by
  have hw := hg.edits.wired (.new settings)
  have hedits : Edits (Graph.new settings) other := hg.edits.trans (edits_of_restoreNode h)
  obtain ⟨template, hmade⟩ := made_of_restoreNode hw h
  refine ⟨hedits, fun {id node'} hn' => ?_, fun e => ?_⟩
  · obtain ⟨node, hn, -⟩ := hmade.part.node hn'
    refine Catalogued.part ?_ hmade.part (hedits.wired (.new settings)) hn hn'
    rcases (node?_withNode_eq_some_iff ..).mp hn with ⟨-, rfl⟩ | hn
    · exact ⟨saved.tag, saved.properties, template, hmade.created, .new template saved.uuid _⟩
    · exact (hg.catalogued hn).insert hw hn template saved.uuid graph.root
  · rw [edge?_of_bare hmade.rest]
    exact hg.edgeless e

theorem nest {saved : SavedNode} (hg : Unjoined registry settings graph)
    (h : restoreParent graph saved = .ok other) : Unjoined registry settings other := by
  have hedits := edits_of_restoreParent h
  rcases restoreParent_eq_ok h with ⟨-, rfl⟩ | ⟨_, container, child, -, -, -, hmove⟩
  · exact hg
  · obtain ⟨outline, houtline⟩ := graph.moveInto_snd child (some container)
    rw [hmove] at houtline
    dsimp only at houtline
    subst houtline
    exact hg.part (.of_outline graph outline) hedits fun _ => rfl

theorem link {saved : SavedAlias} (hg : Unjoined registry settings graph)
    (h : restoreAlias graph saved = .ok other) : Unjoined registry settings other := by
  have hrevision := revision_of_restoreAlias h
  obtain ⟨p, t, port, -, -, -, rfl⟩ := restoreAlias_eq_ok h
  exact hg.part (hrevision.part (hg.edits.outlined (.new settings))).1 (.single hrevision.edit)
    fun _ => rfl

end Unjoined

-- Edges come last, so all that is moved is moved while there are none.
theorem restored_catalogued_legal {snapshot : Snapshot} {registry : Registry} {settings : Settings}
    (h : Graph.restore snapshot registry settings = .ok graph) :
    (∀ {id node}, graph.node? id = some node → Catalogued registry graph node) ∧ graph.Legal := by
  obtain ⟨filled, hnodes, h⟩ := exists_of_bind_eq_ok h
  obtain ⟨nested, hparents, h⟩ := exists_of_bind_eq_ok h
  obtain ⟨linked, haliases, hedges⟩ := exists_of_bind_eq_ok h
  have hfilled := foldlM_induction (P := fun _ => Unjoined registry settings)
    (fun _ hg hstep => hg.make hstep) (.new registry settings) hnodes
  have hnested := foldlM_induction (P := fun _ => Unjoined registry settings)
    (fun _ hg hstep => hg.nest hstep) hfilled hparents
  have hlinked := foldlM_induction (P := fun _ => Unjoined registry settings)
    (fun _ hg hstep => hg.link hstep) hnested haliases
  have hjoined : Edits (Graph.new settings) graph ∧
      (∀ {id node}, graph.node? id = some node → Catalogued registry graph node) ∧
        graph.Legal := by
    refine foldlM_induction (P := fun _ g => Edits (Graph.new settings) g ∧
      (∀ {id node}, g.node? id = some node → Catalogued registry g node) ∧ g.Legal)
      (fun {done saved rest g next} _ hg hstep => ?_)
      ⟨hlinked.edits, hlinked.catalogued, .of_edgeless hlinked.edgeless⟩ hedges
    obtain ⟨hedits, hcatalogued, hlegal⟩ := hg
    have hrevision := revision_of_restoreEdge hstep
    have hnext : Edits (Graph.new settings) next := hedits.tail hrevision.edit
    have houtlined := hedits.outlined (.new settings)
    have hpart := (hrevision.part houtlined).1
    refine ⟨hnext, fun {id node'} hn' => ?_,
      hlegal.revised (hedits.wired (.new settings)) houtlined hrevision⟩
    obtain ⟨node, hn, -⟩ := hpart.node hn'
    exact (hcatalogued hn).part hpart (hnext.wired (.new settings)) hn hn'
  exact hjoined.2

end Restored

-- The edges of a graph that can come about may all be there, whatever was edited.
theorem Reachable.legal (h : Reachable graph) : graph.Legal := by
  induction h with
  | new settings => exact .of_edgeless fun _ => rfl
  | restored h => exact (restored_catalogued_legal h).2
  | @performed graph operation h hlegal =>
      have hw := h.healthy.wired
      have hw' := (h.performed operation).healthy.wired
      rcases perform_shape hw operation with
        heq | ⟨template, uuid, -, parent, -, -, hp, heq⟩ | hadjusted |
          ⟨id, key, value, -, node, hn, heq⟩ | ⟨node, output, rfl⟩
      · exact heq.symm ▸ hlegal
      · exact heq.symm ▸ hlegal.insert h.outlined template uuid hp
      · exact hlegal.revised hw h.outlined (.adjusted hadjusted)
      · exact heq.symm ▸ hlegal.revised hw h.outlined (.property hn key value)
      · have hbare := (h.healthy.evaluated node output).1
        exact hlegal.part (.of_bare hbare) hw' (fun he => edge?_of_bare hbare _ ▸ he)
          fun hab => (Keeps.of_bare hbare).outline ▸ hab
  | @answered graph query h hlegal =>
      have hbare := (h.healthy.asked query).1
      exact hlegal.part (.of_bare hbare) (h.answered query).healthy.wired
        (fun he => edge?_of_bare hbare _ ▸ he) fun hab => (Keeps.of_bare hbare).outline ▸ hab

section Sourced

variable {id : NodeId}

-- An operation makes one node, or it makes none and sets no properties but those it names.
theorem Reachable.part (h : Reachable graph) (operation : Operation)
    (hkeys : ∀ id key value, operation = .setProperty id key value → keys key) :
    (∃ template uuid parent, (operation = .addNode template uuid ∨
        ∃ container, operation = .addNodeIn template uuid container) ∧
      graph.perform operation = graph.withNode template uuid parent) ∨
    Part keys graph (graph.perform operation) := by
  rcases perform_shape h.healthy.wired operation with
    heq | ⟨template, uuid, hop, parent, -, -, -, heq⟩ | hadjusted |
      ⟨id, key, value, hop, -, -, heq⟩ | ⟨node, output, rfl⟩
  · exact .inr (heq.symm ▸ .refl graph)
  · exact .inl ⟨template, uuid, parent, hop, heq⟩
  · exact .inr (hadjusted.part h.outlined).1
  · exact .inr (heq.symm ▸ .invalidate (.withProperty graph id (hkeys id key value hop) value) id)
  · exact .inr (.of_bare (h.healthy.evaluated node output).1)

theorem Sourced.reachable_live (h : Sourced id graph) :
    Reachable graph ∧ ∃ node, graph.node? id = some node := by
  induction h with
  | restored h hn => exact ⟨.restored h, Option.isSome_iff_exists.mp hn⟩
  | added _ h _ hn => exact ⟨h.performed _, Option.isSome_iff_exists.mp hn⟩
  | performed operation _ hn ih => exact ⟨ih.1.performed operation, Option.isSome_iff_exists.mp hn⟩
  | @answered graph query _ ih =>
      obtain ⟨hreach, node, hn⟩ := ih
      refine ⟨hreach.answered query, ?_⟩
      have hnode := node?_of_bare (hreach.healthy.asked query).1 id
      rw [hn] at hnode
      obtain ⟨node', hn', -⟩ := Option.map_eq_some_iff.mp hnode
      exact ⟨node', hn'⟩

-- A node that the built-in registry made has still what it was made with.
theorem Sourced.catalogued (h : Sourced id graph) {node : Node} (hn : graph.node? id = some node) :
    Catalogued .core graph node := by
  induction h generalizing node with
  | restored h _ => exact (restored_catalogued_legal h).1 hn
  | @added graph operation hb h hnew _ =>
      rcases h.part operation fun _ _ _ _ => trivial with
        ⟨template, uuid, parent, hop, heq⟩ | hpart
      · obtain ⟨tag, given, hcreate⟩ :
            ∃ tag given, Registry.core.create tag given = .ok template := by
          rcases hop with rfl | ⟨container, rfl⟩ <;> exact hb
        rw [heq] at hn ⊢
        rcases (node?_withNode_eq_some_iff ..).mp hn with ⟨-, rfl⟩ | hn
        · exact ⟨tag, given, template, hcreate, .new template uuid parent⟩
        · rw [hnew] at hn
          cases hn
      · obtain ⟨old, hold, -⟩ := hpart.node hn
        rw [hnew] at hold
        cases hold
  | @performed graph operation h _ ih =>
      obtain ⟨hreach, old, hold⟩ := h.reachable_live
      rcases hreach.part operation fun _ _ _ _ => trivial with
        ⟨template, uuid, parent, -, heq⟩ | hpart
      · rw [heq, graph.node?_withNode_of_node? template uuid parent hold] at hn
        rw [heq]
        obtain rfl := Option.some.inj hn
        exact (ih hold).insert hreach.healthy.wired hold template uuid parent
      · exact (ih hold).part hpart (hreach.performed operation).healthy.wired hold hn
  | @answered graph query h ih =>
      obtain ⟨hreach, old, hold⟩ := h.reachable_live
      exact (ih hold).part (.of_bare (hreach.healthy.asked query).1)
        (hreach.answered query).healthy.wired hold hn

theorem Stocked.catalogued (h : Stocked graph) {node : Node} (hn : graph.node? id = some node) :
    Catalogued .core graph node :=
  (h.sourced hn).catalogued hn

theorem Stocked.new (settings : Settings) : Stocked (Graph.new settings) :=
  ⟨.new settings, fun hn => by cases hn⟩

-- A graph stays one of built-in nodes as long as no others are made.
theorem Stocked.performed (h : Stocked graph) {operation : Operation} (hb : operation.BuiltIn) :
    Stocked (graph.perform operation) := by
  refine ⟨h.reachable.performed operation, fun {id node} hn => ?_⟩
  have hlive : ((graph.perform operation).node? id).isSome := by
    rw [hn]
    rfl
  cases hold : graph.node? id with
  | none => exact .added hb h.reachable hold hlive
  | some old => exact .performed operation (h.sourced hold) hlive

theorem Stocked.answered (h : Stocked graph) (query : Query) : Stocked (graph.answer query) := by
  refine ⟨h.reachable.answered query, fun {id node} hn => ?_⟩
  have hpart : Part (fun _ => True) graph (graph.answer query) :=
    .of_bare (h.reachable.healthy.asked query).1
  obtain ⟨old, hold, -⟩ := hpart.node hn
  exact .answered query (h.sourced hold)

end Sourced

end Graph

end Dataflow
