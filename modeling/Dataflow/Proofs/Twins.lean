import Dataflow.Proofs.Catalogue
import Dataflow.Proofs.Evaluation.Lockstep
import Dataflow.Proofs.Reload
import Mathlib.Data.Set.Function

namespace Dataflow

namespace Renaming

variable (there : Renaming)

-- A failure that names no node and no port is the same under all names.
theorem error_eq_self {e : EvalError} (h : e.Unkeyed) : there.error e = e := by
  induction e with
  | sourceFailed uuid cause ih => exact congrArg _ (ih h)
  | invalidPortAlias => cases h
  | nodeNotFound => cases h
  | outputOutOfRange => cases h
  | _ => rfl

theorem result_eq_self {α : Type} {r : Except EvalError α} (h : Unkeyed r) :
    there.result r = r := by
  cases r with
  | ok a => rfl
  | error e => exact congrArg _ (there.error_eq_self (h e rfl))

end Renaming

namespace Flags

theorem isNone_iff {flags : Flags} : flags.isNone = true ↔ flags = .none := by
  cases flags
  simp [isNone, none, and_assoc]

theorem exists_rdropWhile_append (flags : List Flags) :
    ∃ count, flags.rdropWhile isNone ++ List.replicate count .none = flags := by
  induction flags using List.reverseRecOn with
  | nil => exact ⟨0, rfl⟩
  | append_singleton rest last ih =>
      by_cases h : last.isNone
      · obtain ⟨count, ih⟩ := ih
        refine ⟨count + 1, ?_⟩
        rw [List.rdropWhile_concat_pos _ _ _ h, List.replicate_succ', ← List.append_assoc, ih,
          isNone_iff.mp h]
      · refine ⟨0, ?_⟩
        rw [List.rdropWhile_concat_neg _ _ _ h, List.replicate_zero, List.append_nil]

-- Flags are told by those up to the last that are any, and by how many there are.
theorem eq_of_rdropWhile {flags others : List Flags} (hlength : flags.length = others.length)
    (h : flags.rdropWhile isNone = others.rdropWhile isNone) : flags = others := by
  obtain ⟨count, hflags⟩ := exists_rdropWhile_append flags
  obtain ⟨count', hothers⟩ := exists_rdropWhile_append others
  rw [← hflags, ← hothers, h, List.length_append, List.length_append, List.length_replicate,
    List.length_replicate, Nat.add_left_cancel_iff] at hlength
  rw [← hflags, ← hothers, h, hlength]

end Flags

namespace Graph

variable {graph other : Graph}

-- What the nodes and the ports of a graph are called in another one with the same names: a
-- node goes by its name, and a port by that of its node and its place there.
def twins (graph other : Graph) : Renaming where
  node n := ((graph.uuidOf? n).bind other.findByUuid).getD n
  port p :=
    ((graph.port? p).bind fun port =>
      (graph.portRef? p).bind (other.portNamed? port.direction)).getD p

-- The nodes and the ports of another graph are those of this one under other names, one for
-- one. What outlives a session means the same in both: the name of a node, and the
-- reference of a port.
structure Renamed (there : Renaming) (graph other : Graph) : Prop where
  nodes : Set.BijOn there.node {n | graph.Live n} {n | other.Live n}
  ports : Set.BijOn there.port {p | ∃ port, graph.port? p = some port}
    {p | ∃ port, other.port? p = some port}
  named : ∀ uuid, other.findByUuid uuid = (graph.findByUuid uuid).map there.node
  placed : ∀ direction ref,
    other.portNamed? direction ref = (graph.portNamed? direction ref).map there.port

-- What comes of the document of a graph: nodes of the same names, with all that was set on
-- them and on their ports, and joined in the same way.
structure Copy (graph other : Graph) : Prop where
  settings : other.settings = graph.settings
  forth : ∀ {n node}, graph.node? n = some node → ∃ n' node', other.node? n' = some node' ∧
    Peer graph other node node' ∧ node'.properties = node.properties ∧
    ∀ direction, (node'.side direction).map (fun p => ((other.port? p).map (·.flags)).getD .none) =
      (node.side direction).map fun p => ((graph.port? p).map (·.flags)).getD .none
  back : ∀ {n' node'}, other.node? n' = some node' →
    ∃ n node, graph.node? n = some node ∧ node.uuid = node'.uuid
  standIns : ∀ direction ref, other.standIn? direction ref = graph.standIn? direction ref
  feeders : ∀ ref, other.feeders ref = graph.feeders ref

namespace Copy

variable (hc : Copy graph other) (hw : graph.Wired) (hn : graph.Named) (hw' : other.Wired)
  (hn' : other.Named)

include hc hn' in
theorem node {n : NodeId} {node : Node} (h : graph.node? n = some node) :
    ∃ node', other.node? ((twins graph other).node n) = some node' ∧ Peer graph other node node' ∧
      node'.properties = node.properties ∧
      ∀ direction, (node'.side direction).map (fun p =>
          ((other.port? p).map (·.flags)).getD .none) =
        (node.side direction).map fun p => ((graph.port? p).map (·.flags)).getD .none := by
  obtain ⟨n', node', hnode', hpeer, hrest⟩ := hc.forth h
  have hname : other.findByUuid node.uuid = some n' :=
    hn'.findByUuid_eq_some_iff.mpr ⟨node', hnode', hpeer.uuid⟩
  have htwin : (twins graph other).node n = n' := by
    simp only [twins, uuidOf?, h, Option.map_some, Option.bind_some, hname, Option.getD_some]
  exact ⟨node', htwin ▸ hnode', hpeer, hrest⟩

-- A port of the other graph under the same reference is the twin.
theorem port_eq {p q : PortId} {port : Port} {ref : PortRef} (hp : graph.port? p = some port)
    (href : graph.portRef? p = some ref) (hq : other.portNamed? port.direction ref = some q) :
    (twins graph other).port p = q := by
  simp only [twins, hp, Option.bind_some, href, hq, Option.getD_some]

include hc hw hw' hn' in
theorem port {p : PortId} {port : Port} (hp : graph.port? p = some port) :
    ∃ port', other.port? ((twins graph other).port p) = some port' ∧
      port'.node = (twins graph other).node port.node ∧ port'.index = port.index ∧
      port'.direction = port.direction ∧ port'.look = port.look ∧ port'.flags = port.flags ∧
      other.portRef? ((twins graph other).port p) = graph.portRef? p := by
  obtain ⟨node, hnode⟩ := hw.owner hp
  obtain ⟨node', hnode', hpeer, -, hflags⟩ := hc.node hn' hnode
  have hat := hw.owned hp
  rw [portAt?_eq, hnode, Option.bind_some] at hat
  obtain ⟨q, hq, hlook⟩ := hpeer.exists_side hat
  obtain ⟨port', hport', hplace, hd, hindex⟩ := hw'.side_placed hnode' hq
  have href : graph.portRef? p = some ⟨node.uuid, port.index⟩ :=
    portRef?_eq_some_iff.mpr ⟨port, node, hp, hnode, rfl⟩
  have href' : other.portRef? q = some ⟨node.uuid, port.index⟩ :=
    portRef?_eq_some_iff.mpr ⟨port', node', hport', hplace ▸ hnode', by rw [hpeer.uuid, hindex]⟩
  have hnamed : other.portNamed? port.direction ⟨node.uuid, port.index⟩ = some q :=
    (hn'.portNamed?_eq_some_iff hw').mpr ⟨port', hport', hd, href'⟩
  have htwin := port_eq hp href hnamed
  have hsame := congrArg (·[port.index]?) (hflags port.direction)
  simp only [List.getElem?_map, hat, hq, Option.map_some, hp, hport', Option.getD_some,
    Option.some.injEq] at hsame
  rw [hp, hport', Option.map_some, Option.map_some] at hlook
  rw [htwin]
  exact ⟨port', hport', hplace, hindex, hd, Option.some.inj hlook, hsame, href'.trans href.symm⟩

include hc hw hn hw' hn' in
theorem aliasOf {p : PortId} {port port' : Port} (hp : graph.port? p = some port)
    (hp' : other.port? ((twins graph other).port p) = some port') :
    port'.aliasOf = port.aliasOf.map (twins graph other).port := by
  obtain ⟨found, hfound, -, -, hd, -, -, href'⟩ := hc.port hw hw' hn' hp
  obtain rfl := Option.some.inj (hp'.symm.trans hfound)
  obtain ⟨ref, href, -⟩ := hw.exists_portRef hp
  rw [href] at href'
  have hstand := hc.standIns port.direction ref
  rw [standIn?_of_port hw hn hp href, ← hd, standIn?_of_port hw' hn' hp' href'] at hstand
  cases ht : port.aliasOf with
  | none =>
      rw [ht] at hstand
      cases ht' : port'.aliasOf with
      | none => rfl
      | some t' =>
          obtain ⟨target, htarget, -⟩ := hw'.target hp' ht'
          obtain ⟨tref, htref, -⟩ := hw'.exists_portRef htarget
          rw [ht', Option.bind_some, htref] at hstand
          cases hstand
  | some t =>
      obtain ⟨target, htarget, htd⟩ := hw.target hp ht
      obtain ⟨tref, htref, -⟩ := hw.exists_portRef htarget
      rw [ht, Option.bind_some, htref] at hstand
      obtain ⟨t', ht', htref'⟩ := Option.bind_eq_some_iff.mp hstand
      obtain ⟨target', htarget', htd'⟩ := hw'.target hp' ht'
      rw [ht', Option.map_some, port_eq htarget htref ((hn'.portNamed?_eq_some_iff hw').mpr
        ⟨target', htarget', htd'.trans (hd.trans htd.symm), htref'⟩)]

include hw hw' hn' in
-- Outputs of the two graphs under the same references are twins, one by one.
theorem map_eq {items others : List PortId}
    (hitems : ∀ s ∈ items, ∃ port, graph.port? s = some port ∧ port.direction = .output)
    (hothers : ∀ s ∈ others, ∃ port, other.port? s = some port ∧ port.direction = .output)
    (h : others.filterMap other.portRef? = items.filterMap graph.portRef?) :
    others = items.map (twins graph other).port := by
  induction items generalizing others with
  | nil =>
      cases others with
      | nil => rfl
      | cons t more =>
          obtain ⟨port', hp', -⟩ := hothers t List.mem_cons_self
          obtain ⟨ref, href, -⟩ := hw'.exists_portRef hp'
          rw [List.filterMap_cons_some href] at h
          cases h
  | cons s rest ih =>
      obtain ⟨port, hp, hd⟩ := hitems s List.mem_cons_self
      obtain ⟨ref, href, -⟩ := hw.exists_portRef hp
      rw [List.filterMap_cons_some href] at h
      cases others with
      | nil => cases h
      | cons t more =>
          obtain ⟨port', hp', hd'⟩ := hothers t List.mem_cons_self
          obtain ⟨ref', href', -⟩ := hw'.exists_portRef hp'
          rw [List.filterMap_cons_some href', List.cons.injEq] at h
          obtain ⟨rfl, hrest⟩ := h
          rw [List.map_cons, port_eq hp href ((hn'.portNamed?_eq_some_iff hw').mpr
            ⟨port', hp', hd'.trans hd.symm, href'⟩)]
          exact congrArg _ (ih (fun s hs => hitems s (List.mem_cons_of_mem _ hs))
            (fun t ht => hothers t (List.mem_cons_of_mem _ ht)) hrest)

include hc hw hn hw' hn' in
theorem fedBy {p : PortId} {port port' : Port} (hp : graph.port? p = some port)
    (hp' : other.port? ((twins graph other).port p) = some port')
    (hd : port.direction = .input) :
    other.fedBy port' = (graph.fedBy port).map (twins graph other).port := by
  obtain ⟨found, hfound, -, -, hd', -, -, href'⟩ := hc.port hw hw' hn' hp
  obtain rfl := Option.some.inj (hp'.symm.trans hfound)
  obtain ⟨ref, href, -⟩ := hw.exists_portRef hp
  rw [href] at href'
  refine map_eq hw hw' hn' (fun s hs => hw.mem_fedBy hs) (fun s hs => hw'.mem_fedBy hs) ?_
  have hfeed := hc.feeders ref
  rw [feeders_of_port hw hn hp hd href, feeders_of_port hw' hn' hp' (hd'.trans hd) href'] at hfeed
  simpa only [Graph.fedBy, List.filterMap_map, Function.comp_def] using hfeed

include hc hw hn hw' hn' in
theorem counterpart {p : PortId} {port : Port} (hp : graph.port? p = some port) :
    ∃ port', other.port? ((twins graph other).port p) = some port' ∧
      Counterpart (twins graph other) graph other port port' := by
  obtain ⟨port', hp', hnode, hindex, hd, hlook, hflags, -⟩ := hc.port hw hw' hn' hp
  have hfed := hc.fedBy hw hn hw' hn' hp hp'
  refine ⟨port', hp', hnode, hindex, congrArg (·.1) hlook, hd, hflags, congrArg (·.2.2) hlook,
    hc.aliasOf hw hn hw' hn' hp hp', fun hin => ?_, hfed⟩
  rw [← hw'.isEmpty_fedBy hp', ← hw.isEmpty_fedBy hp, hfed hin, List.isEmpty_map]

include hc hw hn' in
theorem side {n : NodeId} {node node' : Node} (hnode : graph.node? n = some node)
    (hnode' : other.node? ((twins graph other).node n) = some node') (hw' : other.Wired)
    (direction : Direction) :
    node'.side direction = (node.side direction).map (twins graph other).port := by
  obtain ⟨found, hfound, hpeer, -⟩ := hc.node hn' hnode
  obtain rfl := Option.some.inj (hnode'.symm.trans hfound)
  have hlength : (node'.side direction).length = (node.side direction).length := by
    simpa using congrArg List.length (hpeer.looks direction)
  refine List.ext_getElem? fun index => ?_
  rw [List.getElem?_map]
  cases hp : (node.side direction)[index]? with
  | none =>
      rw [List.getElem?_eq_none_iff] at hp
      rw [Option.map_none, List.getElem?_eq_none_iff, hlength]
      exact hp
  | some p =>
      obtain ⟨port, hport, rfl, rfl, rfl⟩ := hw.side_placed hnode hp
      obtain ⟨port', hport', hplace, hindex, hd, -⟩ := hc.port hw hw' hn' hport
      have hat := hw'.owned hport'
      rwa [portAt?_eq, hplace, hnode', Option.bind_some, hindex, hd] at hat

include hc hw hn hw' hn' in
theorem mirror : Mirror (twins graph other) graph other graph.Live where
  hops := by rw [hc.settings]
  node := by
    intro n node _ hnode
    obtain ⟨node', hnode', hpeer, hproperties, -⟩ := hc.node hn' hnode
    exact ⟨node', hnode', hpeer.uuid, hproperties, hpeer.units,
      hc.side hw hn' hnode hnode' hw'⟩
  gone := by
    rintro n ⟨node, hnode⟩ hnone
    rw [hnode] at hnone
    cases hnone
  port hp _ := hc.counterpart hw hn hw' hn' hp

include hc hn hn' in
theorem node_injective {n m : NodeId} (h : graph.Live n) (h' : graph.Live m)
    (heq : (twins graph other).node n = (twins graph other).node m) : n = m := by
  obtain ⟨node, hnode⟩ := h
  obtain ⟨found, hfound⟩ := h'
  obtain ⟨node', hnode', hpeer, -⟩ := hc.node hn' hnode
  obtain ⟨found', hfound', hpeer', -⟩ := hc.node hn' hfound
  rw [heq] at hnode'
  obtain rfl := Option.some.inj (hnode'.symm.trans hfound')
  exact hn.id_eq_of_uuid hnode hfound (hpeer.uuid.symm.trans hpeer'.uuid)

include hc hn hn' in
theorem findByUuid_eq (uuid : Uuid) :
    other.findByUuid uuid = (graph.findByUuid uuid).map (twins graph other).node := by
  cases h : graph.findByUuid uuid with
  | some n =>
      obtain ⟨node, hnode, huuid⟩ := hn.findByUuid_eq_some_iff.mp h
      obtain ⟨node', hnode', hpeer, -⟩ := hc.node hn' hnode
      exact hn'.findByUuid_eq_some_iff.mpr ⟨node', hnode', hpeer.uuid.trans huuid⟩
  | none =>
      refine Option.eq_none_iff_forall_ne_some.mpr fun n' hname => ?_
      obtain ⟨node', hnode', rfl⟩ := hn'.findByUuid_eq_some_iff.mp hname
      obtain ⟨n, node, hnode, huuid⟩ := hc.back hnode'
      rw [hn.findByUuid_eq_some_iff.mpr ⟨node, hnode, huuid⟩] at h
      cases h

include hc hw hw' hn' in
-- Every port has a twin.
theorem exists_port {q : PortId} {port' : Port} (hq : other.port? q = some port') :
    ∃ p port, graph.port? p = some port ∧ (twins graph other).port p = q := by
  obtain ⟨node', hnode'⟩ := hw'.owner hq
  obtain ⟨n, node, hnode, huuid⟩ := hc.back hnode'
  obtain ⟨found, hfound, hpeer, -⟩ := hc.node hn' hnode
  have htwin := hn'.id_eq_of_uuid hfound hnode' (hpeer.uuid.trans huuid)
  have hat := hw'.owned hq
  rw [portAt?_eq, hnode', Option.bind_some, hc.side hw hn' hnode (htwin ▸ hnode') hw',
    List.getElem?_map] at hat
  obtain ⟨p, hp, heq⟩ := Option.map_eq_some_iff.mp hat
  obtain ⟨port, hport, -⟩ := hw.side_placed hnode hp
  exact ⟨p, port, hport, heq⟩

include hc hw hn hw' hn' in
theorem portNamed?_eq (direction : Direction) (ref : PortRef) :
    other.portNamed? direction ref =
      (graph.portNamed? direction ref).map (twins graph other).port := by
  cases h : graph.portNamed? direction ref with
  | some p =>
      obtain ⟨port, hp, rfl, href⟩ := (hn.portNamed?_eq_some_iff hw).mp h
      obtain ⟨port', hp', -, -, hd, -, -, href'⟩ := hc.port hw hw' hn' hp
      exact (hn'.portNamed?_eq_some_iff hw').mpr ⟨port', hp', hd, href'.trans href⟩
  | none =>
      refine Option.eq_none_iff_forall_ne_some.mpr fun q hq => ?_
      obtain ⟨port', hport', rfl, href'⟩ := (hn'.portNamed?_eq_some_iff hw').mp hq
      obtain ⟨p, port, hp, rfl⟩ := hc.exists_port hw hw' hn' hport'
      obtain ⟨found, hfound, -, -, hd, -, -, href⟩ := hc.port hw hw' hn' hp
      obtain rfl := Option.some.inj (hport'.symm.trans hfound)
      rw [(hn.portNamed?_eq_some_iff hw).mpr ⟨port, hp, hd.symm, href.symm.trans href'⟩] at h
      cases h

end Copy

-- The functions of built-in nodes fail for nothing that goes by its place in a graph.
theorem Stocked.result_run (hg : Stocked graph) (there : Renaming) {n : NodeId} {o : Nat}
    {unit : EvalUnit} (h : graph.unit? n o = some unit) (inputs : EvalInputs) :
    there.result (unit.run inputs) = unit.run inputs := by
  obtain ⟨node, hn, hu⟩ := Option.bind_eq_some_iff.mp h
  obtain ⟨tag, given, template, hcreate, hmade⟩ := hg.catalogued hn
  have hmem : unit ∈ template.units := hmade.units ▸ List.mem_of_find?_eq_some hu
  exact there.result_eq_self ((Registry.computes_of_create hcreate hmem).unkeyed inputs)

theorem Copy.double (hc : Copy graph other) (hg : Stocked graph) (hw' : other.Wired)
    (hn' : other.Named) : Double (twins graph other) graph other where
  mirror := hc.mirror hg.reachable.healthy.wired hg.reachable.named hw' hn'
  injective := hc.node_injective hg.reachable.named hn'
  depth := by rw [hc.settings]
  run := hg.result_run _

theorem Copy.renamed (hc : Copy graph other) (hg : Stocked graph) (hw' : other.Wired)
    (hn' : other.Named) : Renamed (twins graph other) graph other where
  nodes := by
    refine ⟨?_, ?_, ?_⟩
    · rintro n ⟨node, hnode⟩
      obtain ⟨node', hnode', -⟩ := hc.node hn' hnode
      exact ⟨node', hnode'⟩
    · exact fun n h m h' heq => hc.node_injective hg.reachable.named hn' h h' heq
    · rintro n' ⟨node', hnode'⟩
      obtain ⟨n, node, hnode, huuid⟩ := hc.back hnode'
      obtain ⟨found, hfound, hpeer, -⟩ := hc.node hn' hnode
      exact ⟨n, ⟨node, hnode⟩, hn'.id_eq_of_uuid hfound hnode' (hpeer.uuid.trans huuid)⟩
  ports := by
    have hw := hg.reachable.healthy.wired
    refine ⟨?_, ?_, ?_⟩
    · rintro p ⟨port, hp⟩
      obtain ⟨port', hp', -⟩ := hc.port hw hw' hn' hp
      exact ⟨port', hp'⟩
    · rintro p ⟨port, hp⟩ q ⟨found, hq⟩ heq
      exact (hc.double hg hw' hn').port_injective hw hp hq heq
    · rintro q ⟨port', hq⟩
      obtain ⟨p, port, hp, heq⟩ := hc.exists_port hw hw' hn' hq
      exact ⟨p, ⟨port, hp⟩, heq⟩
  named := hc.findByUuid_eq hg.reachable.named hn'
  placed := hc.portNamed?_eq hg.reachable.healthy.wired hg.reachable.named hw' hn'

-- What is restored from the document of a graph is a copy of it.
theorem Copy.of_restore (hg : Stocked graph) (hcounted : graph.Counted)
    (h : restore graph.save .core graph.settings = .ok other) : Copy graph other := by
  have hw := hg.reachable.healthy.wired
  have hn := hg.reachable.named
  have ho := hg.reachable.outlined
  have hn' := (Reachable.restored h).named
  obtain ⟨filled, nested, hfilled, hnested, hlinked⟩ :=
    linked_of_restore (complete hw hn ho hg.reachable.legal.single).aliasesOnce h
  have hreplica := (replica_of_nested hg hcounted hfilled hnested).linked hw hn ho hlinked
    (fun _ hmem => hmem) (fun _ hmem => hmem)
  constructor
  case settings => exact hreplica.settings
  case forth =>
    intro n node hnode
    obtain ⟨n', node', hnode', hpeer⟩ := hreplica.forth hnode
    obtain ⟨saved, hsaved⟩ := exists_saveNode? hnode
    obtain ⟨saved', hsaved'⟩ := exists_saveNode? hnode'
    obtain ⟨-, hproperties, hflags⟩ := saveNode?_fields hnode hsaved
    obtain ⟨-, hproperties', hflags'⟩ := saveNode?_fields hnode' hsaved'
    obtain ⟨found, hfound, hname, -⟩ := saveNode?_eq_some hsaved
    obtain rfl := Option.some.inj (hnode.symm.trans hfound)
    obtain ⟨made, first, hfirst, huuid, hloose⟩ :=
      exists_restored hg hnested hlinked hfilled hnode hsaved
    obtain rfl := hn'.id_eq_of_uuid hfirst hnode' (huuid.trans (hname.trans hpeer.uuid.symm))
    rw [hsaved', Option.map_some] at hloose
    have hsame : saved'.loose = saved.loose := Option.some.inj hloose
    refine ⟨_, node', hnode', hpeer, ?_, fun direction => ?_⟩
    · have heq := congrArg SavedNode.properties hsame
      exact hproperties'.symm.trans (heq.trans hproperties)
    · have hlength := congrArg List.length (hpeer.looks direction)
      rw [List.length_map, List.length_map] at hlength
      refine Flags.eq_of_rdropWhile (by rwa [List.length_map, List.length_map]) ?_
      rw [← savedFlags_eq, ← savedFlags_eq, ← hflags, ← hflags']
      have hinputs := congrArg SavedNode.inputFlags hsame
      have houtputs := congrArg SavedNode.outputFlags hsame
      cases direction with
      | input => exact hinputs
      | output => exact houtputs
  case back =>
    intro n' node' hnode'
    obtain ⟨n, node, hnode, hpeer⟩ := hreplica.back hnode'
    exact ⟨n, node, hnode, hpeer.uuid.symm⟩
  case standIns => exact hlinked.standIn?_eq hg
  case feeders => exact hlinked.feeders_eq hg

section Stale

-- Every node invalidated.
def outdated (graph : Graph) : Graph :=
  graph.run (graph.nodes.ids.map .invalidate)

theorem run_invalidate (graph : Graph) (ids : List NodeId) :
    graph.run (ids.map .invalidate) = ids.foldl invalidate graph := by
  rw [run, List.foldl_map]
  rfl

theorem bare_outdated (graph : Graph) : graph.outdated.bare = graph.bare := by
  rw [outdated, run_invalidate, bare_invalidateAll]

theorem not_freshAt_outdated (hw : graph.Wired) (n : NodeId) (o : Nat) :
    ¬ graph.outdated.FreshAt n o := by
  rw [outdated, run_invalidate]
  intro hf
  obtain ⟨hreached, slot, hslot, -⟩ := freshAt_invalidateAll hf
  obtain ⟨node, hn⟩ := live_of_ownSlot? hslot
  exact hreached n ((graph.nodes.mem_ids_iff n).mpr ⟨node, hn⟩) (hw.mem_downstream_self n)

-- No edit makes anything fresh.
theorem Edits.freshAt (h : Edits graph other) (hw : graph.Wired) {n : NodeId} {o : Nat}
    (hf : other.FreshAt n o) : graph.FreshAt n o := by
  induction h with
  | refl => exact hf
  | tail hedits hedit ih =>
      obtain ⟨S, hS⟩ := hedit.untouched (Edits.wired hedits hw)
      exact ih (hS.freshAt hf)

-- Nothing is kept in what comes from a document.
theorem not_freshAt_restored {snapshot : Snapshot} {registry : Registry} {settings : Settings}
    (h : restore snapshot registry settings = .ok other) (n : NodeId) (o : Nat) :
    ¬ other.FreshAt n o := by
  intro hf
  obtain ⟨slot, hslot, -⟩ := (edits_of_restore h).freshAt (.new settings) hf
  cases hslot

end Stale

-- The document of a graph with built-in nodes, whose groups say how many ports they have,
-- loads again, and what comes of it evaluates like the graph once nothing in this is up to
-- date. It has the same nodes and ports under other names, and every output of every node
-- has the same value, or fails in the same way but for these names. Limits on depth and on
-- aliases strike in the same places.
theorem reloaded_evaluates_alike (hg : Stocked graph) (hc : graph.Counted) :
    ∃ other, restore graph.save .core graph.settings = .ok other ∧
      Renamed (twins graph other) graph other ∧
      ∀ uuid n, graph.findByUuid uuid = some n →
        ∃ n', other.findByUuid uuid = some n' ∧ ∀ output, (other.evaluate n' output).1 =
          (twins graph other).result (graph.outdated.evaluate n output).1 := by
  obtain ⟨other, h⟩ := exists_restore hg hc
  have hcopy := Copy.of_restore hg hc h
  have hg' : Reachable other := .restored h
  have hw := hg.reachable.healthy.wired
  have hrenamed := hcopy.renamed hg hg'.healthy.wired hg'.named
  refine ⟨other, h, hrenamed, fun uuid n hname => ?_⟩
  refine ⟨_, by rw [hrenamed.named, hname, Option.map_some], fun output => ?_⟩
  obtain ⟨node, hnode, -⟩ := hg.reachable.named.findByUuid_eq_some_iff.mp hname
  have hoverdue : Reachable graph.outdated := hg.reachable.run _
  exact ((hcopy.double hg hg'.healthy.wired hg'.named).of_bare (bare_outdated graph) rfl).evaluate
    hoverdue.healthy hg'.healthy (not_freshAt_outdated hw) (not_freshAt_restored h)
    (live_of_bare (bare_outdated graph) ⟨node, hnode⟩) output

-- A group that was evaluated before it was saved: its reader counts what comes from inside,
-- and has one output only.
def consulted : Graph :=
  grouped.run [.evaluate ⟨3⟩ 0]

theorem consulted_spared : Spared consulted :=
  grouped_spared.run (by simp [Operation.BuiltIn]) (by simp [Operation.SparesCounts])

theorem consulted_evaluates_alike : ∃ other n,
    restore consulted.save .core consulted.settings = .ok other ∧
      other.findByUuid ⟨3⟩ = some n ∧ (other.evaluate n 0).1 = .ok (.scalar (.int 1)) ∧
      (other.evaluate n 1).1 = .error (.outputOutOfRange n 1) := by
  obtain ⟨other, h, hrenamed, halike⟩ :=
    reloaded_evaluates_alike consulted_spared.stocked_counted.1 consulted_spared.stocked_counted.2
  have hhere : consulted.findByUuid ⟨3⟩ = some ⟨3⟩ := by decide
  obtain ⟨n, hname, hevaluate⟩ := halike ⟨3⟩ ⟨3⟩ hhere
  have hvalue : (consulted.outdated.evaluate ⟨3⟩ 0).1 = .ok (.scalar (.int 1)) := by
    decide +kernel
  have hfailure : (consulted.outdated.evaluate ⟨3⟩ 1).1 = .error (.outputOutOfRange ⟨3⟩ 1) := by
    decide +kernel
  have hkey := hrenamed.named ⟨3⟩
  rw [hname, hhere, Option.map_some] at hkey
  refine ⟨other, n, h, hname, ?_, ?_⟩
  · rw [hevaluate, hvalue, Renaming.result_ok]
  · rw [hevaluate, hfailure, Renaming.result_error, Renaming.error, Option.some.inj hkey]

end Graph

end Dataflow
