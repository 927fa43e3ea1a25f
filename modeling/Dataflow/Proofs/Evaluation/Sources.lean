import Dataflow.Evaluation.Reading
import Dataflow.Proofs.Graph.Acyclic
import Dataflow.Proofs.Graph.Follows

namespace Dataflow.Graph

open Relation

variable {graph : Graph}

-- A walk ends at a port of the direction in which it set out, where the walk shall stop
-- or there is no further alias. Everything on the way depends on its end.
theorem Wired.walk_end (hw : graph.Wired) {stop : Port → Bool} {p : PortId} {port : Port}
    {chain : Chain} (hp : graph.port? p = some port) (h : graph.Follows stop p chain) :
    ∃ last, graph.port? chain.last = some last ∧ last.direction = port.direction ∧
      (stop last = true ∨ last.aliasOf = none) ∧ ReflTransGen graph.Arc chain.last p := by
  induction h generalizing port with
  | stay hp' hstop =>
      obtain rfl := Option.some.inj (hp'.symm.trans hp)
      exact ⟨_, hp, rfl, hstop, .refl⟩
  | pass hp' _ ha _ ih =>
      obtain rfl := Option.some.inj (hp'.symm.trans hp)
      obtain ⟨target, ht, htd⟩ := hw.target hp ha
      obtain ⟨last, hl, hd, hstop, hpath⟩ := ih ht
      exact ⟨last, hl, hd.trans htd, hstop, hpath.tail (.forwards hp ha)⟩

-- A producer is an output that computes on its own, and the input depends on it.
theorem Wired.mem_producers (hw : graph.Wired) {input s : PortId} {port : Port}
    (hp : graph.port? input = some port) (hd : port.direction = .input)
    (h : s ∈ graph.producers input) :
    ∃ source, graph.port? s = some source ∧ source.direction = .output ∧
      source.aliasOf = none ∧ TransGen graph.Arc s input := by
  simp only [producers] at h
  split at h
  · simp at h
  next chain hc =>
  obtain ⟨last, hl, hld, -, hinput⟩ := hw.walk_end hp (chainFrom_eq_ok_iff.mp hc).1
  rw [hl] at h
  obtain ⟨edge, hedge, hs⟩ := List.mem_filterMap.mp h
  obtain ⟨e, he, hedge⟩ := List.mem_filterMap.mp hedge
  obtain ⟨start, hstart, hout, -⟩ := hw.source hedge
  have hdest := hw.destination_eq hl (hld.trans hd) he hedge
  simp only [aliasEnd] at hs
  cases hfar : graph.aliasChain edge.source with
  | error e => simp [hfar, Except.map, Except.toOption] at hs
  | ok far =>
      obtain rfl : far.last = s := by simpa [hfar, Except.map, Except.toOption] using hs
      obtain ⟨source, hsource, hsd, hstop, hfirst⟩ :=
        hw.walk_end hstart (chainFrom_eq_ok_iff.mp hfar).1
      refine ⟨source, hsource, hsd.trans hout, by simpa using hstop, ?_⟩
      have hedge' : graph.Arc edge.source chain.last := hdest ▸ .along hedge
      exact (TransGen.tail' hfirst hedge').trans_left hinput

-- The same for all that an output reads.
theorem Wired.mem_sources (hw : graph.Wired) {n : NodeId} {o : Nat} {s : PortId}
    (h : s ∈ graph.sources n o) :
    ∃ out source, graph.outputPort? n o = some out ∧ graph.port? s = some source ∧
      source.direction = .output ∧ source.aliasOf = none ∧ TransGen graph.Arc s out := by
  simp only [sources, unit?] at h
  cases hn : graph.node? n with
  | none => simp [hn] at h
  | some node =>
      cases hu : node.unit? o with
      | none => simp [hn, hu] at h
      | some unit =>
          have hmem : unit ∈ node.units := List.mem_of_find?_eq_some hu
          have ho : unit.output = o := by simpa using List.find?_some hu
          simp only [hn, Option.bind_some, hu] at h
          obtain ⟨input, hinput, hs⟩ := List.mem_flatMap.mp h
          obtain ⟨i, -, hi⟩ := List.mem_filterMap.mp hinput
          obtain ⟨port, hp, -, hdir⟩ := hw.input_placed hi
          obtain ⟨source, hsource, hsd, hsa, hpath⟩ := hw.mem_producers hp hdir hs
          have hlt : o < node.outputs.length := ho ▸ (hw.units hn hmem).1
          have hout : graph.outputPort? n o = some node.outputs[o] := by
            simp [outputPort?, hn, hlt]
          have hin : input ∈ node.inputs := by
            simp only [inputPort?, hn, Option.bind_some] at hi
            exact List.mem_of_getElem? hi
          exact ⟨_, source, hout, hsource, hsd, hsa,
            hpath.tail (.through hn (List.ne_nil_of_mem hmem) hin (List.getElem_mem hlt))⟩

-- How many ports lead to a port. It grows along dependencies.
def rank (graph : Graph) (p : PortId) : Nat :=
  (graph.ports.ids.filter fun q => graph.leadsTo q p).length

theorem Wired.rank_lt (hw : graph.Wired) (ha : graph.Acyclic) {a b : PortId}
    (h : TransGen graph.Arc a b) : graph.rank a < graph.rank b := by
  have hsub : (graph.ports.ids.filter fun q => graph.leadsTo q a) =
      (graph.ports.ids.filter fun q => graph.leadsTo q b).filter fun q => graph.leadsTo q a := by
    rw [List.filter_filter]
    refine List.filter_congr fun q _ => ?_
    cases hq : graph.leadsTo q a with
    | false => rfl
    | true =>
        rw [hw.leadsTo_iff] at hq
        simpa using (hw.leadsTo_iff q b).mpr (hq.trans h.to_reflTransGen)
  rw [rank, hsub]
  refine List.length_filter_lt_length_iff_exists.mpr ⟨b, List.mem_filter.mpr ⟨?_, ?_⟩, ?_⟩
  · obtain ⟨c, -, hc⟩ := TransGen.tail'_iff.mp h
    exact (graph.ports.mem_ids_iff b).mpr (hw.live_of_arc hc).2
  · exact (hw.leadsTo_iff b b).mpr .refl
  · rw [hw.leadsTo_iff]
    intro hba
    exact ha a (h.trans_left hba)

def rankAt (graph : Graph) (n : NodeId) (o : Nat) : Nat :=
  match graph.outputPort? n o with
  | some out => graph.rank out
  | none => 0

theorem locate_eq_ok_iff (p : PortId) (n : NodeId) (o : Nat) :
    graph.locate p = .ok (n, o) ↔
      ∃ port, graph.port? p = some port ∧ port.node = n ∧ port.index = o := by
  simp only [locate]
  cases graph.port? p with
  | none => simp
  | some port => simp

-- An output has a slot.
theorem Wired.slot_of_output (hw : graph.Wired) {p : PortId} {port : Port}
    (hp : graph.port? p = some port) (hd : port.direction = .output) :
    ∃ slot, graph.ownSlot? port.node port.index = some slot := by
  have ho := hw.owned hp
  obtain ⟨node, hn⟩ := hw.owner hp
  rw [portAt?_eq, hn, hd, Option.bind_some] at ho
  obtain ⟨hlt, -⟩ := List.getElem?_eq_some_iff.mp ho
  have hlt' : port.index < node.slots.length := (hw.slots hn).symm ▸ hlt
  exact ⟨node.slots[port.index], by simp [ownSlot?, hn, hlt']⟩

-- What an output reads ranks lower.
theorem Wired.rankAt_lt (hw : graph.Wired) (ha : graph.Acyclic) {n m : NodeId} {o k : Nat}
    {s : PortId} (h : s ∈ graph.sources n o) (hl : graph.locate s = .ok (m, k)) :
    graph.rankAt m k < graph.rankAt n o := by
  obtain ⟨out, source, hout, hs, hd, -, hpath⟩ := hw.mem_sources h
  obtain ⟨port, hp, rfl, rfl⟩ := (locate_eq_ok_iff _ _ _).mp hl
  obtain rfl := Option.some.inj (hs.symm.trans hp)
  have ho := hw.owned hs
  rw [hd] at ho
  have hso : graph.outputPort? source.node source.index = some s := ho
  rw [rankAt, rankAt, hso, hout]
  exact hw.rank_lt ha hpath

end Dataflow.Graph
