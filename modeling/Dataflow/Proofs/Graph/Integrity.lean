import Dataflow.Proofs.Graph.Wired
import Dataflow.Proofs.Template

namespace Dataflow.Graph

section NewNode

variable (graph : Graph) (template : Template) (uuid : Uuid) (parent : ItemId)

-- A new node has a port for each of its template, made as the template says.
theorem getElem?_newNode (direction : Direction) (index : Nat) :
    ((graph.newNode template uuid).side direction)[index]? = none ∧
        (template.side direction)[index]? = none ∨
      ∃ p spec, ((graph.newNode template uuid).side direction)[index]? = some p ∧
        (template.side direction)[index]? = some spec ∧
        (graph.withNode template uuid parent).port? p =
          some (createdPort graph.nodes.fresh direction index spec) := by
  cases direction with
  | input =>
      by_cases hlt : index < template.inputs.length
      · refine .inr ⟨⟨graph.ports.next + index⟩, template.inputs[index], ?_, ?_, ?_⟩
        · simp [Node.side, newNode, newInputs, hlt]
        · simp [Template.side, hlt]
        · have hnot : ¬ graph.ports.next + index < graph.ports.next := by omega
          rw [port?_withNode, if_neg hnot, if_pos (by simpa using hlt)]
          simp [hlt]
      · refine .inl ⟨?_, ?_⟩
        · simpa [Node.side, newNode, newInputs] using hlt
        · simpa [Template.side] using hlt
  | output =>
      by_cases hlt : index < template.outputs.length
      · refine .inr ⟨⟨graph.ports.next + template.inputs.length + index⟩,
          template.outputs[index], ?_, ?_, ?_⟩
        · simp [Node.side, newNode, newOutputs, hlt]
        · simp [Template.side, hlt]
        · have hnot : ¬ graph.ports.next + template.inputs.length + index < graph.ports.next := by
            omega
          rw [port?_withNode, if_neg hnot, if_neg (by simp)]
          simp [hlt]
      · refine .inl ⟨?_, ?_⟩
        · simpa [Node.side, newNode, newOutputs] using hlt
        · simpa [Template.side] using hlt

-- A port of the graph with a new node was there before, or it is one of the new node's.
theorem port?_withNode_cases {p : PortId} {port : Port}
    (h : (graph.withNode template uuid parent).port? p = some port) :
    graph.port? p = some port ∨ ∃ direction index spec,
      port = createdPort graph.nodes.fresh direction index spec ∧
        ((graph.newNode template uuid).side direction)[index]? = some p := by
  rw [port?_withNode] at h
  split at h
  · exact .inl h
  · next hge =>
    right
    split at h
    · next hlt =>
      obtain ⟨spec, -, rfl⟩ := Option.map_eq_some_iff.mp h
      have hk : p.number - graph.ports.next < template.inputs.length := by omega
      refine ⟨.input, _, spec, rfl, ?_⟩
      simp only [Node.side, newNode, newInputs, List.getElem?_map, List.getElem?_range hk,
        Option.map_some]
      congr 2
      omega
    · next hge' =>
      obtain ⟨spec, hs, rfl⟩ := Option.map_eq_some_iff.mp h
      obtain ⟨hk, -⟩ := List.getElem?_eq_some_iff.mp hs
      refine ⟨.output, _, spec, rfl, ?_⟩
      simp only [Node.side, newNode, newOutputs, List.getElem?_map, List.getElem?_range hk,
        Option.map_some]
      congr 2
      omega

end NewNode

namespace Wired

variable {graph : Graph}

-- Changes to the nodes alone that keep their frames.
theorem of_nodes (hw : graph.Wired) {other : Graph} (hports : other.ports = graph.ports)
    (hedges : other.edges = graph.edges)
    (hnode : ∀ id, (other.node? id).map Node.frame = (graph.node? id).map Node.frame) :
    other.Wired := by
  refine hw.of_frames (fun _ port => port) hnode ?_ ?_ ?_ ?_
  · intro e
    rw [edge?, hedges, edge?]
  · intro p
    rw [port?, hports, port?, Option.map_id_fun']
    rfl
  · intro p port
    exact ⟨rfl, rfl, rfl, rfl⟩
  · exact hw.target

theorem invalidate (hw : graph.Wired) (id : NodeId) : (graph.invalidate id).Wired := by
  refine hw.of_nodes rfl rfl ?_
  intro n
  rw [node?_invalidate, Option.map_map]
  congr 1
  funext node
  simp only [Function.comp]
  split <;> simp

theorem invalidateAll (hw : graph.Wired) (ids : List NodeId) :
    (ids.foldl Graph.invalidate graph).Wired := by
  induction ids generalizing graph with
  | nil => exact hw
  | cons id rest ih => exact ih (hw.invalidate id)

theorem withProperty (hw : graph.Wired) (id : NodeId) (key : String) (value : Nested Value) :
    (graph.withProperty id key value).Wired :=
  hw.of_nodes rfl rfl (frame_withProperty graph id key value)

theorem withPosition (hw : graph.Wired) (id : NodeId) (position : Position) :
    (graph.withPosition id position).Wired :=
  hw.of_nodes rfl rfl (frame_withPosition graph id position)

-- A change of one port that leaves it in its place with its edges.
theorem modifyPort (hw : graph.Wired) (id : PortId) (f : Port → Port)
    (hf : ∀ port, (f port).node = port.node ∧ (f port).index = port.index ∧
      (f port).direction = port.direction ∧ (f port).edges = port.edges)
    (ht : ∀ port t, graph.port? id = some port → (f port).aliasOf = some t →
      ∃ found, graph.port? t = some found ∧ found.direction = port.direction) :
    ({ graph with ports := graph.ports.modify id f } : Graph).Wired := by
  refine hw.of_frames (fun p port => if p = id then f port else port) (fun _ => rfl)
    (fun _ => rfl) (fun p => graph.ports.find?_modify id f p) ?_ ?_
  · intro p port
    split
    · exact hf port
    · exact ⟨rfl, rfl, rfl, rfl⟩
  · intro p port t hp h
    split at h
    · next heq => exact ht port t (heq ▸ hp) h
    · exact hw.target hp h

theorem forward (hw : graph.Wired) {p t : PortId} {port other : Port}
    (hp : graph.port? p = some port) (ht : graph.port? t = some other)
    (hd : port.direction = other.direction) : (graph.forward p t).Wired := by
  refine hw.modifyPort p _ (fun _ => ⟨rfl, rfl, rfl, rfl⟩) ?_
  intro found target hfound htarget
  obtain rfl : port = found := Option.some.inj (hp.symm.trans hfound)
  obtain rfl : t = target := Option.some.inj htarget
  exact ⟨other, ht, hd.symm⟩

theorem withFlags (hw : graph.Wired) (p : PortId) (flags : Flags) :
    (graph.withFlags p flags).Wired :=
  hw.modifyPort p _ (fun _ => ⟨rfl, rfl, rfl, rfl⟩) (fun _ _ h ht => hw.target h ht)

theorem unlink (hw : graph.Wired) (p : PortId) : (graph.unlink p).Wired :=
  hw.modifyPort p _ (fun _ => ⟨rfl, rfl, rfl, rfl⟩) (fun _ _ _ h => nomatch h)

theorem join (hw : graph.Wired) {s d : PortId} {source destination : Port}
    (hs : graph.port? s = some source) (hd : graph.port? d = some destination)
    (hout : source.direction = .output) (hin : destination.direction = .input) :
    (graph.join s d).Wired := by
  -- The new edge has a number of its own, so no list has it yet.
  have hnew : ∀ {p port}, graph.port? p = some port → graph.edges.fresh ∉ port.edges := by
    intro p port hp he
    obtain ⟨edge, hedge, -⟩ := hw.incident hp he
    exact absurd rfl (graph.edges.ne_fresh_of_find? hedge)
  have hsd : s ≠ d := by
    rintro rfl
    obtain rfl : source = destination := Option.some.inj (hs.symm.trans hd)
    rw [hout] at hin
    cases hin
  refine hw.of_places _ (fun _ => rfl) (graph.port?_join s d) (fun _ _ => ⟨rfl, rfl, rfl⟩)
    hw.target ?_ ?_ ?_ ?_
  · intro e edge h
    rw [edge?_join] at h
    split at h
    · next he =>
      obtain rfl := Option.some.inj h
      exact ⟨source, hs, hout, by simp [he]⟩
    · obtain ⟨port, hp, hdir, he⟩ := hw.source h
      exact ⟨port, hp, hdir, by simp [he]⟩
  · intro e edge h
    rw [edge?_join] at h
    split at h
    · next he =>
      obtain rfl := Option.some.inj h
      exact ⟨destination, hd, hin, by simp [he]⟩
    · obtain ⟨port, hp, hdir, he⟩ := hw.destination h
      exact ⟨port, hp, hdir, by simp [he]⟩
  · intro p port e hp he
    rw [edge?_join]
    split
    · next hf =>
      refine ⟨_, rfl, ?_⟩
      by_contra hne
      rw [not_or] at hne
      simp [Ne.symm hne.1, Ne.symm hne.2, hf, hnew hp] at he
    · next hf =>
      refine hw.incident hp ?_
      simp only [List.mem_append] at he
      rcases he with (he | he) | he
      · exact he
      · split at he <;> simp [hf] at he
      · split at he <;> simp [hf] at he
  · intro p port hp
    have hone := List.nodup_append.mpr ⟨hw.listedOnce hp, List.nodup_singleton graph.edges.fresh,
      fun a ha b hb he => hnew hp (List.mem_singleton.mp hb ▸ he ▸ ha)⟩
    by_cases hps : p = s
    · simpa [hps, hsd] using hone
    · by_cases hpd : p = d
      · simpa [hpd, hsd.symm] using hone
      · simpa [hps, hpd] using hw.listedOnce hp

theorem dropEdges (hw : graph.Wired) (ids : List EdgeId) : (graph.dropEdges ids).Wired := by
  refine hw.of_places _ (fun _ => rfl) (graph.port?_dropEdges ids) (fun _ _ => ⟨rfl, rfl, rfl⟩)
    hw.target ?_ ?_ ?_ ?_
  · intro e edge h
    obtain ⟨hn, h⟩ := (edge?_dropEdges_eq_some_iff _ _).mp h
    obtain ⟨port, hp, hdir, he⟩ := hw.source h
    exact ⟨port, hp, hdir, by simp [he, hn]⟩
  · intro e edge h
    obtain ⟨hn, h⟩ := (edge?_dropEdges_eq_some_iff _ _).mp h
    obtain ⟨port, hp, hdir, he⟩ := hw.destination h
    exact ⟨port, hp, hdir, by simp [he, hn]⟩
  · intro p port e hp he
    obtain ⟨he, hn⟩ := List.mem_filter.mp he
    rw [edge?_dropEdges, if_neg (by simpa using hn)]
    exact hw.incident hp he
  · intro p port hp
    exact (hw.listedOnce hp).filter _

-- The port at the end of an edge that stays does not go.
theorem not_mem_of_edge (hw : graph.Wired) {doomed : List NodeId} {p : PortId} {port : Port}
    {e : EdgeId} (hp : graph.port? p = some port) (he : e ∈ port.edges)
    (hn : e ∉ graph.edgesAt (graph.portsOf doomed)) : port.node ∉ doomed := fun hd =>
  hn ((mem_edgesAt_iff _ _ _).mpr ⟨p, (hw.mem_portsOf_iff_node hp).mpr hd, port, hp, he⟩)

theorem withdraw (hw : graph.Wired) (doomed : List NodeId) : (graph.withdraw doomed).Wired := by
  have hat : ∀ id direction index, (graph.withdraw doomed).portAt? id direction index =
      if id ∈ doomed then none else graph.portAt? id direction index := by
    intro id direction index
    rw [portAt?_eq, portAt?_eq, node?_withdraw]
    split <;> rfl
  have hkept : ∀ {p port}, graph.port? p = some port → port.node ∉ doomed →
      (graph.withdraw doomed).port? p = some (graph.trim doomed port) :=
    fun hp hn => hw.port?_withdraw_eq_some_iff.mpr ⟨_, hp, hn, rfl⟩
  have hnode : ∀ {id node}, (graph.withdraw doomed).node? id = some node →
      graph.node? id = some node := fun h => ((node?_withdraw_eq_some_iff _ _).mp h).2
  constructor
  case placed =>
    intro id direction index p h
    rw [hat] at h
    split at h
    · cases h
    · next hn =>
      obtain ⟨port, hp, rfl, rfl, rfl⟩ := hw.placed h
      exact ⟨_, hkept hp hn, rfl, rfl, rfl⟩
  case owned =>
    intro p left h
    obtain ⟨port, hp, hn, rfl⟩ := hw.port?_withdraw_eq_some_iff.mp h
    exact (hat port.node port.direction port.index).trans ((if_neg hn).trans (hw.owned hp))
  case source =>
    intro e edge h
    obtain ⟨hn, h⟩ := (edge?_withdraw_eq_some_iff _ _).mp h
    obtain ⟨port, hp, hdir, he⟩ := hw.source h
    exact ⟨_, hkept hp (hw.not_mem_of_edge hp he hn), hdir,
      (mem_edges_trim_iff _ _).mpr ⟨he, hn⟩⟩
  case destination =>
    intro e edge h
    obtain ⟨hn, h⟩ := (edge?_withdraw_eq_some_iff _ _).mp h
    obtain ⟨port, hp, hdir, he⟩ := hw.destination h
    exact ⟨_, hkept hp (hw.not_mem_of_edge hp he hn), hdir,
      (mem_edges_trim_iff _ _).mpr ⟨he, hn⟩⟩
  case incident =>
    intro p left e h he
    obtain ⟨port, hp, -, rfl⟩ := hw.port?_withdraw_eq_some_iff.mp h
    obtain ⟨he, hn⟩ := (mem_edges_trim_iff _ _).mp he
    rw [edge?_withdraw, if_neg hn]
    exact hw.incident hp he
  case listedOnce =>
    intro p left h
    obtain ⟨port, hp, -, rfl⟩ := hw.port?_withdraw_eq_some_iff.mp h
    exact (hw.listedOnce hp).filter _
  case target =>
    intro p left t h ht
    obtain ⟨port, hp, -, rfl⟩ := hw.port?_withdraw_eq_some_iff.mp h
    obtain ⟨ht, hstays⟩ := (aliasOf_trim_eq_some_iff _ _).mp ht
    obtain ⟨other, ho, hdir⟩ := hw.target hp ht
    exact ⟨_, hkept ho (mt (hw.mem_portsOf_iff_node ho).mpr hstays), hdir⟩
  case slots => exact fun h => hw.slots (hnode h)
  case units => exact fun h => hw.units (hnode h)
  case oneUnit => exact fun h => hw.oneUnit (hnode h)

-- A template without faults makes a node whose ports are all new.
theorem withNode (hw : graph.Wired) (template : Template) (hf : template.fault? = none)
    (uuid : Uuid) (parent : ItemId) : (graph.withNode template uuid parent).Wired := by
  obtain ⟨hunits, hone⟩ := template.fault?_eq_none_iff.mp hf
  have hold := @port?_withNode_of_port? graph template uuid parent
  have hat : ∀ {id} direction index, id ≠ graph.nodes.fresh →
      (graph.withNode template uuid parent).portAt? id direction index =
        graph.portAt? id direction index := by
    intro id direction index h
    rw [portAt?_eq, portAt?_eq, node?_withNode, if_neg h]
  have hnew : ∀ direction index,
      (graph.withNode template uuid parent).portAt? graph.nodes.fresh direction index =
        ((graph.newNode template uuid).side direction)[index]? := by
    intro direction index
    rw [portAt?_eq, node?_withNode_fresh]
    rfl
  -- a new port is in its place and nothing leads to it or from it
  have hback : ∀ {p port}, (graph.withNode template uuid parent).port? p = some port →
      graph.port? p = some port ∨ (port.edges = [] ∧ port.aliasOf = none ∧
        (graph.withNode template uuid parent).portAt? port.node port.direction port.index =
          some p) := by
    intro p port h
    rcases graph.port?_withNode_cases template uuid parent h with
      h | ⟨direction, index, spec, rfl, hp⟩
    · exact .inl h
    · exact .inr ⟨rfl, rfl, (hnew direction index).trans hp⟩
  have hnode : ∀ {id node}, (graph.withNode template uuid parent).node? id = some node →
      graph.node? id = some node ∨ node = graph.newNode template uuid :=
    fun h => ((node?_withNode_eq_some_iff ..).mp h).symm.imp_right (·.2)
  constructor
  case placed =>
    intro id direction index p h
    by_cases hid : id = graph.nodes.fresh
    · subst hid
      rw [hnew] at h
      rcases graph.getElem?_newNode template uuid parent direction index with
        ⟨hnone, -⟩ | ⟨q, spec, hq, -, hcreated⟩
      · cases hnone.symm.trans h
      · obtain rfl := Option.some.inj (hq.symm.trans h)
        exact ⟨_, hcreated, rfl, rfl, rfl⟩
    · rw [hat _ _ hid] at h
      obtain ⟨port, hp, h⟩ := hw.placed h
      exact ⟨port, hold hp, h⟩
  case owned =>
    intro p port h
    rcases hback h with h | ⟨-, -, h⟩
    · obtain ⟨node, hn⟩ := hw.owner h
      rw [hat _ _ (graph.nodes.ne_fresh_of_find? hn)]
      exact hw.owned h
    · exact h
  case source =>
    intro e edge h
    obtain ⟨port, hp, h⟩ := hw.source (e := e) h
    exact ⟨port, hold hp, h⟩
  case destination =>
    intro e edge h
    obtain ⟨port, hp, h⟩ := hw.destination (e := e) h
    exact ⟨port, hold hp, h⟩
  case incident =>
    intro p port e h he
    rcases hback h with h | ⟨hnone, -⟩
    · exact hw.incident h he
    · simp [hnone] at he
  case listedOnce =>
    intro p port h
    rcases hback h with h | ⟨hnone, -⟩
    · exact hw.listedOnce h
    · simp [hnone]
  case target =>
    intro p port t h ht
    rcases hback h with h | ⟨-, hnone, -⟩
    · obtain ⟨other, ho, hd⟩ := hw.target h ht
      exact ⟨other, hold ho, hd⟩
    · simp [hnone] at ht
  case slots =>
    intro id node h
    rcases hnode h with h | rfl
    · exact hw.slots h
    · simp [newNode, newOutputs]
  case units =>
    intro id node unit h hu
    rcases hnode h with h | rfl
    · exact hw.units h hu
    · simpa [newNode, newOutputs, newInputs] using hunits unit hu
  case oneUnit =>
    intro id node h
    rcases hnode h with h | rfl
    · exact hw.oneUnit h
    · exact hone

end Wired

end Dataflow.Graph
