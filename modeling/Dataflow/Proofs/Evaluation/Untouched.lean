import Dataflow.Proofs.Evaluation.Frame
import Dataflow.Proofs.Graph.Downstream
import Dataflow.Proofs.Graph.Edits

namespace Dataflow.Graph

def FreshAt (graph : Graph) (n : NodeId) (o : Nat) : Prop :=
  ∃ slot, graph.ownSlot? n o = some slot ∧ slot.state = .fresh

-- What an edit leaves alone: nodes that read only one another, all as before, with what is
-- kept of them. Whatever else there is afterwards is out of date.
structure Untouched (graph other : Graph) (S : NodeId → Prop) : Prop where
  agree : Agree graph other S
  upstream : Upstream graph S
  slots : ∀ {n} o, S n → other.ownSlot? n o = graph.ownSlot? n o
  fresh : ∀ {n o}, other.FreshAt n o → S n

variable {graph other : Graph} {S : NodeId → Prop}

theorem Untouched.freshAt (h : Untouched graph other S) {n : NodeId} {o : Nat}
    (hf : other.FreshAt n o) : graph.FreshAt n o := by
  have hn := h.fresh hf
  obtain ⟨slot, hslot, hstate⟩ := hf
  exact ⟨slot, h.slots o hn ▸ hslot, hstate⟩

theorem Untouched.trans {last : Graph} {T : NodeId → Prop} (h : Untouched graph other S)
    (h' : Untouched other last T) : Untouched graph last fun n => S n ∧ T n where
  agree :=
    { hops := h'.agree.hops.trans h.agree.hops
      node := fun hn => (h'.agree.node hn.2).trans (h.agree.node hn.1)
      port := by
        intro p port hp hn
        obtain ⟨port', hp', hseen⟩ := h.agree.port hp hn.1
        obtain ⟨hnode, -⟩ := Port.same_of_seen hseen
        obtain ⟨port'', hp'', hseen'⟩ := h'.agree.port hp' (hnode.symm ▸ hn.2)
        exact ⟨port'', hp'', hseen'.trans hseen⟩
      edge := by
        intro p port e hp hn hd he
        obtain ⟨port', hp', hseen⟩ := h.agree.port hp hn.1
        obtain ⟨hnode, -, -, hdir, -, -, -, hlist⟩ := Port.same_of_seen hseen
        rw [h'.agree.edge hp' (hnode.symm ▸ hn.2) (hdir.trans hd) ((hlist hd).symm ▸ he),
          h.agree.edge hp hn.1 hd he] }
  upstream := by
    constructor
    · intro p port t target hp hn ha ht
      have hS := h.upstream.target hp hn.1 ha ht
      obtain ⟨port', hp', hseen⟩ := h.agree.port hp hn.1
      obtain ⟨target', ht', hseen'⟩ := h.agree.port ht hS
      obtain ⟨hnode, -, -, -, -, -, halias, -⟩ := Port.same_of_seen hseen
      obtain ⟨hnode', -⟩ := Port.same_of_seen hseen'
      exact ⟨hS, hnode' ▸ h'.upstream.target hp' (hnode.symm ▸ hn.2) (halias.trans ha) ht'⟩
    · intro p port e edge source hp hn hd he hedge hs
      have hS := h.upstream.edge hp hn.1 hd he hedge hs
      obtain ⟨port', hp', hseen⟩ := h.agree.port hp hn.1
      obtain ⟨source', hs', hseen'⟩ := h.agree.port hs hS
      obtain ⟨hnode, -, -, hdir, -, -, -, hlist⟩ := Port.same_of_seen hseen
      obtain ⟨hnode', -⟩ := Port.same_of_seen hseen'
      have hedge' := (h.agree.edge hp hn.1 hd he).trans hedge
      exact ⟨hS, hnode' ▸ h'.upstream.edge hp' (hnode.symm ▸ hn.2) (hdir.trans hd)
        ((hlist hd).symm ▸ he) hedge' hs'⟩
  slots := fun o hn => (h'.slots o hn.2).trans (h.slots o hn.1)
  fresh := fun hf => ⟨h.fresh (h'.freshAt hf), h'.fresh hf⟩

-- Changes of what no result depends on.
theorem Untouched.of_same (hsettings : other.settings = graph.settings)
    (hports : other.ports = graph.ports) (hedges : other.edges = graph.edges)
    (hnode : ∀ n, (other.node? n).map Node.core = (graph.node? n).map Node.core)
    (hslot : ∀ n o, other.ownSlot? n o = graph.ownSlot? n o) :
    Untouched graph other fun _ => True := by
  refine ⟨⟨?_, fun _ => hnode _, ?_, ?_⟩, .all graph, fun o _ => hslot _ o, fun _ => trivial⟩
  · rw [hsettings]
  · intro p port hp _
    rw [port?, hports]
    exact ⟨port, hp, rfl⟩
  · intro p port e _ _ _ _
    rw [edge?, hedges, edge?]

section Invalidate

theorem ownSlot?_eq_of_node? {n : NodeId} (h : other.node? n = graph.node? n) (o : Nat) :
    other.ownSlot? n o = graph.ownSlot? n o := by
  rw [ownSlot?, h, ownSlot?]

-- What is fresh after an invalidation was not reached by it, and was fresh before.
theorem freshAt_invalidate_iff (a n : NodeId) (o : Nat) :
    (graph.invalidate a).FreshAt n o ↔ n ∉ graph.downstream a ∧ graph.FreshAt n o := by
  simp only [FreshAt, ownSlot?, node?_invalidate]
  cases graph.node? n with
  | none => simp
  | some node =>
      simp only [Option.map_some, Option.bind_some, List.contains_eq_mem]
      by_cases h : n ∈ graph.downstream a
      · simp only [h, decide_true, if_true, not_true_eq_false, false_and, iff_false]
        rintro ⟨slot, hslot, hstate⟩
        obtain ⟨old, -, rfl⟩ : ∃ old, node.slots[o]? = some old ∧
            { old with invalid := true } = slot := by
          simpa [Node.invalidate] using hslot
        simp [Slot.state] at hstate
      · simp [h]

theorem ownSlot?_invalidate_of_not_mem {a n : NodeId} (h : n ∉ graph.downstream a) (o : Nat) :
    (graph.invalidate a).ownSlot? n o = graph.ownSlot? n o := by
  refine ownSlot?_eq_of_node? ?_ o
  simp [node?_invalidate, h]

-- Nodes that no invalidation reaches read nodes of this kind only.
theorem Wired.upstream_clear (hw : graph.Wired) (a : NodeId) :
    Upstream graph (· ∉ graph.downstream a) := by
  constructor
  · intro p port t target hp hn halias ht hmem
    by_cases heq : port.node = target.node
    · exact hn (heq ▸ hmem)
    · exact hn (hw.downstream_trans hmem (hw.dependent_of_alias hp halias ht heq))
  · intro p port e edge source hp hn hd he hedge hs hmem
    exact hn (hw.downstream_trans hmem (hw.dependent_of_edge hp hd he hedge hs))

-- A change at one node, followed by an invalidation from there. Nothing else may look
-- different afterwards.
theorem Untouched.of_change (hwo : other.Wired) (a : NodeId)
    (hsettings : other.settings = graph.settings)
    (hnode : ∀ n, n ≠ a → other.node? n = graph.node? n)
    (hport : ∀ {p port}, graph.port? p = some port → ∃ port', other.port? p = some port' ∧
      port'.node = port.node ∧ (port.node ≠ a → port'.seen = port.seen))
    (hedge : ∀ {p port e}, graph.port? p = some port → port.node ≠ a →
      port.direction = .input → e ∈ port.edges → other.edge? e = graph.edge? e) :
    Untouched graph (other.invalidate a) (· ∉ other.downstream a) := by
  have hne : ∀ {n}, n ∉ other.downstream a → n ≠ a := by
    rintro n hn rfl
    exact hn (hwo.mem_downstream_self n)
  have hclear := hwo.upstream_clear a
  have hup : Upstream graph (· ∉ other.downstream a) := by
    constructor
    · intro p port t target hp hn halias ht
      obtain ⟨port', hp', hpn, hseen⟩ := hport hp
      obtain ⟨target', ht', htn, -⟩ := hport ht
      obtain ⟨-, -, -, -, -, -, halias', -⟩ := Port.same_of_seen (hseen (hne hn))
      exact htn ▸ hclear.target hp' (hpn ▸ hn) (halias'.trans halias) ht'
    · intro p port e edge source hp hn hd he he' hsource
      obtain ⟨port', hp', hpn, hseen⟩ := hport hp
      obtain ⟨source', hs', hsn, -⟩ := hport hsource
      obtain ⟨-, -, -, hdir, -, -, -, hlist⟩ := Port.same_of_seen (hseen (hne hn))
      have he'' := (hedge hp (hne hn) hd he).trans he'
      exact hsn ▸ hclear.edge hp' (hpn ▸ hn) (hdir.trans hd) ((hlist hd).symm ▸ he) he'' hs'
  refine ⟨⟨?_, ?_, ?_, ?_⟩, hup, ?_, ?_⟩
  · rw [settings_invalidate, hsettings]
  · intro n hn
    simp [node?_invalidate, hn, hnode n (hne hn)]
  · intro p port hp hn
    obtain ⟨port', hp', -, hseen⟩ := hport hp
    exact ⟨port', hp', hseen (hne hn)⟩
  · intro p port e hp hn hd he
    exact hedge hp (hne hn) hd he
  · intro n o hn
    rw [ownSlot?_invalidate_of_not_mem hn, ownSlot?_eq_of_node? (hnode n (hne hn))]
  · intro n o h
    exact ((freshAt_invalidate_iff a n o).mp h).1

theorem Untouched.invalidate (hw : graph.Wired) (a : NodeId) :
    Untouched graph (graph.invalidate a) (· ∉ graph.downstream a) :=
  .of_change hw a rfl (fun _ _ => rfl) (fun hp => ⟨_, hp, rfl, fun _ => rfl⟩)
    (fun _ _ _ _ => rfl)

-- A change of one port, followed by an invalidation from its node.
theorem Untouched.modifyPort {p : PortId} {port : Port}
    (hp : graph.port? p = some port) (f : Port → Port) (hf : ∀ q, (f q).node = q.node)
    (hwo : ({ graph with ports := graph.ports.modify p f } : Graph).Wired) :
    Untouched graph (({ graph with ports := graph.ports.modify p f } : Graph).invalidate port.node)
      (· ∉ ({ graph with ports := graph.ports.modify p f } : Graph).downstream port.node) := by
  refine .of_change hwo port.node rfl (fun _ _ => rfl) ?_ (fun _ _ _ _ => rfl)
  intro q found hq
  have hq' := graph.ports.find?_modify p f q
  rw [← port?, hq, Option.map_some] at hq'
  refine ⟨_, hq', ?_, fun hne => ?_⟩
  · split
    · exact hf found
    · rfl
  · rw [if_neg]
    rintro rfl
    exact hne (congrArg Port.node (Option.some.inj (hq.symm.trans hp)))

theorem Untouched.invalidateAll (hw : graph.Wired) (ids : List NodeId) :
    ∃ S, Untouched graph (ids.foldl Graph.invalidate graph) S := by
  induction ids generalizing graph with
  | nil => exact ⟨_, .of_same rfl rfl rfl (fun _ => rfl) (fun _ _ => rfl)⟩
  | cons id rest ih =>
      obtain ⟨T, hT⟩ := ih (hw.invalidate id)
      exact ⟨_, (Untouched.invalidate hw id).trans hT⟩

theorem freshAt_invalidateAll {ids : List NodeId} {n : NodeId} {o : Nat}
    (h : (ids.foldl Graph.invalidate graph).FreshAt n o) :
    (∀ a ∈ ids, n ∉ graph.downstream a) ∧ graph.FreshAt n o := by
  induction ids generalizing graph with
  | nil => exact ⟨by simp, h⟩
  | cons id rest ih =>
      obtain ⟨hrest, hfresh⟩ := ih h
      obtain ⟨hid, hfresh⟩ := (freshAt_invalidate_iff id n o).mp hfresh
      refine ⟨fun a ha => ?_, hfresh⟩
      rcases List.mem_cons.mp ha with rfl | ha
      · exact hid
      · simpa using hrest a ha

theorem downstream_invalidateAll (ids : List NodeId) (a : NodeId) :
    (ids.foldl Graph.invalidate graph).downstream a = graph.downstream a := by
  induction ids generalizing graph with
  | nil => rfl
  | cons id rest ih => rw [List.foldl_cons, ih, downstream_invalidate]

end Invalidate

theorem Untouched.withPosition (id : NodeId) (position : Position) :
    Untouched graph (graph.withPosition id position) fun _ => True := by
  refine .of_same rfl rfl rfl ?_ ?_
  · intro n
    rw [node?_withPosition, Option.map_map]
    congr 1
    funext node
    simp only [Function.comp]
    split <;> rfl
  · intro n o
    simp only [ownSlot?, node?_withPosition]
    cases graph.node? n with
    | none => rfl
    | some node =>
        simp only [Option.map_some, Option.bind_some]
        split <;> rfl

-- Results of other nodes do not rest on a node that was not there.
theorem Untouched.withNode (hw : graph.Wired) (template : Template) (uuid : Uuid)
    (parent : ItemId) :
    Untouched graph (graph.withNode template uuid parent) (· ≠ graph.nodes.fresh) := by
  have hlive : ∀ {p port}, graph.port? p = some port → port.node ≠ graph.nodes.fresh := by
    intro p port hp
    obtain ⟨node, hn⟩ := hw.owner hp
    exact graph.nodes.ne_fresh_of_find? hn
  have hnode : ∀ {n}, n ≠ graph.nodes.fresh →
      (graph.withNode template uuid parent).node? n = graph.node? n := by
    intro n hn
    rw [node?_withNode, if_neg hn]
  refine ⟨⟨rfl, fun hn => by rw [hnode hn], ?_, fun _ _ _ _ => rfl⟩,
    ⟨fun _ _ _ ht => hlive ht, fun _ _ _ _ _ hs => hlive hs⟩,
    fun o hn => ownSlot?_eq_of_node? (hnode hn) o, ?_⟩
  · intro p port hp _
    exact ⟨port, graph.port?_withNode_of_port? template uuid parent hp, rfl⟩
  · rintro n o ⟨slot, hslot, hstate⟩ rfl
    simp only [ownSlot?, node?_withNode_fresh, Option.bind_some, newNode] at hslot
    obtain rfl := List.eq_of_mem_replicate (List.mem_of_getElem? hslot)
    cases hstate

-- Nothing that is left reads from the nodes that go, once what did is out of date.
theorem Untouched.withdraw (hw : graph.Wired) (doomed : List NodeId)
    (hstale : ∀ n o, graph.FreshAt n o → ∀ d ∈ doomed, n ∉ graph.downstream d) :
    Untouched graph (graph.withdraw doomed) fun n => ∀ d ∈ doomed, n ∉ graph.downstream d := by
  have hout : ∀ {n}, (∀ d ∈ doomed, n ∉ graph.downstream d) → n ∉ doomed :=
    fun hn hd => hn _ hd (hw.mem_downstream_self _)
  have hup : Upstream graph fun n => ∀ d ∈ doomed, n ∉ graph.downstream d := by
    constructor
    · intro p port t target hp hn ha ht d hd
      exact (hw.upstream_clear d).target hp (hn d hd) ha ht
    · intro p port e edge source hp hn hdir he hedge hsource d hd
      exact (hw.upstream_clear d).edge hp (hn d hd) hdir he hedge hsource
  have hp : ∀ {p port}, graph.port? p = some port → port.node ∉ doomed →
      p ∉ graph.portsOf doomed := fun h hn => mt (hw.mem_portsOf_iff_node h).mp hn
  -- An edge that a doomed port touches does not lead to an input of such a node.
  have hedge : ∀ {p port e}, graph.port? p = some port →
      (∀ d ∈ doomed, port.node ∉ graph.downstream d) → port.direction = .input →
      e ∈ port.edges → e ∉ graph.edgesAt (graph.portsOf doomed) := by
    intro p port e h hn hdir he hmem
    obtain ⟨q, hq, found, hf, hef⟩ := (mem_edgesAt_iff _ _ _).mp hmem
    have hd := (hw.mem_portsOf_iff_node hf).mp hq
    obtain ⟨edge, hedge, hends⟩ := hw.incident hf hef
    rcases hends with rfl | rfl
    · exact hout (hup.edge h hn hdir he hedge hf) hd
    · rw [hw.destination_eq h hdir he hedge, h] at hf
      exact hout (Option.some.inj hf ▸ hn) hd
  refine ⟨⟨rfl, ?_, ?_, ?_⟩, hup, ?_, ?_⟩
  · intro n hn
    rw [node?_withdraw, if_neg (hout hn)]
  · intro p port h hn
    have halias : port.aliasOf.any (graph.portsOf doomed).contains = false := by
      cases ha : port.aliasOf with
      | none => rfl
      | some t =>
          obtain ⟨target, ht, -⟩ := hw.target h ha
          simpa using hp ht (hout (hup.target h hn ha ht))
    rw [port?_withdraw, if_neg (hp h (hout hn)), h]
    refine ⟨_, rfl, ?_⟩
    simp only [Port.seen, trim, halias, Bool.false_eq_true, if_false, Port.mk.injEq, true_and]
    split
    · next hdir =>
      refine List.filter_eq_self.mpr fun e he => ?_
      simpa using hedge h hn hdir he
    · rfl
  · intro p port e h hn hdir he
    rw [edge?_withdraw, if_neg (hedge h hn hdir he)]
  · intro n o hn
    exact ownSlot?_eq_of_node? (by rw [node?_withdraw, if_neg (hout hn)]) o
  · intro n o hfresh
    have hn : n ∉ doomed := by
      intro hd
      obtain ⟨slot, hslot, -⟩ := hfresh
      simp [ownSlot?, node?_withdraw, hd] at hslot
    have hkeep : (graph.withdraw doomed).ownSlot? n o = graph.ownSlot? n o :=
      ownSlot?_eq_of_node? (by rw [node?_withdraw, if_neg hn]) o
    obtain ⟨slot, hslot, hstate⟩ := hfresh
    exact hstale n o ⟨slot, hkeep ▸ hslot, hstate⟩

-- Every edit leaves alone what rests on nothing that it changed.
theorem Edit.untouched (h : graph.Edit other) (hw : graph.Wired) :
    ∃ S, Untouched graph other S := by
  cases h with
  | insert parent _ _ _ => exact ⟨_, .withNode hw _ _ _⟩
  | @remove id node hn =>
      have hwi := hw.invalidateAll (graph.nodesUnder id node)
      obtain ⟨S, hS⟩ := Untouched.invalidateAll hw (graph.nodesUnder id node)
      have hT := Untouched.withdraw hwi (graph.nodesUnder id node) (by
        intro n o hf d hd
        rw [downstream_invalidateAll]
        exact (freshAt_invalidateAll hf).1 d hd)
      exact ⟨_, (hS.trans hT).trans (.of_same rfl rfl rfl (fun _ => rfl) (fun _ _ => rfl))⟩
  | @connect a b s d port ho hl hd =>
      obtain ⟨-, source, destination, hsp, hdp, hout, hin, -⟩ := orientConnection_eq_ok ho
      obtain rfl := Option.some.inj (hd.symm.trans hdp)
      refine ⟨_, .of_change (hw.join hsp hdp hout hin) _ rfl (fun _ _ => rfl) ?_ ?_⟩
      · intro p found hp
        rw [port?_join, hp]
        refine ⟨_, rfl, rfl, fun hne => ?_⟩
        have hpd : p ≠ d := by
          rintro rfl
          exact hne (congrArg Port.node (Option.some.inj (hp.symm.trans hdp)))
        have hdir : p = s → found.direction ≠ .input := by
          rintro rfl
          obtain rfl := Option.some.inj (hp.symm.trans hsp)
          simp [hout]
        by_cases hps : p = s
        · simp [Port.seen, hdir hps]
        · simp [Port.seen, hps, hpd]
      · intro p found e hp _ _ he
        obtain ⟨edge, hedge, -⟩ := hw.incident hp he
        rw [edge?_join, if_neg (graph.edges.ne_fresh_of_find? hedge)]
  | @disconnect e edge port he hd =>
      have hkeep : ∀ {p found}, graph.port? p = some found → found.node ≠ port.node →
          found.direction = .input → e ∉ found.edges := by
        intro p found hp hne hdir hmem
        rw [hw.destination_eq hp hdir hmem he, hp] at hd
        exact hne (congrArg Port.node (Option.some.inj hd))
      refine ⟨_, .of_change (hw.dropEdges [e]) _ rfl (fun _ _ => rfl) ?_ ?_⟩
      · intro p found hp
        rw [port?_dropEdges, hp]
        refine ⟨_, rfl, rfl, fun hne => ?_⟩
        simp only [Port.seen, Port.mk.injEq, true_and]
        split
        · next hdir =>
          refine List.filter_eq_self.mpr fun e' he' => ?_
          simpa using fun heq : e' = e => hkeep hp hne hdir (heq ▸ he')
        · rfl
      · intro p found e' hp hne hdir he'
        rw [edge?_dropEdges, if_neg]
        simpa using fun heq : e' = e => hkeep hp hne hdir (heq ▸ he')
  | link hp ht hd hl => exact ⟨_, .modifyPort hp _ (fun _ => rfl) (hw.forward hp ht hd)⟩
  | unlink hp => exact ⟨_, .modifyPort hp _ (fun _ => rfl) (hw.unlink _)⟩
  | @property id _ hn key value =>
      refine ⟨_, .of_change (hw.withProperty id key value) _ rfl ?_
        (fun hp => ⟨_, hp, rfl, fun _ => rfl⟩) (fun _ _ _ _ => rfl)⟩
      intro n hne
      rw [node?_withProperty]
      simp [hne]
  | position hn position => exact ⟨_, .withPosition _ position⟩
  | flags hp flags => exact ⟨_, .modifyPort hp _ (fun _ => rfl) (hw.withFlags _ flags)⟩
  | invalidate id => exact ⟨_, .invalidate hw id⟩
  | move id container =>
      obtain ⟨outline, h⟩ := graph.moveInto_snd id container
      rw [h]
      exact ⟨_, .of_same rfl rfl rfl (fun _ => rfl) (fun _ _ => rfl)⟩

end Dataflow.Graph
