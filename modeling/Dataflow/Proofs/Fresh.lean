import Dataflow.Proofs.Evaluate

namespace Dataflow.Graph

variable {graph other : Graph}

-- Outputs with something fresh to show stand for no other. Sessions that look into ports
-- by themselves may leave it otherwise, but operations do not.
def Direct (graph : Graph) : Prop :=
  ∀ p port, graph.port? p = some port → port.direction = .output →
    graph.FreshAt port.node port.index → port.aliasOf = none

theorem Direct.new (settings : Settings) : (Graph.new settings).Direct := by
  intro p port hp
  cases hp

theorem Direct.edit (hd : graph.Direct) (hw : graph.Wired) (h : graph.Edit other) :
    other.Direct := by
  obtain ⟨S, hS⟩ := h.untouched hw
  intro p port' hp' hdir hf
  have hn := hS.fresh hf
  have hplace : other.outputPort? port'.node port'.index = some p := by
    have ho := (h.wired hw).owned hp'
    rwa [hdir] at ho
  rw [hS.agree.outputPort? hn] at hplace
  obtain ⟨port, hp, hnode, hout⟩ := hw.output_placed hplace
  obtain ⟨port'', hp'', hseen⟩ := hS.agree.port hp (hnode ▸ hn)
  obtain rfl := Option.some.inj (hp'.symm.trans hp'')
  obtain ⟨hnode', hindex, -, -, -, -, halias, -⟩ := Port.same_of_seen hseen
  rw [halias]
  exact hd p port hp hout (hnode' ▸ hindex ▸ hS.freshAt hf)

-- What is fresh after an evaluation was so before, or computes on its own.
theorem Healthy.freshAt_evaluate (hg : graph.Healthy) {node n : NodeId} {output o : Nat}
    (hf : (graph.evaluate node output).2.FreshAt n o) :
    graph.FreshAt n o ∨ ∃ p, graph.locate p = .ok (n, o) ∧ graph.Plain p := by
  simp only [evaluate, Session.evaluate, Session.start] at hf
  cases hout : graph.outputOf node output with
  | error e =>
      rw [hout] at hf
      exact .inl hf
  | ok p =>
      simp only [hout, Session.evaluatePort] at hf
      cases hc : graph.aliasChain p with
      | error e =>
          rw [hc] at hf
          exact .inl hf
      | ok chain =>
          obtain ⟨hplain, m, k, slot, hl, hslot⟩ := hg.wired.chain_of_output hout hc
          obtain ⟨next, visited, hsettle, hloop⟩ :=
            Session.settle_placed (.start graph) hg.wired hg.acyclic hg.sound hl hslot
          simp only [Session.start] at hsettle
          simp only [hc, hsettle] at hf
          refine (hloop.touched n o hf).imp_right ?_
          rintro ⟨q, hq, rfl | hq'⟩
          · exact ⟨_, hq, hplain⟩
          · exact ⟨q, hq, hq'⟩

theorem Direct.evaluate (hd : graph.Direct) (hg : graph.Healthy) (node : NodeId)
    (output : Nat) : (graph.evaluate node output).2.Direct := by
  have halike : (graph.evaluate node output).2.bare = graph.bare :=
    (Session.evaluate_consulted (.start graph) hg.wired hg.acyclic hg.sound node output).1
  intro p port hp hdir hf
  rw [port?_of_bare halike] at hp
  rcases hg.freshAt_evaluate hf with hf | ⟨q, hq, found, hfound, hout, hnone⟩
  · exact hd p port hp hdir hf
  · obtain ⟨found', hfound', hnode, hindex⟩ := (locate_eq_ok_iff _ _ _).mp hq
    obtain rfl := Option.some.inj (hfound.symm.trans hfound')
    have ho := hg.wired.owned hp
    have ho' := hg.wired.owned hfound
    rw [hdir] at ho
    rw [hout, hnode, hindex, ho] at ho'
    obtain rfl := Option.some.inj ho'
    obtain rfl := Option.some.inj (hp.symm.trans hfound)
    exact hnone

theorem Direct.run (hd : graph.Direct) (hg : graph.Healthy) (operations : List Operation) :
    (graph.run operations).Direct ∧ (graph.run operations).Healthy := by
  induction operations generalizing graph with
  | nil => exact ⟨hd, hg⟩
  | cons operation rest ih =>
      refine ih ?_ (hg.performed operation)
      rcases perform_cases hg.wired operation with heq | hedit | ⟨node, output, rfl⟩
      · exact heq.symm ▸ hd
      · exact hd.edit hg.wired hedit
      · exact hd.evaluate hg node output

-- An output that stands for no other shows what it computes.
theorem Wired.shows_of_means (hw : graph.Wired) {n : NodeId} {o : Nat} {p : PortId} {port : Port}
    (ho : graph.outputPort? n o = some p) (hp : graph.port? p = some port)
    (hn : port.aliasOf = none) {v : Ragged} (hm : graph.Means n o (.ok v)) :
    graph.Shows n o (.ok v) := by
  have hout : graph.outputOf n o = .ok p := by
    simp only [outputPort?, Option.bind_eq_some_iff] at ho
    obtain ⟨node, hnode, hport⟩ := ho
    simp only [outputOf, hnode, hport]
  have hc : graph.aliasChain p = .ok ⟨[], p⟩ :=
    chainFrom_eq_ok_iff.mpr ⟨.stay hp (.inr hn), Nat.zero_le _⟩
  have hl : graph.locate p = .ok (n, o) := by
    obtain ⟨port', hp', hnode, -, hindex⟩ := hw.placed (show graph.portAt? n .output o = _ from ho)
    exact (locate_eq_ok_iff _ _ _).mpr ⟨port', hp', hnode, hindex⟩
  exact .computed hout hc hl hm

-- Nothing out of date is ever shown as fresh. After any operations in any order, a fresh
-- slot holds just what the output means in the graph as it is now, and all that the
-- output reads is fresh as well.
theorem fresh_slots_hold_meaning {settings : Settings} {operations : List Operation}
    (hg : graph = (Graph.new settings).run operations) {n : NodeId} {node : Node} {o : Nat}
    {slot : Slot} (hn : graph.node? n = some node) (hslot : node.slots[o]? = some slot)
    (hf : slot.state = .fresh) :
    ∃ v, slot.cache = some v ∧ graph.Shows n o (.ok v) ∧
      (∀ other, graph.Shows n o other → other = .ok v) ∧
      ∀ s ∈ graph.sources n o, ∃ m k, graph.locate s = .ok (m, k) ∧ graph.FreshAt m k := by
  obtain ⟨hdirect, hhealthy⟩ := (Direct.new settings).run (.new settings) operations
  rw [← hg] at hdirect hhealthy
  have hw := hhealthy.wired
  have hown : graph.ownSlot? n o = some slot := by
    rw [ownSlot?, hn, Option.bind_some, hslot]
  obtain ⟨v, hv, hmeans, hsources⟩ := hhealthy.sound n o slot hown hf
  have hlt : o < node.outputs.length := by
    obtain ⟨hlt, -⟩ := List.getElem?_eq_some_iff.mp hslot
    exact hw.slots hn ▸ hlt
  have hat : graph.portAt? n .output o = some node.outputs[o] := by
    rw [portAt?_eq, hn]
    simp [Node.side, hlt]
  obtain ⟨port, hp, rfl, hdir, rfl⟩ := hw.placed hat
  have hshows := hw.shows_of_means hat hp (hdirect _ port hp hdir ⟨slot, hown, hf⟩) hmeans
  refine ⟨v, hv, hshows, fun other ho => ho.unique hshows, fun s hs => ?_⟩
  obtain ⟨out, source, -, hsource, -⟩ := hw.mem_sources hs
  have hl : graph.locate s = .ok (source.node, source.index) :=
    (locate_eq_ok_iff _ _ _).mpr ⟨source, hsource, rfl, rfl⟩
  exact ⟨_, _, hl, hsources s hs _ _ hl⟩

theorem relays_hold_what_they_hand_on :
    let graph := (Graph.new .standard).run
      (relaying ++ [.setProperty ⟨1⟩ "in" (.leaf (.int 7)), .evaluate ⟨2⟩ 0])
    graph.Shows ⟨2⟩ 0 (.ok (.scalar (.int 7))) ∧ graph.FreshAt ⟨1⟩ 0 := by
  intro graph
  obtain ⟨node, slot, hn, hslot, hf, hcache⟩ : ∃ node slot, graph.node? ⟨2⟩ = some node ∧
      node.slots[0]? = some slot ∧ slot.state = .fresh ∧
      slot.cache = some (.scalar (.int 7)) := ⟨_, _, rfl, rfl, rfl, rfl⟩
  obtain ⟨v, hv, hshows, -, hsources⟩ := fresh_slots_hold_meaning rfl hn hslot hf
  obtain rfl := Option.some.inj (hcache.symm.trans hv)
  obtain ⟨m, k, hl, hfresh⟩ := hsources ⟨2⟩ (List.mem_singleton.mpr rfl)
  obtain ⟨rfl, rfl⟩ := Prod.mk.inj (Except.ok.inj hl)
  exact ⟨hshows, hfresh⟩

end Dataflow.Graph
