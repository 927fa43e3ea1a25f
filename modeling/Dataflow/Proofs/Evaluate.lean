import Dataflow.Proofs.Reachable

namespace Dataflow.Graph

variable {graph now : Graph} {node : NodeId} {output : Nat}

theorem outputOf_eq_ok {p : PortId} (h : graph.outputOf node output = .ok p) :
    graph.outputPort? node output = some p := by
  simp only [outputOf] at h
  split at h
  · cases h
  · next found hn =>
    split at h
    · next port hp =>
      rw [← Except.ok.inj h]
      simp [outputPort?, hn, hp]
    · cases h

theorem resolveOutput_of_outputOf {p : PortId} (h : graph.outputOf node output = .ok p) :
    graph.resolveOutput node output = (graph.aliasChain p).map (·.last) := by
  rw [resolveOutput, h]
  rfl

-- The walk from an output ends at an output that computes on its own and has a slot.
theorem Wired.chain_of_output (hw : graph.Wired) {p : PortId} {chain : Chain}
    (h : graph.outputOf node output = .ok p) (hc : graph.aliasChain p = .ok chain) :
    graph.Plain chain.last ∧ ∃ n o slot, graph.locate chain.last = .ok (n, o) ∧
      graph.ownSlot? n o = some slot := by
  obtain ⟨port, hp, -, hd⟩ := hw.output_placed (outputOf_eq_ok h)
  obtain ⟨last, hl, hld, hstop, -⟩ := hw.walk_end hp (chainFrom_eq_ok_iff.mp hc).1
  obtain ⟨slot, hslot⟩ := hw.slot_of_output hl (hld.trans hd)
  exact ⟨⟨last, hl, hld.trans hd, by simpa using hstop⟩, _, _, slot,
    (locate_eq_ok_iff _ _ _).mpr ⟨last, hl, rfl, rfl⟩, hslot⟩

theorem Shows.unique {a b : Except EvalError Ragged} (ha : graph.Shows node output a)
    (hb : graph.Shows node output b) : a = b := by
  cases ha with
  | missing h =>
      cases hb with
      | missing h' => exact congrArg _ (Except.error.inj (h.symm.trans h'))
      | astray h' _ => cases h.symm.trans h'
      | computed h' _ _ _ => cases h.symm.trans h'
  | astray h hc =>
      cases hb with
      | missing h' => cases h.symm.trans h'
      | astray h' hc' =>
          obtain rfl := Except.ok.inj (h.symm.trans h')
          exact congrArg _ (Except.error.inj (hc.symm.trans hc'))
      | computed h' hc' _ _ =>
          obtain rfl := Except.ok.inj (h.symm.trans h')
          cases hc.symm.trans hc'
  | computed h hc hl hm =>
      cases hb with
      | missing h' => cases h.symm.trans h'
      | astray h' hc' =>
          obtain rfl := Except.ok.inj (h.symm.trans h')
          cases hc.symm.trans hc'
      | computed h' hc' hl' hm' =>
          obtain rfl := Except.ok.inj (h.symm.trans h')
          obtain rfl := Except.ok.inj (hc.symm.trans hc')
          obtain ⟨rfl, rfl⟩ := Prod.mk.inj (Except.ok.inj (hl.symm.trans hl'))
          rw [hm.unique hm']

theorem applyFlags_of_bare (h : now.bare = graph.bare) (ports : List PortId) (value : Ragged) :
    now.applyFlags ports value = graph.applyFlags ports value := by
  simp only [applyFlags, port?_of_bare h]

-- An evaluation answers what the output shows, or fails for a source that it could not
-- reach.
theorem Healthy.evaluate_near (hg : graph.Healthy) (node : NodeId) (output : Nat) :
    ∃ result, graph.Shows node output result ∧
      Near (TooDeep graph.settings.maxEvalDepth) (graph.evaluate node output).1 result := by
  simp only [evaluate, Session.evaluate, Session.start]
  cases hout : graph.outputOf node output with
  | error e => exact ⟨_, .missing hout, .inl rfl⟩
  | ok p =>
      simp only [Session.evaluatePort]
      cases hc : graph.aliasChain p with
      | error e => exact ⟨_, .astray hout hc, .inl rfl⟩
      | ok chain =>
          obtain ⟨-, n, o, slot, hl, hslot⟩ := hg.wired.chain_of_output hout hc
          obtain ⟨next, visited, hsettle, hloop⟩ :=
            Session.settle_placed (.start graph) hg.wired hg.acyclic hg.sound hl hslot
          have hsettled : Settled graph next.graph chain.last := hloop.covered
          obtain ⟨n', o', r, hl', hm, hnear⟩ := hsettled
          have halike : next.graph.bare = graph.bare := hloop.alike
          have hl'' : next.graph.locate chain.last = .ok (n', o') :=
            (locate_of_bare halike _).trans hl'
          refine ⟨_, .computed hout hc hl' hm, ?_⟩
          simp only [Session.start] at hsettle
          simp only [hsettle, readOutput_eq, along, hl'',
            funext (applyFlags_of_bare halike chain.outer)]
          exact hnear.map _

-- Evaluation with all that it keeps computes the plain recursive meaning: every output of
-- every graph that can come about has one meaning, and a request either answers it or
-- fails because it reaches back too far.
theorem evaluate_computes_meaning (h : Reachable graph) (node : NodeId) (output : Nat) :
    ∃ meaning, graph.Shows node output meaning ∧
      (∀ other, graph.Shows node output other → other = meaning) ∧
      (∀ v, (graph.evaluate node output).1 = .ok v → meaning = .ok v) ∧
      ∀ e, (graph.evaluate node output).1 = .error e →
        meaning = .error e ∨ e.rootCause = .depthExceeded graph.settings.maxEvalDepth := by
  obtain ⟨meaning, hshows, hnear⟩ := h.healthy.evaluate_near node output
  refine ⟨meaning, hshows, fun other ho => ho.unique hshows, ?_, ?_⟩
  · intro v hv
    rcases hnear with heq | ⟨e, he, -⟩
    · exact heq.symm.trans hv
    · rw [hv] at he
      cases he
  · intro e he
    rcases hnear with heq | ⟨e', he', hdeep⟩
    · exact .inl (heq.symm.trans he)
    · rw [he] at he'
      exact .inr (Except.error.inj he' ▸ hdeep)

theorem relays_show_what_they_hand_on :
    (relays.run [.setProperty ⟨1⟩ "in" (.leaf (.int 7))]).Shows ⟨2⟩ 0
      (.ok (.scalar (.int 7))) := by
  obtain ⟨meaning, hshows, -, hok, -⟩ := evaluate_computes_meaning
    (relays_reachable.run [.setProperty ⟨1⟩ "in" (.leaf (.int 7))]) ⟨2⟩ 0
  exact hok (.scalar (.int 7)) rfl ▸ hshows

end Dataflow.Graph
