import Dataflow.Proofs.Evaluation.Measured
import Dataflow.Proofs.Evaluation.Mirror
import Dataflow.Proofs.Restore.Linked

namespace Dataflow

namespace Graph

-- Two graphs that differ in nothing but in what their nodes keep and in the order in which
-- outputs were joined to inputs: every input is joined to the same ones.
structure Rewired (graph other : Graph) : Prop extends Alike graph other where
  aliasOf : ∀ p, (other.port? p).map (·.aliasOf) = (graph.port? p).map (·.aliasOf)
  feeders : ∀ {p port port'}, graph.port? p = some port → other.port? p = some port' →
    port.direction = .input → (other.fedBy port').Perm (graph.fedBy port)

-- Ports joined two by two, one after the other.
def joinAll (graph : Graph) (edges : List (PortId × PortId)) : Graph :=
  graph.run (edges.map fun edge => .addEdge edge.1 edge.2)

variable {graph other : Graph} {goal p s : PortId} {port : Port} {node n : NodeId}
  {output o d : Nat}

-- Walks from ports of one direction are the same where their ports are.
theorem Wired.walkAliases_congr (hw : graph.Wired) (stop : Port → Bool) (direction : Direction)
    (h : ∀ {q port}, graph.port? q = some port → port.direction = direction →
      ∃ port', other.port? q = some port' ∧ stop port' = stop port ∧
        port'.aliasOf = port.aliasOf)
    (hops : Nat) (hp : graph.port? p = some port) (hd : port.direction = direction) :
    other.walkAliases stop hops p = graph.walkAliases stop hops p := by
  induction hops generalizing p port with
  | zero =>
      obtain ⟨port', hp', hstop, halias⟩ := h hp hd
      unfold walkAliases
      simp only [hp, hp', hstop, halias]
      cases port.aliasOf <;> rfl
  | succ hops ih =>
      obtain ⟨port', hp', hstop, halias⟩ := h hp hd
      unfold walkAliases
      simp only [hp, hp', hstop, halias]
      cases ht : port.aliasOf with
      | none => rfl
      | some t =>
          obtain ⟨target, htarget, htd⟩ := hw.target hp ht
          simp only [ih htarget (htd.trans hd)]

namespace Rewired

-- A port of the one graph is there in the other as well.
theorem exists_twin (h : Rewired graph other) (hp : graph.port? p = some port) :
    ∃ port', other.port? p = some port' ∧ port'.direction = port.direction ∧
      port'.aliasOf = port.aliasOf := by
  obtain ⟨port', hp', hplain⟩ := h.exists_port hp
  have halias := h.aliasOf p
  rw [hp, hp'] at halias
  simp only [Port.plain, Port.mk.injEq] at hplain
  obtain ⟨-, -, -, hd, -⟩ := hplain
  exact ⟨port', hp', hd, Option.some.inj halias⟩

theorem symm (h : Rewired graph other) : Rewired other graph where
  toAlike := h.toAlike.symm
  aliasOf p := (h.aliasOf p).symm
  feeders hp' hp hd := by
    obtain ⟨found, hfound, hsame, -⟩ := h.exists_twin hp
    obtain rfl := Option.some.inj (hfound.symm.trans hp')
    exact (h.feeders hp hp' (hsame.symm.trans hd)).symm

variable (h : Rewired graph other) (hw : graph.Wired) (hw' : other.Wired)

include h

theorem locate (p : PortId) : other.locate p = graph.locate p := by
  have hplace := h.map_port? (fun port => (port.node, port.index)) (fun _ => rfl) p
  cases hp : graph.port? p with
  | none =>
      have hp' : other.port? p = none := by simpa [hp] using hplace
      simp only [Graph.locate, hp, hp']
  | some port =>
      obtain ⟨port', hp', -⟩ := h.exists_twin hp
      rw [hp, hp'] at hplace
      obtain ⟨hnode, hindex⟩ := Prod.mk.inj (Option.some.inj hplace)
      simp only [Graph.locate, hp, hp', hnode, hindex]

theorem unit? (n : NodeId) (o : Nat) : other.unit? n o = graph.unit? n o :=
  bind_node?_of_node (h.node n) (·.unit? o) fun _ => rfl

theorem inputPort? (n : NodeId) (i : Nat) : other.inputPort? n i = graph.inputPort? n i :=
  h.portAt? n .input i

include hw

theorem aliasChain (p : PortId) : other.aliasChain p = graph.aliasChain p := by
  have hwalk : other.walkAliases (fun _ => false) graph.settings.maxAliasHops p =
      graph.walkAliases (fun _ => false) graph.settings.maxAliasHops p := by
    cases hp : graph.port? p with
    | none =>
        have hp' : other.port? p = none := by simpa [hp] using h.aliasOf p
        unfold walkAliases
        simp only [hp, hp']
    | some port =>
        refine hw.walkAliases_congr _ port.direction (fun hq _ => ?_) _ hp rfl
        obtain ⟨port', hq', -, halias⟩ := h.exists_twin hq
        exact ⟨port', hq', rfl, halias⟩
  simp only [Graph.aliasChain, chainFrom, h.settings, hwalk]

theorem resolveOutput (node : NodeId) (output : Nat) :
    other.resolveOutput node output = graph.resolveOutput node output := by
  have hends : other.aliasEnd = graph.aliasEnd := by
    funext p
    rw [aliasEnd, aliasEnd, h.aliasChain hw]
  rw [Graph.resolveOutput, Graph.resolveOutput, outputOf_of_node (h.node node), hends]

include hw'

-- Whether an input has edges does not depend on their order.
theorem inputChain (hp : graph.port? p = some port) (hd : port.direction = .input) :
    other.inputChain p = graph.inputChain p := by
  have hwalk : other.walkAliases (fun port => !port.edges.isEmpty) graph.settings.maxAliasHops p =
      graph.walkAliases (fun port => !port.edges.isEmpty) graph.settings.maxAliasHops p := by
    refine hw.walkAliases_congr _ .input (fun {q found} hq hin => ?_) _ hp hd
    obtain ⟨port', hq', -, halias⟩ := h.exists_twin hq
    have hempty : port'.edges.isEmpty = found.edges.isEmpty := by
      rw [← hw'.isEmpty_fedBy hq', ← hw.isEmpty_fedBy hq, (h.feeders hq hq' hin).isEmpty_eq]
    exact ⟨port', hq', by rw [hempty], halias⟩
  simp only [Graph.inputChain, chainFrom, h.settings, hwalk]

theorem producers (hp : graph.port? p = some port) (hd : port.direction = .input) :
    (other.producers p).Perm (graph.producers p) := by
  simp only [Graph.producers, h.inputChain hw hw' hp hd]
  cases hc : graph.inputChain p with
  | error e => exact .refl _
  | ok chain =>
      obtain ⟨last, hl, hld, -⟩ := hw.walk_end hp (chainFrom_eq_ok_iff.mp hc).1
      obtain ⟨last', hl', -⟩ := h.exists_twin hl
      have hends : other.aliasEnd = graph.aliasEnd := funext fun p => by
        rw [aliasEnd, aliasEnd, h.aliasChain hw]
      simp only [hl, hl']
      rw [filterMap_aliasEnd, filterMap_aliasEnd, hends]
      exact (h.feeders hl hl' (hld.trans hd)).filterMap _

theorem mem_sources_iff : s ∈ other.sources n o ↔ s ∈ graph.sources n o := by
  simp only [sources, h.unit?]
  cases graph.unit? n o with
  | none => rfl
  | some unit =>
      simp only [sourcesOf, h.inputPort?, List.mem_flatMap]
      refine exists_congr fun input => and_congr_right fun hm => ?_
      obtain ⟨i, -, hi⟩ := List.mem_filterMap.mp hm
      obtain ⟨port, hp, -, hd⟩ := hw.input_placed hi
      exact (h.producers hw hw' hp hd).mem_iff

theorem mem_reached_iff : p ∈ other.reached goal d ↔ p ∈ graph.reached goal d := by
  have hreads : ∀ q s, s ∈ other.reads q ↔ s ∈ graph.reads q := by
    intro q s
    simp only [reads, h.locate]
    split
    · exact h.mem_sources_iff hw hw'
    · rfl
  induction d generalizing p with
  | zero => rfl
  | succ d ih => simp only [reached, List.mem_flatMap, ih, hreads]

theorem behind (hb : graph.Behind p n o) : other.Behind p n o := by
  induction hb with
  | here hl => exact .here ((h.locate _).trans hl)
  | source _ hs hl ih =>
      exact ih.source ((h.mem_sources_iff hw hw').mpr hs) ((h.locate _).trans hl)

theorem torn (ht : graph.Torn goal p) : other.Torn goal p := by
  simpa only [Torn, Computed, h.locate, h.unit?, h.settings, h.mem_reached_iff hw hw'] using ht

end Rewired

-- What one graph cuts off the other does as well, where no torn output is in the way.
theorem CutOff.rewired (hcut : graph.CutOff node output n o) (h : Rewired graph other)
    (hg : graph.Healthy) (hg' : other.Healthy) (hcold : ∀ n o, ¬ graph.FreshAt n o)
    (hcold' : ∀ n o, ¬ other.FreshAt n o)
    (hclear : ∀ goal q, other.resolveOutput node output = .ok goal → other.Torn goal q →
      ¬ other.Behind q n o) : other.CutOff node output n o := by
  obtain ⟨goal, p, hgoal, hl, hcomputed, hp⟩ := hcut.far hg hcold
  have hgoal' : other.resolveOutput node output = .ok goal :=
    (h.resolveOutput hg.wired node output).trans hgoal
  refine cutOff_of_far hg' hcold' hgoal' ((h.locate p).trans hl) ?_ ?_ (hclear goal · hgoal')
  · simpa only [Computed, h.locate, h.unit?] using hcomputed
  · rwa [h.settings, h.mem_reached_iff hg.wired hg'.wired]

theorem not_freshAt_of_forall
    (h : ∀ node ∈ graph.nodes.values, ∀ slot ∈ node.slots, slot.state ≠ .fresh) (n : NodeId)
    (o : Nat) : ¬ graph.FreshAt n o := by
  rintro ⟨slot, hslot, hstate⟩
  obtain ⟨found, hn, hfound⟩ := Option.bind_eq_some_iff.mp hslot
  have hm : found ∈ graph.nodes.values := (graph.nodes.mem_values_iff found).mpr ⟨n, hn⟩
  exact h found hm slot (List.mem_of_getElem? hfound) hstate

-- Edges change no node and no port but for the edges that touch it.
theorem alike_joinAll (edges : List (PortId × PortId)) (graph : Graph) :
    Alike graph (graph.joinAll edges) ∧
      ∀ p, ((graph.joinAll edges).port? p).map (·.aliasOf) = (graph.port? p).map (·.aliasOf) := by
  induction edges generalizing graph with
  | nil => exact ⟨.refl graph, fun _ => rfl⟩
  | cons edge rest ih =>
      have hcons : graph.joinAll (edge :: rest) =
          (graph.after ((graph.addEdge edge.1 edge.2).map (·.2))).joinAll rest := rfl
      rw [hcons]
      cases hadd : graph.addEdge edge.1 edge.2 with
      | error e => exact ih graph
      | ok added =>
          obtain ⟨e, joined⟩ := added
          obtain ⟨s, d, port, -, -, -, rfl⟩ := exists_join_of_addEdge hadd
          obtain ⟨hrest, halias⟩ := ih ((graph.join s d).invalidate port.node)
          refine ⟨(alike_join graph s d port.node).trans hrest, fun p => (halias p).trans ?_⟩
          rw [port?_invalidate, port?_join, Option.map_map]
          rfl

-- What there is to check of two graphs that come of one, with other edges made.
theorem rewired_of_joinAll (graph : Graph) {edges edges' : List (PortId × PortId)}
    (hfed : ∀ p ∈ graph.ports.ids,
      ((((graph.joinAll edges').port? p).map (graph.joinAll edges').fedBy).getD []).Perm
        ((((graph.joinAll edges).port? p).map (graph.joinAll edges).fedBy).getD [])) :
    Rewired (graph.joinAll edges) (graph.joinAll edges') := by
  obtain ⟨halike, halias⟩ := alike_joinAll edges graph
  obtain ⟨halike', halias'⟩ := alike_joinAll edges' graph
  refine ⟨halike.symm.trans halike', fun p => (halias' p).trans (halias p).symm, ?_⟩
  intro p port port' hp hp' _
  obtain ⟨found, hfound, -⟩ := halike.symm.exists_port hp
  simpa [hp, hp'] using hfed p ((graph.ports.mem_ids_iff p).mpr ⟨found, hfound⟩)

-- Which outputs are too far off does not depend on the order in which inputs were joined, but
-- for those that are torn or read for one that is torn: an output that a request comes to at
-- the limit on its reach and before is cut off if it is looked at first at the limit.
theorem depth_limit_ignores_order (h : Reachable graph) (h' : Reachable other)
    (hcold : ∀ n o, ¬ graph.FreshAt n o) (hcold' : ∀ n o, ¬ other.FreshAt n o)
    (hrewired : Rewired graph other) (node : NodeId) (output : Nat) (n : NodeId) (o : Nat)
    (hclear : ∀ goal p, graph.resolveOutput node output = .ok goal → graph.Torn goal p →
      ¬ graph.Behind p n o) :
    graph.CutOff node output n o ↔ other.CutOff node output n o := by
  have hg := h.healthy
  have hg' := h'.healthy
  refine ⟨fun hcut => hcut.rewired hrewired hg hg' hcold hcold' fun goal p hgoal ht hb => ?_,
    fun hcut => hcut.rewired hrewired.symm hg' hg hcold' hcold hclear⟩
  exact hclear goal p ((hrewired.resolveOutput hg.wired node output).symm.trans hgoal)
    (hrewired.symm.torn hg'.wired hg.wired ht) (hrewired.symm.behind hg'.wired hg.wired hb)

-- Four relays in a graph where a request may reach two steps.
def unjoined : Graph :=
  (Graph.new { Settings.standard with maxEvalDepth := 2 }).run
    ([⟨1⟩, ⟨2⟩, ⟨3⟩, ⟨4⟩].map (.addNode .relay))

theorem joinAll_reachable (edges : List (PortId × PortId)) : Reachable (unjoined.joinAll edges) :=
  Reachable.run (Reachable.run (.new _) _) _

-- The last reads the first and the second, and the second reads the third: that one is two
-- reads off in either order.
def feeding : List (PortId × PortId) :=
  [(⟨2⟩, ⟨7⟩), (⟨4⟩, ⟨7⟩), (⟨6⟩, ⟨3⟩)]

theorem feeding_cuts_off_alike : (unjoined.joinAll feeding).CutOff ⟨4⟩ 0 ⟨3⟩ 0 ∧
    (unjoined.joinAll feeding.reverse).CutOff ⟨4⟩ 0 ⟨3⟩ 0 := by
  have hcut : (unjoined.joinAll feeding).CutOff ⟨4⟩ 0 ⟨3⟩ 0 :=
    ⟨List.mem_cons_of_mem _ List.mem_cons_self, by decide +kernel⟩
  have hnear : ∀ p ∈ (unjoined.joinAll feeding).reached ⟨8⟩ 2, ∀ d < 2,
      p ∉ (unjoined.joinAll feeding).reached ⟨8⟩ d := by decide +kernel
  refine ⟨hcut, (depth_limit_ignores_order (joinAll_reachable _) (joinAll_reachable _)
    (not_freshAt_of_forall (by decide +kernel)) (not_freshAt_of_forall (by decide +kernel))
    (rewired_of_joinAll _ (by decide +kernel)) ⟨4⟩ 0 ⟨3⟩ 0 ?_).mp hcut⟩
  rintro goal p hgoal ⟨-, hp, d, hd, hpd⟩
  obtain rfl : ⟨8⟩ = goal := Except.ok.inj hgoal
  exact absurd hpd (hnear p hp d hd)

-- Here the second reads the first, which is cut off where the last comes to it by way of the
-- second, and not where the last reads it before.
def crossing : List (PortId × PortId) :=
  [(⟨2⟩, ⟨7⟩), (⟨4⟩, ⟨7⟩), (⟨2⟩, ⟨3⟩)]

theorem crossing_cuts_off_by_order :
    Reachable (unjoined.joinAll crossing) ∧ Reachable (unjoined.joinAll crossing.reverse) ∧
      (∀ n o, ¬ (unjoined.joinAll crossing).FreshAt n o) ∧
      (∀ n o, ¬ (unjoined.joinAll crossing.reverse).FreshAt n o) ∧
      Rewired (unjoined.joinAll crossing) (unjoined.joinAll crossing.reverse) ∧
      ¬ (unjoined.joinAll crossing).CutOff ⟨4⟩ 0 ⟨1⟩ 0 ∧
      (unjoined.joinAll crossing.reverse).CutOff ⟨4⟩ 0 ⟨1⟩ 0 := by
  refine ⟨joinAll_reachable _, joinAll_reachable _, not_freshAt_of_forall (by decide +kernel),
    not_freshAt_of_forall (by decide +kernel), rewired_of_joinAll _ (by decide +kernel),
    ?_, List.mem_cons_self, by decide +kernel⟩
  rintro ⟨hm, -⟩
  have hall : ∀ e ∈ (Session.start (unjoined.joinAll crossing)).outcomes ⟨4⟩ 0,
      e.result.isOk = true := by
    decide +kernel
  cases hall _ hm

end Graph

end Dataflow
