import Dataflow.Proofs.Evaluation.Mirror

namespace Dataflow

-- What of a node its results depend on.
def Node.core (node : Node) : Uuid × Properties × List PortId × List PortId × List EvalUnit :=
  (node.uuid, node.properties, node.inputs, node.outputs, node.units)

-- What of a port results depend on: where its own edges lead does not matter to an output.
def Port.seen (port : Port) : Port :=
  { port with edges := if port.direction = .input then port.edges else [] }

-- Ports that look the same differ in the edges of an output at most.
theorem Port.same_of_seen {port other : Port} (h : other.seen = port.seen) :
    other.node = port.node ∧ other.index = port.index ∧ other.name = port.name ∧
      other.direction = port.direction ∧ other.flags = port.flags ∧
      other.default = port.default ∧ other.aliasOf = port.aliasOf ∧
      (port.direction = .input → other.edges = port.edges) := by
  simp only [Port.seen, Port.mk.injEq] at h
  obtain ⟨h1, h2, h3, h4, -, h5, h6, h7, h8⟩ := h
  refine ⟨h1, h2, h3, h4, h5, h6, h7, fun hin => ?_⟩
  simpa [h4, hin] using h8

namespace Graph

-- Two graphs in which the nodes of a set read the same things in the same way.
structure Agree (graph other : Graph) (S : NodeId → Prop) : Prop where
  hops : other.settings.maxAliasHops = graph.settings.maxAliasHops
  node : ∀ {n}, S n → (other.node? n).map Node.core = (graph.node? n).map Node.core
  port : ∀ {p port}, graph.port? p = some port → S port.node →
    ∃ port', other.port? p = some port' ∧ port'.seen = port.seen
  edge : ∀ {p port e}, graph.port? p = some port → S port.node → port.direction = .input →
    e ∈ port.edges → other.edge? e = graph.edge? e

variable {graph other : Graph} {S : NodeId → Prop}

theorem Agree.mirror (ha : Agree graph other S) : Mirror .same graph other S where
  hops := ha.hops
  node := by
    intro n node hs hn
    have hcore := ha.node hs
    rw [hn] at hcore
    obtain ⟨node', hn', hcore⟩ := Option.map_eq_some_iff.mp hcore
    simp only [Node.core, Prod.mk.injEq] at hcore
    obtain ⟨huuid, hproperties, hinputs, houtputs, hunits⟩ := hcore
    refine ⟨node', hn', huuid, hproperties, hunits, fun direction => ?_⟩
    cases direction with
    | input => exact hinputs.trans (List.map_id _).symm
    | output => exact houtputs.trans (List.map_id _).symm
  gone := by
    intro n hs hn
    have hcore := ha.node hs
    rw [hn] at hcore
    exact Option.map_eq_none_iff.mp hcore
  port := by
    intro p port hp hs
    obtain ⟨port', hp', hseen⟩ := ha.port hp hs
    obtain ⟨hnode, hindex, hname, hdirection, hflags, hdefault, halias, hedges⟩ :=
      Port.same_of_seen hseen
    refine ⟨port', hp', hnode, hindex, hname, hdirection, hflags, hdefault, ?_, ?_, ?_⟩
    · exact halias.trans Option.map_id_apply.symm
    · exact fun hd => by rw [hedges hd]
    · intro hd
      rw [fedBy, fedBy, hedges hd, List.filterMap_congr fun e he => ha.edge hp hs hd he]
      exact (List.map_id _).symm

namespace Agree

variable (ha : Agree graph other S) (hc : Upstream graph S) (hw : graph.Wired)

include ha hc hw in
theorem aliasChain {p : PortId} {port : Port} (hp : graph.port? p = some port)
    (hs : S port.node) : other.aliasChain p = graph.aliasChain p := by
  refine (ha.mirror.aliasChain hc hw hp hs).trans ?_
  cases graph.aliasChain p with
  | error e => exact congrArg _ (Renaming.error_same e)
  | ok chain => exact congrArg _ (Renaming.chain_same chain)

include ha in
theorem locate {p : PortId} {port : Port} (hp : graph.port? p = some port) (hs : S port.node) :
    other.locate p = graph.locate p := by
  obtain ⟨hlocate, hlocate'⟩ := ha.mirror.locate hp hs
  exact hlocate'.trans hlocate.symm

include ha in
theorem unit? {n : NodeId} (hs : S n) (o : Nat) : other.unit? n o = graph.unit? n o :=
  ha.mirror.unit? hs o

include ha in
theorem outputPort? {n : NodeId} (hs : S n) (o : Nat) :
    other.outputPort? n o = graph.outputPort? n o :=
  (ha.mirror.outputPort? hs o).trans Option.map_id_apply

include ha hc hw in
theorem sources {n : NodeId} (hs : S n) (o : Nat) : other.sources n o = graph.sources n o :=
  (ha.mirror.sources hc hw hs o).trans (List.map_id _)

include ha hc hw in
theorem denote {n : NodeId} (hs : S n) (o : Nat)
    (value : NodeId → Nat → Except EvalError Ragged) :
    other.denote value n o = graph.denote value n o :=
  (ha.mirror.denote hc hw hs o (fun _ _ _ => Renaming.result_same _)
    fun _ _ _ _ _ => (Renaming.result_same _).symm).trans (Renaming.result_same _)

end Agree

-- What an output of the set reads belongs to nodes of the set.
theorem Upstream.sources (hc : Upstream graph S) (hw : graph.Wired) {n m : NodeId} {o k : Nat}
    {s : PortId} (hs : S n) (h : s ∈ graph.sources n o) (hl : graph.locate s = .ok (m, k)) :
    S m := by
  simp only [Graph.sources] at h
  split at h
  · next unit _ =>
    obtain ⟨input, hinput, hsource⟩ := List.mem_flatMap.mp h
    obtain ⟨i, -, hi⟩ := List.mem_filterMap.mp hinput
    obtain ⟨port, hp, hn, hd⟩ := hw.input_placed hi
    simp only [producers] at hsource
    split at hsource
    · simp at hsource
    next chain hchain =>
    obtain ⟨last, hlast, hls, hin⟩ := hc.last_input hw hp (hn ▸ hs) hd hchain
    rw [hlast] at hsource
    obtain ⟨edge, hedge, hend⟩ := List.mem_filterMap.mp hsource
    obtain ⟨source, hsp, hss⟩ :=
      hc.fedBy hw hlast hls hin (List.mem_map_of_mem (f := (·.source)) hedge)
    simp only [aliasEnd] at hend
    cases hfar : graph.aliasChain edge.source with
    | error e => simp [hfar, Except.map, Except.toOption] at hend
    | ok far =>
        obtain rfl : far.last = s := by simpa [hfar, Except.map, Except.toOption] using hend
        obtain ⟨found, hf, hfs⟩ := hc.chain hw hsp hss hfar far.last (by simp [Chain.ports])
        obtain ⟨found', hf', rfl, rfl⟩ := (locate_eq_ok_iff _ _ _).mp hl
        obtain rfl := Option.some.inj (hf.symm.trans hf')
        exact hfs
  · simp at h

-- Results are the same where two graphs agree.
theorem Means.frame (ha : Agree graph other S) (hc : Upstream graph S) (hw : graph.Wired)
    {n : NodeId} {o : Nat} {r : Except EvalError Ragged} (h : graph.Means n o r) (hs : S n) :
    other.Means n o r := by
  induction h with
  | @intro value n o _ ih =>
      rw [← ha.denote hc hw hs]
      refine .intro value fun s hmem m k hl => ?_
      rw [ha.sources hc hw hs] at hmem
      obtain ⟨out, source, -, hsource, -⟩ := hw.mem_sources hmem
      have hlocate : graph.locate s = .ok (source.node, source.index) :=
        (locate_eq_ok_iff _ _ _).mpr ⟨source, hsource, rfl, rfl⟩
      have hss := hc.sources hw hs hmem hlocate
      rw [ha.locate hsource hss] at hl
      exact ih s hmem m k hl (hc.sources hw hs hmem hl)

-- Every output has a result: what it reads ranks lower.
theorem Wired.means_total (hw : graph.Wired) (ha : graph.Acyclic) (n : NodeId) (o : Nat) :
    ∃ r, graph.Means n o r := by
  induction hrank : graph.rankAt n o using Nat.strongRecOn generalizing n o with
  | ind rank ih =>
      classical
      refine ⟨_, .intro (fun m k => if h : ∃ r, graph.Means m k r then h.choose
        else .error (.noEvaluator k)) fun s hs m k hl => ?_⟩
      have hex := ih _ (hrank ▸ hw.rankAt_lt ha hs hl) m k rfl
      rw [dif_pos hex]
      exact hex.choose_spec

end Graph

end Dataflow
