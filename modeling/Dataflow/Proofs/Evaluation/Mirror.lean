import Dataflow.Proofs.Evaluation.Near
import Dataflow.Proofs.Evaluation.Sources

namespace Dataflow

-- What the nodes and the ports of a graph are called in another one.
structure Renaming where
  node : NodeId → NodeId
  port : PortId → PortId

namespace Renaming

def same : Renaming :=
  ⟨id, id⟩

-- A failure as the other graph reports it.
def error (there : Renaming) : EvalError → EvalError
  | .invalidPortAlias port fault => .invalidPortAlias (there.port port) fault
  | .nodeNotFound node => .nodeNotFound (there.node node)
  | .outputOutOfRange node output => .outputOutOfRange (there.node node) output
  | .sourceFailed uuid cause => .sourceFailed uuid (there.error cause)
  | other => other

-- Values need no other names.
def result {α : Type} (there : Renaming) (r : Except EvalError α) : Except EvalError α :=
  r.mapError there.error

def chain (there : Renaming) (chain : Chain) : Chain :=
  ⟨chain.outer.map there.port, there.port chain.last⟩

variable {α β : Type} (there : Renaming)

@[simp] theorem result_ok (a : α) : there.result (.ok a) = .ok a := rfl

@[simp] theorem result_error (e : EvalError) :
    there.result (.error e : Except EvalError α) = .error (there.error e) := rfl

@[simp] theorem chain_outer (chain : Chain) :
    (there.chain chain).outer = chain.outer.map there.port := rfl

@[simp] theorem chain_last (chain : Chain) :
    (there.chain chain).last = there.port chain.last := rfl

@[simp] theorem chain_ports (chain : Chain) :
    (there.chain chain).ports = chain.ports.map there.port := by
  simp [Chain.ports]

theorem map_result (f : α → β) (r : Except EvalError α) :
    (there.result r).map f = there.result (r.map f) := by
  cases r <;> rfl

theorem error_same (e : EvalError) : same.error e = e := by
  induction e with
  | sourceFailed uuid cause ih => simp only [error, ih]
  | _ => rfl

theorem result_same (r : Except EvalError α) : same.result r = r := by
  cases r with
  | ok a => rfl
  | error e => rw [result_error, error_same]

theorem chain_same (chain : Chain) : same.chain chain = chain := by
  simp [Renaming.chain, same]

-- What is done to items under their other names fails as it fails here.
theorem mapM_result {f f' : α → Except EvalError β} {g : α → α} {items : List α}
    (h : ∀ a ∈ items, f' (g a) = there.result (f a)) :
    (items.map g).mapM f' = there.result (items.mapM f) := by
  induction items with
  | nil => rfl
  | cons a rest ih =>
      rw [List.map_cons, List.mapM_cons, List.mapM_cons, h a List.mem_cons_self,
        ih fun b hb => h b (List.mem_cons_of_mem _ hb)]
      cases f a with
      | error e => rfl
      | ok b => cases rest.mapM f <;> rfl

end Renaming

-- A node and what it is in the other graph.
structure Node.Counterpart (there : Renaming) (node node' : Node) : Prop where
  uuid : node'.uuid = node.uuid
  properties : node'.properties = node.properties
  units : node'.units = node.units
  side : ∀ direction, node'.side direction = (node.side direction).map there.port

namespace Graph

-- The outputs that the edges of a port come from, in the order of the edges.
def fedBy (graph : Graph) (port : Port) : List PortId :=
  (port.edges.filterMap graph.edge?).map (·.source)

-- The outputs that compute what a port is joined to.
theorem filterMap_aliasEnd (graph : Graph) (port : Port) :
    ((port.edges.filterMap graph.edge?).filterMap fun edge =>
      (graph.aliasEnd edge.source).toOption) =
        (graph.fedBy port).filterMap fun s => (graph.aliasEnd s).toOption := by
  rw [fedBy, List.filterMap_map]
  rfl

theorem Wired.mem_fedBy {graph : Graph} (hw : graph.Wired) {port : Port} {s : PortId} (h : s ∈ graph.fedBy port) :
    ∃ source, graph.port? s = some source ∧ source.direction = .output := by
  obtain ⟨edge, hmem, rfl⟩ := List.mem_map.mp h
  obtain ⟨e, -, hedge⟩ := List.mem_filterMap.mp hmem
  obtain ⟨source, hs, hd, -⟩ := hw.source hedge
  exact ⟨source, hs, hd⟩

theorem Wired.isEmpty_fedBy {graph : Graph} (hw : graph.Wired) {p : PortId} {port : Port}
    (hp : graph.port? p = some port) : (graph.fedBy port).isEmpty = port.edges.isEmpty := by
  cases hedges : port.edges with
  | nil => simp [Graph.fedBy, hedges]
  | cons e rest =>
      obtain ⟨edge, hedge, -⟩ := hw.incident hp (hedges ▸ List.mem_cons_self)
      simp [Graph.fedBy, hedges, List.filterMap_cons_some hedge]

-- Whatever the nodes of a set read belongs to the set as well.
structure Upstream (graph : Graph) (S : NodeId → Prop) : Prop where
  target : ∀ {p port t target}, graph.port? p = some port → S port.node →
    port.aliasOf = some t → graph.port? t = some target → S target.node
  edge : ∀ {p port e edge source}, graph.port? p = some port → S port.node →
    port.direction = .input → e ∈ port.edges → graph.edge? e = some edge →
    graph.port? edge.source = some source → S source.node

-- A port and what it is in the other graph. Where its own edges lead does not matter to an
-- output.
structure Counterpart (there : Renaming) (graph other : Graph) (port port' : Port) : Prop where
  node : port'.node = there.node port.node
  index : port'.index = port.index
  name : port'.name = port.name
  direction : port'.direction = port.direction
  flags : port'.flags = port.flags
  default : port'.default = port.default
  aliasOf : port'.aliasOf = port.aliasOf.map there.port
  isEmpty_edges : port.direction = .input → port'.edges.isEmpty = port.edges.isEmpty
  fedBy : port.direction = .input → other.fedBy port' = (graph.fedBy port).map there.port

-- Two graphs in which the nodes of a set read the same things in the same way, whatever
-- these are called.
structure Mirror (there : Renaming) (graph other : Graph) (S : NodeId → Prop) : Prop where
  hops : other.settings.maxAliasHops = graph.settings.maxAliasHops
  node : ∀ {n node}, S n → graph.node? n = some node →
    ∃ node', other.node? (there.node n) = some node' ∧ node.Counterpart there node'
  gone : ∀ {n}, S n → graph.node? n = none → other.node? (there.node n) = none
  port : ∀ {p port}, graph.port? p = some port → S port.node →
    ∃ port', other.port? (there.port p) = some port' ∧ Counterpart there graph other port port'

variable {there : Renaming} {graph other : Graph} {S : NodeId → Prop}

theorem Upstream.all (graph : Graph) : Upstream graph fun _ => True :=
  ⟨fun _ _ _ _ => trivial, fun _ _ _ _ _ _ => trivial⟩

-- The ports on a walk belong to nodes of the set, and have one direction.
theorem Upstream.walk (hc : Upstream graph S) (hw : graph.Wired) {stop : Port → Bool}
    {p : PortId} {port : Port} {chain : Chain} (hp : graph.port? p = some port)
    (hs : S port.node) (h : graph.Follows stop p chain) :
    ∀ q ∈ chain.ports, ∃ found, graph.port? q = some found ∧ S found.node ∧
      found.direction = port.direction := by
  induction h generalizing port with
  | stay _ _ =>
      intro q hq
      obtain rfl := List.mem_singleton.mp hq
      exact ⟨port, hp, hs, rfl⟩
  | pass hp' _ ha _ ih =>
      obtain rfl := Option.some.inj (hp'.symm.trans hp)
      obtain ⟨target, ht, htd⟩ := hw.target hp ha
      intro q hq
      rcases List.mem_cons.mp hq with rfl | hq
      · exact ⟨_, hp, hs, rfl⟩
      · obtain ⟨found, hf, hfs, hfd⟩ := ih ht (hc.target hp hs ha ht) q hq
        exact ⟨found, hf, hfs, hfd.trans htd⟩

theorem Upstream.chain (hc : Upstream graph S) (hw : graph.Wired) {stop : Port → Bool}
    {p : PortId} {port : Port} {chain : Chain} (hp : graph.port? p = some port)
    (hs : S port.node) (h : graph.chainFrom stop p = .ok chain) :
    ∀ q ∈ chain.ports, ∃ found, graph.port? q = some found ∧ S found.node := by
  intro q hq
  obtain ⟨found, hf, hfs, -⟩ := hc.walk hw hp hs (chainFrom_eq_ok_iff.mp h).1 q hq
  exact ⟨found, hf, hfs⟩

-- A walk from an input of the set ends at one.
theorem Upstream.last_input (hc : Upstream graph S) (hw : graph.Wired) {p : PortId} {port : Port}
    {chain : Chain} (hp : graph.port? p = some port) (hs : S port.node)
    (hd : port.direction = .input) (h : graph.inputChain p = .ok chain) :
    ∃ last, graph.port? chain.last = some last ∧ S last.node ∧ last.direction = .input := by
  obtain ⟨last, hl, hls, hld⟩ := hc.walk hw hp hs (chainFrom_eq_ok_iff.mp h).1
    chain.last (by simp [Chain.ports])
  exact ⟨last, hl, hls, hld.trans hd⟩

-- The sources of an input's edges belong to nodes of the set.
theorem Upstream.fedBy (hc : Upstream graph S) (hw : graph.Wired) {p s : PortId} {port : Port}
    (hp : graph.port? p = some port) (hs : S port.node) (hd : port.direction = .input)
    (h : s ∈ graph.fedBy port) : ∃ source, graph.port? s = some source ∧ S source.node := by
  obtain ⟨edge, hmem, rfl⟩ := List.mem_map.mp h
  obtain ⟨e, he, hedge⟩ := List.mem_filterMap.mp hmem
  obtain ⟨source, hsource, -⟩ := hw.source hedge
  exact ⟨source, hsource, hc.edge hp hs hd he hedge hsource⟩

namespace Mirror

variable (hm : Mirror there graph other S) (hc : Upstream graph S) (hw : graph.Wired)

include hm hc hw in
-- Walks from ports of the set are the same, if they stop at counterparts.
theorem walk (stop : Port → Bool) (d : Direction)
    (hstop : ∀ port port', port.direction = d → Counterpart there graph other port port' →
      stop port' = stop port) (hops : Nat) {p : PortId} {port : Port}
    (hp : graph.port? p = some port) (hs : S port.node) (hd : port.direction = d) :
    other.walkAliases stop hops (there.port p) =
      (graph.walkAliases stop hops p).map there.chain := by
  induction hops generalizing p port with
  | zero =>
      obtain ⟨port', hp', hsame⟩ := hm.port hp hs
      unfold walkAliases
      simp only [hp, hp', hstop port port' hd hsame, hsame.aliasOf]
      cases stop port <;> cases port.aliasOf <;> rfl
  | succ hops ih =>
      obtain ⟨port', hp', hsame⟩ := hm.port hp hs
      unfold walkAliases
      simp only [hp, hp', hstop port port' hd hsame, hsame.aliasOf]
      cases stop port with
      | true => rfl
      | false =>
          cases ht : port.aliasOf with
          | none => rfl
          | some t =>
              obtain ⟨target, hfound, htd⟩ := hw.target hp ht
              have hrest := ih hfound (hc.target hp hs ht hfound) (htd.trans hd)
              simp only [Bool.false_eq_true, if_false, Option.map_some, hrest]
              cases graph.walkAliases stop hops t <;> rfl

include hm hc hw in
theorem chainFrom (stop : Port → Bool) (d : Direction)
    (hstop : ∀ port port', port.direction = d → Counterpart there graph other port port' →
      stop port' = stop port) {p : PortId} {port : Port} (hp : graph.port? p = some port)
    (hs : S port.node) (hd : port.direction = d) :
    other.chainFrom stop (there.port p) =
      there.result ((graph.chainFrom stop p).map there.chain) := by
  simp only [Graph.chainFrom, hm.hops, hm.walk hc hw stop d hstop _ hp hs hd]
  cases graph.walkAliases stop graph.settings.maxAliasHops p <;> rfl

include hm hc hw in
theorem aliasChain {p : PortId} {port : Port} (hp : graph.port? p = some port)
    (hs : S port.node) :
    other.aliasChain (there.port p) = there.result ((graph.aliasChain p).map there.chain) :=
  hm.chainFrom hc hw _ port.direction (fun _ _ _ _ => rfl) hp hs rfl

include hm hc hw in
theorem inputChain {p : PortId} {port : Port} (hp : graph.port? p = some port)
    (hs : S port.node) (hd : port.direction = .input) :
    other.inputChain (there.port p) = there.result ((graph.inputChain p).map there.chain) :=
  hm.chainFrom hc hw _ .input (fun _ _ hin hsame => by rw [hsame.isEmpty_edges hin]) hp hs hd

include hm in
theorem applyFlags {ports : List PortId}
    (h : ∀ q ∈ ports, ∃ found, graph.port? q = some found ∧ S found.node) (value : Ragged) :
    other.applyFlags (ports.map there.port) value = graph.applyFlags ports value := by
  induction ports with
  | nil => rfl
  | cons q rest ih =>
      have hrest := ih fun r hr => h r (by simp [hr])
      obtain ⟨found, hf, hfs⟩ := h q (by simp)
      obtain ⟨found', hf', hsame⟩ := hm.port hf hfs
      simp only [Graph.applyFlags] at hrest
      simp only [Graph.applyFlags, List.map_cons, List.foldr_cons, hf, hf', hsame.flags, hrest]

include hm in
theorem locate {p : PortId} {port : Port} (hp : graph.port? p = some port) (hs : S port.node) :
    graph.locate p = .ok (port.node, port.index) ∧
      other.locate (there.port p) = .ok (there.node port.node, port.index) := by
  obtain ⟨port', hp', hsame⟩ := hm.port hp hs
  simp only [Graph.locate, hp, hp', hsame.node, hsame.index, and_self]

include hm in
theorem portAt? {n : NodeId} (hs : S n) (direction : Direction) (i : Nat) :
    other.portAt? (there.node n) direction i = (graph.portAt? n direction i).map there.port := by
  rw [portAt?_eq, portAt?_eq]
  cases hn : graph.node? n with
  | none => rw [hm.gone hs hn]; rfl
  | some node =>
      obtain ⟨node', hn', hsame⟩ := hm.node hs hn
      rw [hn', Option.bind_some, Option.bind_some, hsame.side, List.getElem?_map]

include hm in
theorem inputPort? {n : NodeId} (hs : S n) (i : Nat) :
    other.inputPort? (there.node n) i = (graph.inputPort? n i).map there.port :=
  hm.portAt? hs .input i

include hm in
theorem outputPort? {n : NodeId} (hs : S n) (o : Nat) :
    other.outputPort? (there.node n) o = (graph.outputPort? n o).map there.port :=
  hm.portAt? hs .output o

include hm in
theorem unit? {n : NodeId} (hs : S n) (o : Nat) :
    other.unit? (there.node n) o = graph.unit? n o := by
  cases hn : graph.node? n with
  | none => simp [Graph.unit?, hn, hm.gone hs hn]
  | some node =>
      obtain ⟨node', hn', hsame⟩ := hm.node hs hn
      simp [Graph.unit?, Node.unit?, hn, hn', hsame.units]

include hm in
theorem ownerUuid {p : PortId} {port : Port} (hp : graph.port? p = some port)
    (hs : S port.node) : other.ownerUuid (there.port p) = graph.ownerUuid p := by
  obtain ⟨port', hp', hsame⟩ := hm.port hp hs
  cases hn : graph.node? port.node with
  | none => simp [Graph.ownerUuid, hp, hp', hsame.node, hn, hm.gone hs hn]
  | some node =>
      obtain ⟨node', hn', hnode⟩ := hm.node hs hn
      simp [Graph.ownerUuid, hp, hp', hsame.node, hn, hn', hnode.uuid]

include hm in
theorem literal {port port' : Port} (hsame : Counterpart there graph other port port')
    (hs : S port.node) : other.literal port' = graph.literal port := by
  cases hn : graph.node? port.node with
  | none =>
      simp [Graph.literal, hsame.node, hsame.name, hsame.default, hn, hm.gone hs hn]
  | some node =>
      obtain ⟨node', hn', hnode⟩ := hm.node hs hn
      simp [Graph.literal, hsame.node, hsame.name, hsame.default, hn, hn', hnode.properties]

section Values

-- Results of the other graph, which are the same where something is read.
variable {value value' : NodeId → Nat → Except EvalError Ragged}

include hm in
theorem along {chain : Chain}
    (hports : ∀ q ∈ chain.ports, ∃ found, graph.port? q = some found ∧ S found.node)
    (h : ∀ m k, graph.locate chain.last = .ok (m, k) →
      value' (there.node m) k = there.result (value m k)) :
    other.along value' (there.chain chain) = there.result (graph.along value chain) := by
  obtain ⟨last, hl, hls⟩ := hports chain.last (by simp [Chain.ports])
  obtain ⟨hlocate, hlocate'⟩ := hm.locate hl hls
  have houter : ∀ v, other.applyFlags (chain.outer.map there.port) v =
      graph.applyFlags chain.outer v :=
    hm.applyFlags fun q hq => hports q (by simp [Chain.ports, hq])
  simp only [Graph.along, Renaming.chain_last, Renaming.chain_outer, hlocate, hlocate',
    funext houter, h _ _ hlocate, Renaming.map_result]

include hm hc hw in
theorem brought {p : PortId} {port : Port} (hp : graph.port? p = some port) (hs : S port.node)
    (h : ∀ chain, graph.aliasChain p = .ok chain → ∀ m k,
      graph.locate chain.last = .ok (m, k) → value' (there.node m) k = there.result (value m k)) :
    other.brought value' (there.port p) = there.result (graph.brought value p) := by
  simp only [Graph.brought, hm.aliasChain hc hw hp hs]
  cases hchain : graph.aliasChain p with
  | error e => rfl
  | ok chain =>
      have hports := hc.chain hw hp hs hchain
      obtain ⟨last, hl, hls⟩ := hports chain.last (by simp [Chain.ports])
      simp only [Except.map, Renaming.result_ok, hm.along hports (h chain hchain),
        Renaming.chain_last, hm.ownerUuid hl hls]
      cases graph.along value chain <;> rfl

include hm hc hw in
-- What the edges of an input bring is the same, from one edge to the next.
theorem gathered {p : PortId} {port port' : Port} (hp : graph.port? p = some port)
    (hs : S port.node) (hd : port.direction = .input)
    (hsame : Counterpart there graph other port port')
    (h : ∀ source ∈ graph.fedBy port, ∀ chain, graph.aliasChain source = .ok chain → ∀ m k,
      graph.locate chain.last = .ok (m, k) → value' (there.node m) k = there.result (value m k)) :
    (port'.edges.filterMap other.edge?).mapM (fun edge => other.brought value' edge.source) =
      there.result ((port.edges.filterMap graph.edge?).mapM
        fun edge => graph.brought value edge.source) := by
  have hbrought : ∀ s ∈ graph.fedBy port,
      other.brought value' (there.port s) = there.result (graph.brought value s) := by
    intro s hsource
    obtain ⟨source, hsp, hss⟩ := hc.fedBy hw hp hs hd hsource
    exact hm.brought hc hw hsp hss (h s hsource)
  have hfed := there.mapM_result hbrought
  rw [← hsame.fedBy hd] at hfed
  simpa only [Graph.fedBy, List.mapM_map, Function.comp_def] using hfed

include hm hc hw in
theorem received {p : PortId} {port : Port} (hp : graph.port? p = some port) (hs : S port.node)
    (hd : port.direction = .input)
    (h : ∀ source ∈ graph.producers p, ∀ m k, graph.locate source = .ok (m, k) →
      value' (there.node m) k = there.result (value m k)) :
    other.received value' (there.port p) = there.result (graph.received value p) := by
  simp only [Graph.received, hm.inputChain hc hw hp hs hd]
  cases hchain : graph.inputChain p with
  | error e => rfl
  | ok chain =>
      obtain ⟨last, hl, hls, hin⟩ := hc.last_input hw hp hs hd hchain
      obtain ⟨last', hl', hsame⟩ := hm.port hl hls
      have hflags := hm.applyFlags (hc.chain hw hp hs hchain)
      have hsources : ∀ s ∈ graph.fedBy last, ∀ far, graph.aliasChain s = .ok far → ∀ m k,
          graph.locate far.last = .ok (m, k) →
            value' (there.node m) k = there.result (value m k) := by
        intro s hsource far hfar
        obtain ⟨edge, hmem, rfl⟩ := List.mem_map.mp hsource
        obtain ⟨e, he, hedge⟩ := List.mem_filterMap.mp hmem
        exact h _ (graph.mem_producers_of_chain hchain hl he hedge rfl hfar)
      have hvalues := hm.gathered hc hw hl hls hin hsame hsources
      simp only [Except.map, Renaming.result_ok, Renaming.chain_last, Renaming.chain_ports, hl, hl',
        hsame.isEmpty_edges hin, hm.literal hsame hls, hvalues, funext hflags]
      cases last.edges.isEmpty with
      | true => rfl
      | false =>
          cases (last.edges.filterMap graph.edge?).mapM fun edge =>
            graph.brought value edge.source <;> rfl

include hm hc hw in
theorem producers {p : PortId} {port : Port} (hp : graph.port? p = some port)
    (hs : S port.node) (hd : port.direction = .input) :
    other.producers (there.port p) = (graph.producers p).map there.port := by
  simp only [Graph.producers, hm.inputChain hc hw hp hs hd]
  cases hchain : graph.inputChain p with
  | error e => rfl
  | ok chain =>
      obtain ⟨last, hl, hls, hin⟩ := hc.last_input hw hp hs hd hchain
      obtain ⟨last', hl', hsame⟩ := hm.port hl hls
      simp only [Except.map, Renaming.result_ok, Renaming.chain_last, hl, hl',
        Graph.filterMap_aliasEnd, hsame.fedBy hin]
      rw [List.filterMap_map, List.map_filterMap]
      refine List.filterMap_congr fun s hsource => ?_
      obtain ⟨source, hsp, hss⟩ := hc.fedBy hw hl hls hin hsource
      simp only [Function.comp, aliasEnd, hm.aliasChain hc hw hsp hss]
      cases graph.aliasChain s <;> rfl

include hm hc hw in
theorem sources {n : NodeId} (hs : S n) (o : Nat) :
    other.sources (there.node n) o = (graph.sources n o).map there.port := by
  simp only [Graph.sources, hm.unit? hs]
  cases graph.unit? n o with
  | none => rfl
  | some unit =>
      simp only [sourcesOf, hm.inputPort? hs, List.map_flatMap]
      rw [← List.map_filterMap, List.flatMap_map]
      refine List.flatMap_congr fun input hmem => ?_
      obtain ⟨i, -, hi⟩ := List.mem_filterMap.mp hmem
      obtain ⟨port, hp, hn, hd⟩ := hw.input_placed hi
      exact hm.producers hc hw hp (hn ▸ hs) hd

include hm in
theorem leave {n : NodeId} (hs : S n) (hw : graph.Wired) (o : Nat) (v : Ragged) :
    other.leave (there.node n) o v = graph.leave n o v := by
  simp only [Graph.leave, hm.outputPort? hs, Option.toList_map]
  refine hm.applyFlags (fun q hq => ?_) v
  obtain ⟨port, hport, hpn, -⟩ := hw.output_placed (Option.mem_toList.mp hq)
  exact ⟨port, hport, hpn ▸ hs⟩

include hm hc hw in
theorem receivedAt {n : NodeId} (hs : S n) (i : Nat)
    (h : ∀ p, graph.inputPort? n i = some p → ∀ source ∈ graph.producers p, ∀ m k,
      graph.locate source = .ok (m, k) → value' (there.node m) k = there.result (value m k)) :
    other.receivedAt value' (there.node n) i = there.result (graph.receivedAt value n i) := by
  simp only [Graph.receivedAt, hm.inputPort? hs]
  cases hp : graph.inputPort? n i with
  | none => rfl
  | some p =>
      obtain ⟨port, hport, hpn, hd⟩ := hw.input_placed hp
      exact hm.received hc hw hport (hpn ▸ hs) hd (h p hp)

include hm hc hw in
-- What an output computes is the same if its function fails in the same way.
theorem denote {n : NodeId} (hs : S n) (o : Nat)
    (hrun : ∀ unit, graph.unit? n o = some unit → ∀ inputs,
      there.result (unit.run inputs) = unit.run inputs)
    (h : ∀ source ∈ graph.sources n o, ∀ m k, graph.locate source = .ok (m, k) →
      value' (there.node m) k = there.result (value m k)) :
    other.denote value' (there.node n) o = there.result (graph.denote value n o) := by
  cases hn : graph.node? n with
  | none => simp only [Graph.denote, hn, hm.gone hs hn]; rfl
  | some node =>
      obtain ⟨node', hn', hsame⟩ := hm.node hs hn
      have hunit : node'.unit? o = node.unit? o := by simp [Node.unit?, hsame.units]
      simp only [Graph.denote, hn, hn', hunit, hsame.properties]
      cases hu : node.unit? o with
      | none => rfl
      | some unit =>
          have hfound : graph.unit? n o = some unit := by rw [Graph.unit?, hn, Option.bind_some, hu]
          have hreceived : ∀ i ∈ unit.inputs, other.receivedAt value' (there.node n) (id i) =
              there.result (graph.receivedAt value n i) := by
            refine fun i hi => hm.receivedAt hc hw hs i fun p hp source hsource => h source ?_
            rw [Graph.sources, hfound]
            exact List.mem_flatMap.mpr ⟨p, List.mem_filterMap.mpr ⟨i, hi, hp⟩, hsource⟩
          have hvalues := there.mapM_result hreceived
          rw [List.map_id] at hvalues
          simp only [hvalues, funext (hm.leave hs hw unit.output)]
          cases unit.inputs.mapM (graph.receivedAt value n) with
          | error e => rfl
          | ok values => simp only [Renaming.result_ok, ← Renaming.map_result, hrun unit hfound]

end Values

end Mirror

end Graph

end Dataflow
