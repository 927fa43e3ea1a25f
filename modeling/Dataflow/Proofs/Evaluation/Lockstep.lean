import Dataflow.Proofs.Evaluate
import Dataflow.Proofs.Evaluation.Outcome
import Dataflow.Proofs.Evaluation.Run
import Dataflow.Proofs.Graph.Refs

namespace Dataflow

namespace Renaming

def task (there : Renaming) : Task → Task
  | .visit port depth => .visit (there.port port) depth
  | .compute port => .compute (there.port port)

def outcome (there : Renaming) (outcome : Outcome) : Outcome :=
  ⟨there.node outcome.node, outcome.output, there.result outcome.result⟩

@[simp] theorem task_port (there : Renaming) (task : Task) :
    (there.task task).port = there.port task.port := by
  cases task <;> rfl

theorem map_looked (there : Renaming) (visited : List PortId) (task : Task) :
    (task.looked visited).map there.port = (there.task task).looked (visited.map there.port) := by
  cases task <;> rfl

end Renaming

theorem Node.Counterpart.of_bare {there : Renaming} {node node' a b : Node}
    (h : node.Counterpart there node') (ha : a.bare = node.bare) (hb : b.bare = node'.bare) :
    a.Counterpart there b := by
  have hbare : node.bare.Counterpart there node'.bare := ⟨h.uuid, h.properties, h.units, h.side⟩
  rw [← ha, ← hb] at hbare
  exact ⟨hbare.uuid, hbare.properties, hbare.units, hbare.side⟩

namespace Graph

variable {there : Renaming} {start other graph now now' : Graph} {S : NodeId → Prop}

-- The node is there.
def Live (graph : Graph) (n : NodeId) : Prop :=
  ∃ node, graph.node? n = some node

theorem Wired.upstream_live (hw : graph.Wired) : Upstream graph graph.Live :=
  ⟨fun _ _ _ ht => hw.owner ht, fun _ _ _ _ _ hs => hw.owner hs⟩

theorem Wired.live_of_locate (hw : graph.Wired) {p : PortId} {n : NodeId} {o : Nat}
    (h : graph.locate p = .ok (n, o)) : graph.Live n := by
  obtain ⟨port, hp, rfl, -⟩ := (locate_eq_ok_iff _ _ _).mp h
  exact hw.owner hp

theorem live_of_bare (h : now.bare = graph.bare) {n : NodeId} (hn : graph.Live n) : now.Live n := by
  obtain ⟨node, hn⟩ := hn
  obtain ⟨node', hn', -⟩ := Option.map_eq_some_iff.mp ((node?_of_bare h n).trans (by rw [hn]; rfl))
  exact ⟨node', hn'⟩

theorem live_of_ownSlot? {n : NodeId} {o : Nat} {slot : Slot} (h : graph.ownSlot? n o = some slot) :
    graph.Live n := by
  obtain ⟨node, hn, -⟩ := Option.bind_eq_some_iff.mp h
  exact ⟨node, hn⟩

theorem fedBy_of_bare (h : now.bare = graph.bare) (port : Port) :
    now.fedBy port = graph.fedBy port := by
  rw [fedBy, fedBy, funext (edge?_of_bare h)]

-- What is kept does not matter.
theorem Mirror.of_bare (hm : Mirror there graph other S) (h : now.bare = graph.bare)
    (h' : now'.bare = other.bare) : Mirror there now now' S where
  hops := by rw [settings_of_bare h', settings_of_bare h, hm.hops]
  node := by
    intro n node hs hn
    obtain ⟨found, hfound, hbare⟩ :=
      Option.map_eq_some_iff.mp ((node?_of_bare h n).symm.trans (by rw [hn]; rfl))
    obtain ⟨node', hn', hsame⟩ := hm.node hs hfound
    obtain ⟨found', hfound', hbare'⟩ := Option.map_eq_some_iff.mp
      ((node?_of_bare h' (there.node n)).trans (by rw [hn']; rfl))
    exact ⟨found', hfound', hsame.of_bare hbare.symm hbare'⟩
  gone := by
    intro n hs hn
    have hnone : graph.node? n = none :=
      Option.map_eq_none_iff.mp ((node?_of_bare h n).symm.trans (by rw [hn]; rfl))
    exact Option.map_eq_none_iff.mp ((node?_of_bare h' (there.node n)).trans
      (by rw [hm.gone hs hnone]; rfl))
  port := by
    intro p port hp hs
    obtain ⟨port', hp', hsame⟩ := hm.port ((port?_of_bare h p).symm.trans hp) hs
    refine ⟨port', (port?_of_bare h' _).trans hp', hsame.node, hsame.index, hsame.name,
      hsame.direction, hsame.flags, hsame.default, hsame.aliasOf, hsame.isEmpty_edges, fun hd => ?_⟩
    rw [fedBy_of_bare h', fedBy_of_bare h, hsame.fedBy hd]

-- A graph and its double, which has the same limits and computes the same under other names.
-- The functions of its nodes do not depend on these.
structure Double (there : Renaming) (graph other : Graph) : Prop where
  mirror : Mirror there graph other graph.Live
  injective : ∀ {n m}, graph.Live n → graph.Live m → there.node n = there.node m → n = m
  depth : other.settings.maxEvalDepth = graph.settings.maxEvalDepth
  run : ∀ {n o unit}, graph.unit? n o = some unit → ∀ inputs,
    there.result (unit.run inputs) = unit.run inputs

namespace Double

variable (hd : Double there graph other)

include hd in
theorem of_bare (h : now.bare = graph.bare) (h' : now'.bare = other.bare) :
    Double there now now' where
  mirror := by
    have hlive : now.Live = graph.Live :=
      funext fun _ => propext ⟨live_of_bare h.symm, live_of_bare h⟩
    exact hlive ▸ hd.mirror.of_bare h h'
  injective hn hm := hd.injective (live_of_bare h.symm hn) (live_of_bare h.symm hm)
  depth := by rw [settings_of_bare h', settings_of_bare h, hd.depth]
  run hu := hd.run ((unit?_of_bare h _ _).symm.trans hu)

include hd in
theorem exists_slot (hw : graph.Wired) (hw' : other.Wired) {n : NodeId} {o : Nat} {slot : Slot}
    (h : graph.ownSlot? n o = some slot) :
    ∃ slot', other.ownSlot? (there.node n) o = some slot' := by
  obtain ⟨node, hn, hslot⟩ := Option.bind_eq_some_iff.mp h
  obtain ⟨node', hn', hsame⟩ := hd.mirror.node ⟨node, hn⟩ hn
  obtain ⟨hlt, -⟩ := List.getElem?_eq_some_iff.mp hslot
  have houtputs : node'.outputs = node.outputs.map there.port := hsame.side .output
  have hlt' : o < node'.slots.length := by
    rwa [hw'.slots hn', houtputs, List.length_map, ← hw.slots hn]
  exact ⟨node'.slots[o], by simp [ownSlot?, hn', hlt']⟩

include hd in
-- A port is known by its node, its end and its index.
theorem port_injective (hw : graph.Wired) {p q : PortId} {port found : Port}
    (hp : graph.port? p = some port) (hq : graph.port? q = some found)
    (h : there.port p = there.port q) : p = q := by
  obtain ⟨port', hp', hsame⟩ := hd.mirror.port hp (hw.owner hp)
  obtain ⟨found', hq', hsame'⟩ := hd.mirror.port hq (hw.owner hq)
  rw [h] at hp'
  obtain rfl := Option.some.inj (hp'.symm.trans hq')
  have hnode := hd.injective (hw.owner hp) (hw.owner hq) (hsame.node.symm.trans hsame'.node)
  have hat := hw.owned hp
  rw [hnode, hsame.direction.symm.trans hsame'.direction, hsame.index.symm.trans hsame'.index,
    hw.owned hq] at hat
  exact (Option.some.inj hat).symm

end Double

-- What is kept of a port is the same in the double.
def Shared (there : Renaming) (start now now' : Graph) (p : PortId) : Prop :=
  ∃ n o, start.locate p = .ok (n, o) ∧
    now'.kept (there.node n) o = there.result (now.kept n o)

-- Two requests in the middle of the same work, one on a graph and one on its double. What is
-- fresh is the same on both sides, and so is all that this work has settled.
structure Lockstep (there : Renaming) (start other : Graph) (goal : PortId)
    (visited : List PortId) (tasks : List Task) (now now' : Graph) : Prop where
  loop : Loop start goal visited tasks now
  alike : now'.bare = other.bare
  values : ∀ {n}, start.Live n → ∀ o v,
    now'.kept (there.node n) o = .ok v ↔ now.kept n o = .ok v
  seen : Looked (Shared there start now now') visited tasks
  covered : Covered start goal (Shared there start now now') tasks

namespace Lockstep

variable {session session' next : Session} {goal : PortId} {visited looked : List PortId}
  {task : Task} {rest tasks : List Task} {n : NodeId} {o : Nat} {slot slot' : Slot}
  (hd : Double there start other) (hw : start.Wired) (hw' : other.Wired)

theorem freshAt_iff (h : Lockstep there start other goal visited tasks now now')
    (hn : start.Live n) : now'.FreshAt (there.node n) o ↔ now.FreshAt n o := by
  simp only [freshAt_iff_kept, h.values hn]

include hd hw in
-- What was looked at under its other name was looked at.
theorem mem_visited_iff (h : Lockstep there start other goal visited tasks now now')
    {p : PortId} {port : Port} (hp : start.port? p = some port) :
    there.port p ∈ visited.map there.port ↔ p ∈ visited := by
  refine ⟨fun hmem => ?_, List.mem_map_of_mem⟩
  obtain ⟨q, hq, heq⟩ := List.mem_map.mp hmem
  have hplace : ∃ n o, start.locate q = .ok (n, o) := by
    rcases h.seen q hq with ⟨n, o, hl, -⟩ | hwaits
    · exact ⟨n, o, hl⟩
    · obtain ⟨-, n, o, -, hl, -⟩ := h.loop.live _ hwaits
      exact ⟨n, o, hl⟩
  obtain ⟨n, o, hl⟩ := hplace
  obtain ⟨found, hfound, -⟩ := (locate_eq_ok_iff _ _ _).mp hl
  exact hd.port_injective hw hfound hp heq ▸ hq

include hd hw hw' in
-- Where the first task finds its output, in the double as well.
theorem place (h : Lockstep there start other goal visited (task :: rest) now now') :
    ∃ n o slot slot', now.locate task.port = .ok (n, o) ∧ now.ownSlot? n o = some slot ∧
      now'.locate (there.port task.port) = .ok (there.node n, o) ∧
      now'.ownSlot? (there.node n) o = some slot' := by
  obtain ⟨-, n, o, slot, hl, hslot⟩ := h.loop.live task (by simp)
  have hnow := hd.of_bare h.loop.alike h.alike
  have hln := (locate_of_bare h.loop.alike _).trans hl
  obtain ⟨slot', hslot'⟩ := hnow.exists_slot (hw.of_bare h.loop.alike) (hw'.of_bare h.alike) hslot
  obtain ⟨port, hp, rfl, rfl⟩ := (locate_eq_ok_iff _ _ _).mp hln
  obtain ⟨-, hl'⟩ := hnow.mirror.locate hp (live_of_ownSlot? hslot)
  exact ⟨_, _, slot, slot', hln, hslot, hl', hslot'⟩

include hd hw in
-- What follows from what is kept is the same where all that is read is settled.
theorem denote_eq (h : Lockstep there start other goal visited tasks now now') (hn : start.Live n)
    (hs : ∀ s ∈ start.sources n o, Shared there start now now' s) :
    now'.denote now'.kept (there.node n) o = there.result (now.denote now.kept n o) := by
  have hnow := hd.of_bare h.loop.alike h.alike
  have hwn : now.Wired := hw.of_bare h.loop.alike
  refine hnow.mirror.denote hwn.upstream_live hwn (live_of_bare h.loop.alike hn) o
    (fun _ hu => hnow.run hu) fun s hmem m k hm => ?_
  rw [sources_of_bare h.loop.alike] at hmem
  obtain ⟨m', k', hm', hkept⟩ := hs s hmem
  rw [locate_of_bare h.loop.alike, hm'] at hm
  obtain ⟨rfl, rfl⟩ := Prod.mk.inj (Except.ok.inj hm)
  exact hkept

include hd hw hw' in
-- The first task keeps the same on both sides.
theorem outcome?_eq (h : Lockstep there start other goal visited (task :: rest) session.graph
    session'.graph) : session'.outcome? (visited.map there.port) (there.task task) =
      (session.outcome? visited task).map there.outcome := by
  obtain ⟨n, o, slot, slot', hl, hslot, hl', hslot'⟩ := h.place hd hw hw'
  have hnow := hd.of_bare h.loop.alike h.alike
  have hlive := live_of_ownSlot? hslot
  have hstart := live_of_bare h.loop.alike.symm hlive
  simp only [Session.outcome?, Renaming.task_port, hl, hl', hslot, hslot', Option.bind_some]
  cases task with
  | compute p =>
      have hls : start.locate p = .ok (n, o) := (locate_of_bare h.loop.alike p).symm.trans hl
      simp only [Renaming.task, Option.map_some, Renaming.outcome,
        h.denote_eq hd hw hstart (h.covered.1 n o hls)]
  | visit p d =>
      obtain ⟨port, hp, -⟩ := (locate_eq_ok_iff _ _ _).mp hl
      have hfresh : slot'.state = .fresh ↔ slot.state = .fresh := by
        rw [← freshAt_iff_state hslot', ← freshAt_iff_state hslot, h.freshAt_iff hstart]
      have hvisited := h.mem_visited_iff hd hw ((port?_of_bare h.loop.alike p).symm.trans hp)
      simp only [Renaming.task, hfresh, List.contains_iff_mem, hvisited, hnow.mirror.unit? hlive,
        hnow.depth]
      split_ifs <;> rfl

-- The first task leaves both sides as they are.
theorem drop {p : PortId} {d : Nat}
    (h : Lockstep there start other goal visited (.visit p d :: rest) now now')
    (hl : start.locate p = .ok (n, o)) (hn : start.Live n) (hdone : now.FreshAt n o ∨ p ∈ visited)
    (hloop : Loop start goal visited rest now) :
    Lockstep there start other goal visited rest now now' := by
  have hshared : Shared there start now now' p := by
    rcases hdone with hf | hv
    · obtain ⟨v, hv⟩ := freshAt_iff_kept.mp hf
      exact ⟨n, o, hl, by rw [hv, (h.values hn o v).mpr hv, Renaming.result_ok]⟩
    · exact (h.seen p hv).resolve_right h.loop.not_pending
  have hnext : ∀ s, Shared there start now now' s ∨ s = p → Shared there start now now' s := by
    rintro s (hs | rfl)
    · exact hs
    · exact hshared
  exact ⟨hloop, h.alike, h.values, h.seen.pop (fun _ => .inl) hnext, h.covered.pop hnext⟩

include hd hw in
-- The first task ends with a result that both sides keep.
theorem keep (h : Lockstep there start other goal visited (task :: rest) now now')
    (hl : start.locate task.port = .ok (n, o)) (hslot : now.ownSlot? n o = some slot)
    (hslot' : now'.ownSlot? (there.node n) o = some slot') {r : Except EvalError Ragged}
    (hloop : Loop start goal looked rest (now.withSlot n o (slot.settle r)))
    (hlooked : ∀ p ∈ looked, p ∈ visited ∨ p = task.port) :
    Lockstep there start other goal looked rest (now.withSlot n o (slot.settle r))
      (now'.withSlot (there.node n) o (slot'.settle (there.result r))) := by
  have hlive : start.Live n := hw.live_of_locate hl
  have hkept : ∀ {m}, start.Live m → ∀ k,
      (now'.withSlot (there.node n) o (slot'.settle (there.result r))).kept (there.node m) k =
        if m = n ∧ k = o then there.result r else now'.kept (there.node m) k := by
    intro m hm k
    have hsame : there.node m = there.node n ↔ m = n :=
      ⟨hd.injective hm hlive, congrArg there.node⟩
    simp only [kept_withSlot hslot', hsame]
  have hshared : ∀ q, Shared there start now now' q ∨ q = task.port →
      Shared there start (now.withSlot n o (slot.settle r))
        (now'.withSlot (there.node n) o (slot'.settle (there.result r))) q := by
    rintro q (⟨m, k, hlq, hold⟩ | rfl)
    · refine ⟨m, k, hlq, ?_⟩
      rw [hkept (hw.live_of_locate hlq), kept_withSlot hslot]
      split
      · rfl
      · exact hold
    · refine ⟨n, o, hl, ?_⟩
      rw [hkept hlive, kept_withSlot hslot, if_pos ⟨rfl, rfl⟩, if_pos ⟨rfl, rfl⟩]
  constructor
  case loop => exact hloop
  case alike => rw [bare_withSlot, h.alike]
  case values =>
    intro m hm k v
    rw [hkept hm, kept_withSlot hslot]
    split
    · cases r <;> simp
    · exact h.values hm k v
  case seen => exact h.seen.pop hlooked hshared
  case covered => exact h.covered.pop hshared

-- The first task puts its output off on both sides.
theorem expand {p : PortId} {d : Nat}
    (h : Lockstep there start other goal visited (.visit p d :: rest) now now')
    (hl : start.locate p = .ok (n, o))
    (hloop : Loop start goal (p :: visited)
      ((start.sources n o).map (.visit · (d + 1)) ++ .compute p :: rest) now) :
    Lockstep there start other goal (p :: visited)
      ((start.sources n o).map (.visit · (d + 1)) ++ .compute p :: rest) now now' :=
  ⟨hloop, h.alike, h.values, h.seen.expand _, h.covered.expand hl⟩

variable (ha : start.Acyclic)

include hd hw hw' ha in
-- One task is done on both sides.
theorem step (h : Lockstep there start other goal visited (task :: rest) session.graph
    session'.graph) (hstep : session.step visited task = (.ok (looked, tasks), next)) :
    ∃ next', session'.step (visited.map there.port) (there.task task) =
        (.ok (looked.map there.port, tasks.map there.task), next') ∧
      Lockstep there start other goal looked (tasks ++ rest) next.graph next'.graph := by
  obtain ⟨n, o, slot, slot', hl, hslot, hl', hslot'⟩ := h.place hd hw hw'
  rw [← Renaming.task_port] at hl'
  have hls : start.locate task.port = .ok (n, o) := (locate_of_bare h.loop.alike _).symm.trans hl
  have hlive := hw.live_of_locate hls
  obtain ⟨port, hp, -⟩ := (locate_eq_ok_iff _ _ _).mp hls
  have hfresh := h.freshAt_iff (o := o) hlive
  have hvisited := h.mem_visited_iff hd hw hp
  rw [← Renaming.task_port] at hvisited
  have hout := h.outcome?_eq hd hw hw'
  obtain ⟨_, _, _, hagain, hloop, -⟩ := h.loop.step hw ha
  obtain ⟨rfl, rfl, rfl⟩ := Session.step_unique hagain hstep
  rcases session.step_cases visited hl hslot with
    ⟨hnone, ⟨d, htask⟩, hdone, hidle⟩ | ⟨r, -, -, hsome, -⟩ | ⟨hnone, hstale, hnew, d, htask, hdue⟩
  case inl =>
    obtain ⟨after, hafter, hidle⟩ := hidle
    obtain ⟨rfl, rfl, rfl⟩ := Session.step_unique hafter hstep
    obtain ⟨next', hstep', hidle'⟩ := Session.step_of_done hl' hslot' (by rw [hout, hnone]; rfl)
      (by rwa [hfresh, hvisited])
    refine ⟨next', hstep', ?_⟩
    rw [hidle'.graph]
    rw [hidle.graph] at hloop ⊢
    rw [htask] at h
    exact h.drop hls hlive hdone hloop
  case inr.inl =>
    obtain ⟨after, hafter, hkeeps⟩ := Session.step_of_outcome? hl hslot hsome
    obtain ⟨rfl, rfl, rfl⟩ := Session.step_unique hafter hstep
    obtain ⟨next', hstep', hkeeps'⟩ := Session.step_of_outcome? hl' hslot'
      (show _ = some (there.outcome ⟨n, o, r⟩) by rw [hout, hsome]; rfl)
    refine ⟨next', by rw [hstep', Renaming.map_looked]; rfl, ?_⟩
    rw [hkeeps'.graph]
    rw [hkeeps.graph] at hloop ⊢
    refine h.keep hd hw hls hslot hslot' hloop fun p hp => ?_
    cases task with
    | compute q => exact .inl hp
    | visit q d => exact (List.mem_cons.mp hp).symm
  case inr.inr =>
    obtain ⟨rfl, rfl, rfl⟩ := Session.step_unique hdue hstep
    obtain ⟨d', htask', hstep'⟩ := Session.step_of_due hl' hslot' (by rw [hout, hnone]; rfl)
      (by rwa [hfresh]) (by rwa [hvisited])
    cases task with
    | compute q => cases htask
    | visit p d =>
        obtain ⟨-, rfl⟩ := Task.visit.inj htask
        obtain ⟨-, rfl⟩ := Task.visit.inj htask'
        have hsources := (hd.of_bare h.loop.alike h.alike).mirror.sources
          (hw.of_bare h.loop.alike).upstream_live (hw.of_bare h.loop.alike)
          (live_of_bare h.loop.alike hlive) o
        refine ⟨session', ?_, ?_⟩
        · rw [hstep', hsources, List.map_append, List.map_map, List.map_map]
          rfl
        · rw [sources_of_bare h.loop.alike, List.append_assoc] at hloop ⊢
          exact h.expand hls hloop

include hd hw hw' ha in
-- All tasks are done on both sides, whatever bounds there are on their number.
theorem work (fuel fuel' : Nat) {next' : Session}
    (h : Lockstep there start other goal visited tasks session.graph session'.graph)
    (hdone : Session.work fuel visited tasks session = (.ok [], next))
    (hdone' : Session.work fuel' (visited.map there.port) (tasks.map there.task) session' =
      (.ok [], next')) :
    ∃ looked, Lockstep there start other goal looked [] next.graph next'.graph := by
  -- The induction follows the run on the graph; the double takes the same steps.
  induction hdone using Session.work_induction generalizing fuel' session' with
  | nil fuel visited =>
      rw [List.map_nil, Session.work_nil] at hdone'
      obtain ⟨-, rfl⟩ := Prod.mk.inj hdone'
      exact ⟨visited, h⟩
  | cons hstep _ ih =>
      obtain ⟨after, hstep', hnext⟩ := h.step hd hw hw' ha hstep
      obtain ⟨before, looked, more, next, rfl, hfirst, hrest⟩ := Session.step_of_work hdone'
      obtain ⟨rfl, rfl, rfl⟩ := Session.step_unique hstep' hfirst
      rw [← List.map_append] at hrest
      exact ih before hnext hrest

end Lockstep

section Evaluate

variable (hd : Double there graph other) (hg : graph.Healthy) (hg' : other.Healthy)
  (hstale : ∀ n o, ¬ graph.FreshAt n o) (hstale' : ∀ n o, ¬ other.FreshAt n o)

include hg hstale hstale' in
-- Where nothing is fresh, two requests for one output begin alike.
theorem Lockstep.begin {goal : PortId} {n : NodeId} {o : Nat} {slot : Slot}
    (hl : graph.locate goal = .ok (n, o)) (hslot : graph.ownSlot? n o = some slot) :
    Lockstep there graph other goal [] [.visit goal 0] graph other where
  loop := Session.loop_start (.start graph) hg.sound hl hslot
  alike := rfl
  values := fun _ k v => ⟨fun hv => absurd (freshAt_of_kept hv) (hstale' _ k),
    fun hv => absurd (freshAt_of_kept hv) (hstale _ k)⟩
  seen := by simp [Looked]
  covered := .inr rfl

include hd in
theorem Double.outputOf {n : NodeId} (hn : graph.Live n) (o : Nat) :
    other.outputOf (there.node n) o = there.result ((graph.outputOf n o).map there.port) := by
  obtain ⟨node, hnode⟩ := hn
  obtain ⟨node', hnode', hsame⟩ := hd.mirror.node ⟨node, hnode⟩ hnode
  have houtputs : node'.outputs = node.outputs.map there.port := hsame.side .output
  simp only [Graph.outputOf, hnode, hnode', houtputs, List.getElem?_map]
  cases node.outputs[o]? <;> rfl

include hd hg hg' hstale hstale' in
-- A request where nothing is fresh is answered alike by the double.
theorem Double.evaluate {n : NodeId} (hn : graph.Live n) (o : Nat) :
    (other.evaluate (there.node n) o).1 = there.result (graph.evaluate n o).1 := by
  simp only [Graph.evaluate, Session.evaluate, Session.start, hd.outputOf hn]
  cases hout : graph.outputOf n o with
  | error e => rfl
  | ok p =>
      obtain ⟨port, hp, rfl, -⟩ := hg.wired.output_placed (outputOf_eq_ok hout)
      simp only [Except.map, Renaming.result_ok, Session.evaluatePort,
        hd.mirror.aliasChain hg.wired.upstream_live hg.wired hp hn]
      cases hchain : graph.aliasChain p with
      | error e => rfl
      | ok chain =>
          obtain ⟨-, m, k, slot, hl, hslot⟩ := hg.wired.chain_of_output hout hchain
          obtain ⟨slot', hslot'⟩ := hd.exists_slot hg.wired hg'.wired hslot
          have hports := hg.wired.upstream_live.chain hg.wired hp hn hchain
          obtain ⟨last, hlast, hlive⟩ := hports chain.last (by simp [Chain.ports])
          obtain ⟨hl', hlocate⟩ := hd.mirror.locate hlast hlive
          obtain ⟨rfl, rfl⟩ := Prod.mk.inj (Except.ok.inj (hl.symm.trans hl'))
          obtain ⟨next, -, hwork, -⟩ := Session.work_placed (.start graph) hg.wired hg.acyclic
            hg.sound hl hslot
          obtain ⟨next', -, hwork', -⟩ := Session.work_placed (.start other) hg'.wired hg'.acyclic
            hg'.sound hlocate hslot'
          obtain ⟨looked, hend⟩ := (Lockstep.begin hg hstale hstale' hl hslot).work hd hg.wired
            hg'.wired hg.acyclic _ _ hwork hwork'
          have hread : next'.graph.readOutput (there.chain chain) =
              there.result (next.graph.readOutput chain) := by
            rw [readOutput_eq, readOutput_eq]
            refine (hd.mirror.of_bare hend.loop.alike hend.alike).along (fun q hq => ?_)
              fun m k hm => ?_
            · obtain ⟨found, hf, hlive⟩ := hports q hq
              exact ⟨found, (port?_of_bare hend.loop.alike q).trans hf, hlive⟩
            · obtain ⟨m', k', hm', hkept⟩ : Shared there graph next.graph next'.graph chain.last :=
                hend.covered
              rw [locate_of_bare hend.loop.alike, hm'] at hm
              obtain ⟨rfl, rfl⟩ := Prod.mk.inj (Except.ok.inj hm)
              exact hkept
          simp only [Session.start] at hwork hwork'
          simp only [Except.map, Renaming.result_ok, Session.settle, Renaming.chain_last, hwork,
            hwork', hread]

end Evaluate

end Graph

end Dataflow
