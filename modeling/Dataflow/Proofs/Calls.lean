import Dataflow.Proofs.Evaluation.Recorded
import Dataflow.Proofs.Evaluation.Run
import Dataflow.Proofs.Reachable

namespace Dataflow

namespace Graph

-- A walk whose end is read for an input: behind an edge of the port where the walk from
-- the input ends.
def ReadsThrough (graph : Graph) (input : PortId) (walk : Chain) : Prop :=
  ∃ chain port e edge, graph.inputChain input = .ok chain ∧ graph.port? chain.last = some port ∧
    e ∈ port.edges ∧ graph.edge? e = some edge ∧ graph.aliasChain edge.source = .ok walk

-- A walk whose end is read to compute an output.
def UnitReads (graph : Graph) (n : NodeId) (o : Nat) (walk : Chain) : Prop :=
  ∃ unit i input, graph.unit? n o = some unit ∧ i ∈ unit.inputs ∧
    graph.inputPort? n i = some input ∧ graph.ReadsThrough input walk

-- The end of a walk has nothing to read: no value that is up to date, and no error.
def FallsBack (graph : Graph) (walk : Chain) : Prop :=
  ∃ n o slot, graph.locate walk.last = .ok (n, o) ∧ graph.ownSlot? n o = some slot ∧
    ¬ (slot.state = .fresh ∧ slot.cache.isSome = true) ∧ slot.error = none

variable {graph : Graph}

-- Just there a reading answers that the output was not evaluated.
theorem readOutput_of_fallsBack {walk : Chain} (h : graph.FallsBack walk) :
    ∃ o, graph.readOutput walk = .error (.notEvaluated o) := by
  obtain ⟨n, o, slot, hl, hslot, hstale, herror⟩ := h
  refine ⟨o, ?_⟩
  simp only [readOutput, hl, hslot, herror, Option.getD_none]
  split
  · next hstate hcache => exact absurd ⟨hstate, hcache ▸ rfl⟩ hstale
  · rfl

theorem Done.not_fallsBack {failures : Failures} {walk : Chain}
    (h : Done failures graph walk.last) : ¬ graph.FallsBack walk := by
  rintro ⟨n, o, slot, hl, hslot, hstale, herror⟩
  obtain ⟨m, k, found, hl', hfound, hdone⟩ := h
  obtain ⟨rfl, rfl⟩ := Prod.mk.inj (Except.ok.inj (hl.symm.trans hl'))
  obtain rfl := Option.some.inj (hslot.symm.trans hfound)
  rcases hdone with hfresh | ⟨e, he, -⟩
  · refine hstale ⟨hfresh, ?_⟩
    rw [Slot.state] at hfresh
    split_ifs at hfresh with hinvalid hdirty hcache
    simpa [Option.isSome_iff_ne_none] using hcache
  · rw [herror] at he
    cases he

-- What is read was scheduled.
theorem mem_producers_of_readsThrough {input : PortId} {walk : Chain}
    (h : graph.ReadsThrough input walk) : walk.last ∈ graph.producers input := by
  obtain ⟨chain, port, e, edge, hchain, hport, he, hedge, hwalk⟩ := h
  simp only [producers, hchain, hport, List.mem_filterMap]
  exact ⟨edge, ⟨e, he, hedge⟩, by rw [aliasEnd, hwalk]; rfl⟩

theorem mem_sources_of_unitReads {n : NodeId} {o : Nat} {walk : Chain}
    (h : graph.UnitReads n o walk) : walk.last ∈ graph.sources n o := by
  obtain ⟨unit, i, input, hunit, hi, hinput, hreads⟩ := h
  simp only [sources, hunit, sourcesOf, List.mem_flatMap, List.mem_filterMap]
  exact ⟨input, ⟨i, hi, hinput⟩, mem_producers_of_readsThrough hreads⟩

end Graph

-- The requests that compute outputs.
inductive Call where
  | evaluate (node : NodeId) (output : Nat)
  | evaluatePort (port : PortId)
  | inputData (input : PortId)

namespace Call

-- A request for the value of a port is for an output, and one for what arrives at a port
-- for an input.
def Fits (graph : Graph) : Call → Prop
  | evaluate _ _ => True
  | evaluatePort port => ∃ found, graph.port? port = some found ∧ found.direction = .output
  | inputData input => ∃ found, graph.port? input = some found ∧ found.direction = .input

-- The values that a request answers, and the session after it.
def answer (session : Session) : Call → Except EvalError (List Ragged) × Session
  | evaluate node output =>
      ((session.evaluate node output).1.map fun value => [value], (session.evaluate node output).2)
  | evaluatePort port =>
      ((session.evaluatePort port).1.map fun value => [value], (session.evaluatePort port).2)
  | inputData input => session.inputData input

-- The outputs that a request brings up to date, one after the other.
def targets (graph : Graph) : Call → List PortId
  | evaluate node output => (graph.resolveOutput node output).toOption.toList
  | evaluatePort port => (graph.aliasEnd port).toOption.toList
  | inputData input => graph.producers input

-- What a request reads when that is done.
def reading (graph : Graph) : Call → Except EvalError (List Ragged)
  | evaluate node output =>
      (((graph.outputOf node output).bind graph.aliasChain).bind graph.readOutput).map
        fun value => [value]
  | evaluatePort port =>
      ((graph.aliasChain port).bind graph.readOutput).map fun value => [value]
  | inputData input => graph.readInput input

-- The walks that it reads the ends of.
def Reads (graph : Graph) (walk : Chain) : Call → Prop
  | evaluate node output => ∃ port, graph.outputOf node output = .ok port ∧
      graph.aliasChain port = .ok walk
  | evaluatePort port => graph.aliasChain port = .ok walk
  | inputData input => graph.ReadsThrough input walk

end Call

-- A request in the middle of its work: what it has recorded, the outputs that come after
-- the present one, the ports it has looked at for this one, and the tasks that are left.
structure Progress where
  failures : Failures
  todo : List PortId
  visited : List PortId
  tasks : List Task
  session : Session

-- The states that a request for some outputs goes through.
inductive Working (start : Session) (targets : List PortId) : Progress → Prop where
  | begin : Working start targets ⟨[], targets, [], [], start⟩
  | request {failures : Failures} {target : PortId} {todo visited : List PortId}
      {session : Session}
      (h : Working start targets ⟨failures, target :: todo, visited, [], session⟩) :
      Working start targets ⟨failures, todo, [], [.visit target 0], session⟩
  | task {failures : Failures} {todo visited looked : List PortId} {task : Task}
      {rest tasks : List Task} {session next : Session}
      (h : Working start targets ⟨failures, todo, visited, task :: rest, session⟩)
      (hstep : session.step visited task = (.ok (looked, tasks), next)) :
      Working start targets
        ⟨failures ++ session.recorded next task.port, todo, looked, tasks ++ rest, next⟩

namespace Working

open Dataflow.Graph

variable {start : Session} {targets : List PortId} {now : Progress}

def IsOutput (graph : Graph) (p : PortId) : Prop :=
  ∃ port, graph.port? p = some port ∧ port.direction = .output

theorem IsOutput.of_bare {graph other : Graph} (h : other.bare = graph.bare) {p : PortId}
    (hp : IsOutput graph p) : IsOutput other p := by
  obtain ⟨port, hport, hd⟩ := hp
  exact ⟨port, (port?_of_bare h p).trans hport, hd⟩

theorem IsOutput.exists_slot {graph : Graph} (hw : graph.Wired) {p : PortId}
    (hp : IsOutput graph p) :
    ∃ n o slot, graph.locate p = .ok (n, o) ∧ graph.ownSlot? n o = some slot := by
  obtain ⟨port, hport, hd⟩ := hp
  obtain ⟨slot, hslot⟩ := hw.slot_of_output hport hd
  exact ⟨port.node, port.index, slot,
    (locate_eq_ok_iff _ _ _).mpr ⟨port, hport, rfl, rfl⟩, hslot⟩

-- What holds all the way: the outputs before the present one are done, and so is what
-- the present one has got to.
structure Sure (start : Session) (targets : List PortId) (now : Progress) : Prop where
  consulted : Consulted start.graph now.session.graph
  split : ∃ finished, (∀ t ∈ finished, Done now.failures now.session.graph t) ∧
    (targets = finished ++ now.todo ∧ now.tasks = [] ∨
      ∃ goal base, targets = finished ++ goal :: now.todo ∧ base.bare = start.graph.bare ∧
        Loop base goal now.visited now.tasks now.session.graph ∧
        Recorded base goal now.failures now.visited now.tasks now.session.graph)

theorem Sure.finished {failures : Failures} {todo visited : List PortId} {session : Session}
    (h : Sure start targets ⟨failures, todo, visited, [], session⟩) :
    ∃ finished, targets = finished ++ todo ∧ ∀ t ∈ finished, Done failures session.graph t := by
  obtain ⟨finished, hdone, ⟨htargets, -⟩ | ⟨goal, base, htargets, -, -, hrecorded⟩⟩ := h.split
  · exact ⟨finished, htargets, hdone⟩
  · refine ⟨finished ++ [goal], by rw [htargets, List.append_assoc]; rfl, fun t ht => ?_⟩
    rcases List.mem_append.mp ht with ht | ht
    · exact hdone t ht
    · exact List.mem_singleton.mp ht ▸ hrecorded.covered

-- What the loop over the tasks leads to is such a state again.
theorem work {failures : Failures} {todo visited : List PortId} {tasks : List Task}
    {session next : Session} {fuel : Nat}
    (h : Working start targets ⟨failures, todo, visited, tasks, session⟩)
    (hwork : Session.work fuel visited tasks session = (.ok [], next)) :
    ∃ failures' visited', Working start targets ⟨failures', todo, visited', [], next⟩ := by
  induction hwork using Session.work_induction generalizing failures with
  | nil fuel visited => exact ⟨failures, visited, h⟩
  | cons hstep _ ih => exact ih (h.task hstep)

section Run

variable (hw : start.graph.Wired) (ha : start.graph.Acyclic) (hs : start.graph.Sound)
  (houtputs : ∀ t ∈ targets, IsOutput start.graph t)

include hw ha hs houtputs

theorem sure (h : Working start targets now) : Sure start targets now := by
  induction h with
  | begin => exact ⟨⟨rfl, hs⟩, [], by simp, .inl ⟨rfl, rfl⟩⟩
  | @request failures target todo visited session _ ih =>
      obtain ⟨finished, htargets, hdone⟩ := ih.finished
      have ht : target ∈ targets := htargets ▸ List.mem_append_right _ List.mem_cons_self
      obtain ⟨n, o, slot, hl, hslot⟩ :=
        ((houtputs target ht).of_bare ih.consulted.1).exists_slot (hw.of_bare ih.consulted.1)
      refine ⟨ih.consulted, finished, hdone, .inr ⟨target, session.graph, htargets,
        ih.consulted.1, session.loop_start ih.consulted.2 hl hslot, ?_, .inr rfl⟩⟩
      simp
  | @task failures todo visited looked task rest tasks session next _ hstep ih =>
      obtain ⟨finished, hdone, ⟨-, hnone⟩ | ⟨goal, base, htargets, hbase, hloop, hrecorded⟩⟩ :=
        ih.split
      · cases hnone
      have hwb : base.Wired := hw.of_bare hbase
      have hab : base.Acyclic := ha.of_bare hbase
      obtain ⟨more, others, after, hstep', hloop', -⟩ := hloop.step hwb hab
      obtain ⟨rfl, rfl, rfl⟩ := Session.step_unique hstep' hstep
      exact ⟨⟨hloop'.alike.trans hbase, hloop'.sound⟩, finished,
        fun t ht => (hdone t ht).step hloop hstep,
        .inr ⟨goal, base, htargets, hbase, hloop', hrecorded.step hloop hstep⟩⟩

-- A request gets to its end.
theorem settleAll_ok {failures : Failures} {todo visited : List PortId} {session : Session}
    (h : Working start targets ⟨failures, todo, visited, [], session⟩) :
    ∃ failures' visited' last, Session.settleAll todo session = (.ok (), last) ∧
      Working start targets ⟨failures', [], visited', [], last⟩ := by
  induction todo generalizing failures visited session with
  | nil => exact ⟨failures, visited, session, rfl, h⟩
  | cons target todo ih =>
      have hsure := h.sure hw ha hs houtputs
      obtain ⟨finished, htargets, -⟩ := hsure.finished
      have ht : target ∈ targets := htargets ▸ List.mem_append_right _ List.mem_cons_self
      have hws := hw.of_bare hsure.consulted.1
      obtain ⟨n, o, slot, hl, hslot⟩ :=
        ((houtputs target ht).of_bare hsure.consulted.1).exists_slot hws
      obtain ⟨next, seen, hwork, -⟩ :=
        session.work_placed hws (ha.of_bare hsure.consulted.1) hsure.consulted.2 hl hslot
      obtain ⟨failures', visited', hnext⟩ := h.request.work hwork
      obtain ⟨failures'', visited'', last, hsettle, hlast⟩ := ih hnext
      refine ⟨failures'', visited'', last, ?_, hlast⟩
      have hfirst : session.settle target = (.ok (), next) := by
        simp only [Session.settle, hwork]
        rfl
      simp only [Session.settleAll, hfirst, hsettle]

end Run

end Working

namespace Call

open Dataflow.Graph

variable {graph other : Graph} {call : Call}

theorem mem_targets_of_reads {walk : Chain} (h : call.Reads graph walk) :
    walk.last ∈ call.targets graph := by
  cases call with
  | evaluate node output =>
      obtain ⟨port, hport, hwalk⟩ := h
      have hend : graph.resolveOutput node output = .ok walk.last := by
        rw [resolveOutput, hport]
        show graph.aliasEnd port = _
        rw [aliasEnd, hwalk]
        rfl
      rw [targets, hend]
      exact List.mem_singleton_self _
  | evaluatePort port =>
      have hend : graph.aliasEnd port = .ok walk.last := by
        have hwalk : graph.aliasChain port = .ok walk := h
        rw [aliasEnd, hwalk]
        rfl
      rw [targets, hend]
      exact List.mem_singleton_self _
  | inputData input => exact mem_producers_of_readsThrough h

theorem aliasEnd_output (hw : graph.Wired) {p t : PortId} (hp : Working.IsOutput graph p)
    (h : graph.aliasEnd p = .ok t) : Working.IsOutput graph t := by
  obtain ⟨port, hport, hd⟩ := hp
  rw [aliasEnd] at h
  cases hwalk : graph.aliasChain p with
  | error e =>
      rw [hwalk] at h
      cases h
  | ok walk =>
      rw [hwalk] at h
      obtain rfl := Except.ok.inj h
      obtain ⟨last, hlast, hdirection, -⟩ :=
        hw.walk_end hport (chainFrom_eq_ok_iff.mp hwalk).1
      exact ⟨last, hlast, hdirection.trans hd⟩

-- Nothing but outputs is brought up to date.
theorem targets_output (hw : graph.Wired) (hfits : call.Fits graph) {t : PortId}
    (ht : t ∈ call.targets graph) : Working.IsOutput graph t := by
  have hmem : ∀ {end_ : Except EvalError PortId}, t ∈ end_.toOption.toList → end_ = .ok t := by
    intro end_ h
    cases end_ with
    | error e => cases h
    | ok found => rw [List.mem_singleton.mp h]
  cases call with
  | evaluate node output =>
      have hend := hmem ht
      rw [resolveOutput] at hend
      cases hport : graph.outputOf node output with
      | error e =>
          rw [hport] at hend
          cases hend
      | ok port =>
          rw [hport] at hend
          refine aliasEnd_output hw ?_ hend
          rw [outputOf] at hport
          split at hport
          · cases hport
          next found hn =>
          split at hport
          · next out hout =>
            obtain rfl := Except.ok.inj hport
            have hat : graph.outputPort? node output = some out := by
              rw [outputPort?, hn]
              exact hout
            obtain ⟨port, hp, -, hd⟩ := hw.output_placed hat
            exact ⟨port, hp, hd⟩
          · cases hport
  | evaluatePort port => exact aliasEnd_output hw hfits (hmem ht)
  | inputData input =>
      obtain ⟨port, hp, hd⟩ := hfits
      obtain ⟨source, hs, hout, -⟩ := hw.mem_producers hp hd ht
      exact ⟨source, hs, hout⟩

theorem targets_of_bare (h : other.bare = graph.bare) : call.targets other = call.targets graph := by
  cases call with
  | evaluate node output => rw [targets, targets, resolveOutput_of_bare h]
  | evaluatePort port => rw [targets, targets, aliasEnd_of_bare h]
  | inputData input => exact producers_of_bare h input

-- The answer to a request for a port, once what it reads is up to date.
theorem evaluatePort_eq {session last : Session}
    (h : last.graph.bare = session.graph.bare) {port : PortId}
    (hsettle : Session.settleAll (session.graph.aliasEnd port).toOption.toList session =
      (.ok (), last)) :
    session.evaluatePort port =
      ((last.graph.aliasChain port).bind last.graph.readOutput, last) := by
  rw [aliasChain_of_bare h]
  cases hwalk : session.graph.aliasChain port with
  | error e =>
      rw [aliasEnd, hwalk] at hsettle
      obtain ⟨-, rfl⟩ := Prod.mk.inj hsettle
      simp only [Session.evaluatePort, hwalk]
      rfl
  | ok walk =>
      have hfirst : session.settle walk.last = (.ok (), last) := by
        rw [aliasEnd, hwalk] at hsettle
        change Session.settleAll [walk.last] session = _ at hsettle
        simp only [Session.settleAll] at hsettle
        split at hsettle
        · cases hsettle
        · next heq => rw [heq, ← hsettle]
      simp only [Session.evaluatePort, hwalk, hfirst]
      rfl

theorem answer_eq {session last : Session}
    (h : last.graph.bare = session.graph.bare)
    (hsettle : Session.settleAll (call.targets session.graph) session = (.ok (), last)) :
    call.answer session = (call.reading last.graph, last) := by
  cases call with
  | evaluate node output =>
      rw [answer, reading, outputOf_of_bare h, Session.evaluate]
      cases hport : session.graph.outputOf node output with
      | error e =>
          rw [targets, resolveOutput, hport] at hsettle
          obtain ⟨-, rfl⟩ := Prod.mk.inj hsettle
          rfl
      | ok port =>
          rw [targets, resolveOutput, hport] at hsettle
          simp only [evaluatePort_eq h hsettle]
          rfl
  | evaluatePort port =>
      rw [answer, reading, evaluatePort_eq h hsettle]
  | inputData input =>
      rw [answer, reading, Session.inputData]
      have hproducers : Session.settleAll (session.graph.producers input) session =
        (.ok (), last) := hsettle
      rw [hproducers]

end Call

namespace Graph

-- In every request each output is computed from results that are up to date or from
-- failures that this request has recorded, no output is looked at while it waits to be
-- computed, and in the end the answer is read from such results, too. So nothing is ever
-- read of an output that was not evaluated.
theorem reachable_reads_settled {session : Session} (h : Reachable session.graph) {call : Call}
    (hfits : call.Fits session.graph) :
    (∀ failures todo visited p rest now,
      Working session (call.targets session.graph)
        ⟨failures, todo, visited, .compute p :: rest, now⟩ →
      ∀ n o walk, now.graph.locate p = .ok (n, o) → now.graph.UnitReads n o walk →
        Done failures now.graph walk.last ∧ ¬ now.graph.FallsBack walk) ∧
    (∀ failures todo visited p d rest now,
      Working session (call.targets session.graph)
        ⟨failures, todo, visited, .visit p d :: rest, now⟩ →
      ∀ q, .compute q ∈ rest → now.graph.locate q ≠ now.graph.locate p) ∧
    ∃ failures visited last,
      Working session (call.targets session.graph) ⟨failures, [], visited, [], last⟩ ∧
      call.answer session = (call.reading last.graph, last) ∧
      ∀ walk, call.Reads last.graph walk →
        Done failures last.graph walk.last ∧ ¬ last.graph.FallsBack walk := by
  have hg := h.healthy
  have houtputs := fun t => @Call.targets_output _ call hg.wired hfits t
  have hsure := fun {now} hworking =>
    @Working.sure session _ now hg.wired hg.acyclic hg.sound houtputs hworking
  refine ⟨?_, ?_, ?_⟩
  · intro failures todo visited p rest now hworking n o walk hl hreads
    obtain ⟨-, -, ⟨-, hnone⟩ | ⟨goal, base, -, hbase, hloop, hrecorded⟩⟩ := (hsure hworking).split
    · cases hnone
    have hdone : Done failures now.graph walk.last := by
      refine hrecorded.covered.1 n o ?_ walk.last ?_
      · rw [← locate_of_bare hloop.alike]
        exact hl
      · rw [← sources_of_bare hloop.alike]
        exact mem_sources_of_unitReads hreads
    exact ⟨hdone, hdone.not_fallsBack⟩
  · intro failures todo visited p d rest now hworking q hq heq
    obtain ⟨-, -, ⟨-, hnone⟩ | ⟨goal, base, -, -, hloop, -⟩⟩ := (hsure hworking).split
    · cases hnone
    have hlt := (List.pairwise_cons.mp hloop.order).1 _ hq q rfl
    rw [locate_of_bare hloop.alike, locate_of_bare hloop.alike] at heq
    simp only [rankOf, Task.port, heq] at hlt
    exact Nat.lt_irrefl _ hlt
  · obtain ⟨failures, visited, last, hsettle, hworking⟩ :=
      Working.begin.settleAll_ok hg.wired hg.acyclic hg.sound houtputs
    have hlast := hsure hworking
    refine ⟨failures, visited, last, hworking,
      Call.answer_eq hlast.consulted.1 hsettle, fun walk hreads => ?_⟩
    obtain ⟨finished, htargets, hdone⟩ := hlast.finished
    have hmem := Call.mem_targets_of_reads hreads
    rw [Call.targets_of_bare hlast.consulted.1, htargets, List.append_nil] at hmem
    exact ⟨hdone _ hmem, (hdone _ hmem).not_fallsBack⟩

-- The second of two nodes that hand on what they are given, about to be computed.
theorem relays_settled_before_read : ∃ failures visited now,
    Working (.start relays) [⟨4⟩] ⟨failures, [], visited, [.compute ⟨4⟩], now⟩ ∧
      now.graph.UnitReads ⟨2⟩ 0 ⟨[], ⟨2⟩⟩ ∧ Done failures now.graph ⟨2⟩ := by
  have hbegin : Working (.start relays) [⟨4⟩] ⟨[], [], [], [.visit ⟨4⟩ 0], .start relays⟩ :=
    Working.begin.request
  have hwaits := (hbegin.task rfl).task rfl
  have hcomputed := hwaits.task rfl
  have hreads : ((Session.start relays).compute ⟨1⟩ 0).graph.UnitReads ⟨2⟩ 0 ⟨[], ⟨2⟩⟩ :=
    ⟨_, 0, ⟨3⟩, rfl, by decide, rfl, ⟨[], ⟨3⟩⟩, _, ⟨1⟩, _, rfl, rfl, by decide, rfl, rfl⟩
  refine ⟨_, _, _, hcomputed, hreads, ?_⟩
  exact ((@reachable_reads_settled (.start relays) relays_reachable (.evaluatePort ⟨4⟩)
    ⟨_, rfl, rfl⟩).1 _ _ _ _ _ _ hcomputed ⟨2⟩ 0 _ rfl hreads).1

end Graph

end Dataflow
