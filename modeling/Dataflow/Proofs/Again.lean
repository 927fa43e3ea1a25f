import Dataflow.Proofs.Evaluation.Thinned

namespace Dataflow

namespace Graph

variable {start : Graph} {goal p : PortId} {fuel : Nat}
  {visited visited' looked : List PortId} {task : Task} {rest rest' tasks tasks' : List Task}
  {n m : NodeId} {o k : Nat} {session again next last : Session}

theorem Wired.exists_slot_of_plain (hw : start.Wired) (hp : start.Plain p)
    (hl : start.locate p = .ok (n, o)) : ∃ slot, start.ownSlot? n o = some slot := by
  obtain ⟨port, hport, hd, -⟩ := hp
  obtain ⟨found, hfound, rfl, rfl⟩ := (locate_eq_ok_iff _ _ _).mp hl
  obtain rfl := Option.some.inj (hport.symm.trans hfound)
  exact hw.slot_of_output hport hd

-- A task looks at its own output and no other, and leads to those that the output reads.
theorem Loop.step_shape
    (h : Loop start goal visited (task :: rest) session.graph)
    (hstep : session.step visited task = (.ok (looked, tasks), next)) :
    (looked = visited ∨ looked = task.port :: visited) ∧
    (tasks = [] ∨ ∃ n o d, start.locate task.port = .ok (n, o) ∧
      tasks = (start.sources n o).map (.visit · (d + 1)) ++ [.compute task.port]) := by
  obtain ⟨n, o, slot, hl, hln, hslot⟩ := h.placed
  rcases session.step_cases visited hln hslot with
    ⟨-, -, -, after, hstep', -⟩ | ⟨r, _, after, -, hstep', -, -, hcase⟩ |
      ⟨-, -, -, d, htask, hstep'⟩
  · obtain ⟨rfl, rfl, -⟩ := Session.step_unique hstep' hstep
    exact ⟨.inl rfl, .inl rfl⟩
  · obtain ⟨rfl, rfl, -⟩ := Session.step_unique hstep' hstep
    exact ⟨hcase.imp (·.2.1) (·.2.2.2.1), .inl rfl⟩
  · obtain ⟨rfl, rfl, -⟩ := Session.step_unique hstep' hstep
    exact ⟨.inr rfl, .inr ⟨n, o, d, hl, by rw [sources_of_bare h.alike]⟩⟩

-- A request in the middle of its work, and the same request made again on the graph that it
-- leaves behind. Both are before the same tasks but for those of outputs that are fresh in
-- the end, and both have looked at the same outputs but for these.
structure Again (start : Graph) (goal : PortId) (last : Session) (fuel : Nat)
    (visited visited' : List PortId) (tasks tasks' : List Task) (session again : Session) :
    Prop where
  resting : Resting start goal visited tasks session.graph
  run : Session.work fuel visited tasks session = (.ok [], last)
  thinned : Thinned last.graph.Fresh tasks tasks'
  seen : ∀ p, ¬ last.graph.Fresh p → (p ∈ visited' ↔ p ∈ visited)
  graph : again.graph = last.graph

namespace Again

variable (hw : start.Wired) (ha : start.Acyclic) (hgoal : start.Plain goal)

section Slots

-- Where a task finds its output, both times.
theorem place (hw : start.Wired) (hgoal : start.Plain goal) (halike : last.graph.bare = start.bare)
    (h : Again start goal last fuel visited visited' (task :: rest) tasks' session again) :
    ∃ n o slot slot', start.locate task.port = .ok (n, o) ∧
      session.graph.locate task.port = .ok (n, o) ∧ session.graph.ownSlot? n o = some slot ∧
      again.graph.locate task.port = .ok (n, o) ∧ again.graph.ownSlot? n o = some slot' := by
  obtain ⟨n, o, slot, hl, hln, hslot⟩ := h.resting.loop.placed
  obtain ⟨port, hp, hd, halias⟩ := h.resting.loop.plain hgoal
  have hl' : last.graph.locate task.port = .ok (n, o) := (locate_of_bare halike _).trans hl
  obtain ⟨slot', hslot'⟩ := (hw.of_bare halike).exists_slot_of_plain
    ⟨port, (port?_of_bare halike _).trans hp, hd, halias⟩ hl'
  rw [h.graph]
  exact ⟨n, o, slot, slot', hl, hln, hslot, hl', hslot'⟩

variable (h : Again start goal last fuel visited visited' (task :: rest) tasks' session again)
  (halike : last.graph.bare = start.bare)

include hw ha hgoal h

theorem kept (hp : Rested start visited (task :: rest) session.graph p)
    (hl : start.locate p = .ok (n, o)) :
    last.graph.ownSlot? n o = session.graph.ownSlot? n o :=
  h.resting.work hw ha hgoal fuel h.run hp hl

include halike

-- What is not fresh in the end is not fresh on the way.
theorem stale (hs : ¬ last.graph.Fresh task.port) (hl : start.locate task.port = .ok (n, o)) :
    ¬ session.graph.FreshAt n o := by
  rintro ⟨slot, hslot, hstate⟩
  have hplain := h.resting.loop.plain hgoal
  have hsame := h.kept hw ha hgoal ⟨hplain, n, o, hl, .inl ⟨slot, hslot, hstate⟩⟩ hl
  exact hs ⟨n, o, (locate_of_bare halike _).trans hl, slot, hsame.trans hslot, hstate⟩

-- A task for an output that stays stale keeps the same both times.
theorem outcome?_eq (hs : ¬ last.graph.Fresh task.port) :
    again.outcome? visited' task = session.outcome? visited task := by
  obtain ⟨n, o, slot, slot', hl, hln, hslot, hla, hslot'⟩ := h.place hw hgoal halike
  have hstale := h.stale hw ha hgoal halike hs hl
  have hstale' : ¬ again.graph.FreshAt n o := fun hf => hs (h.graph ▸ ⟨n, o, hla, hf⟩)
  rw [freshAt_iff_state hslot] at hstale
  rw [freshAt_iff_state hslot'] at hstale'
  simp only [Session.outcome?, hln, hla, hslot, hslot', Option.bind_some]
  cases task with
  | compute p =>
      simp only [h.graph, h.resting.denote_eq hw ha hgoal fuel h.run halike hl]
  | visit p d =>
      have hseen := h.seen p hs
      simp only [hstale, hstale', List.contains_iff_mem, hseen, h.graph, unit?_of_bare halike,
        unit?_of_bare h.resting.loop.alike, settings_of_bare halike,
        settings_of_bare h.resting.loop.alike]

end Slots

section Steps

-- What is fresh in the end is looked at the second time, and left as it is.
theorem second {d : Nat}
    (h : Again start goal last fuel visited visited' tasks (.visit p d :: rest') session again)
    (hf : last.graph.Fresh p) (hrest : Thinned last.graph.Fresh tasks rest') :
    ∃ next, again.step visited' (.visit p d) = (.ok (visited', []), next) ∧
      Again start goal last fuel visited visited' tasks rest' session next := by
  obtain ⟨n, o, hl, slot, hslot, hstate⟩ := hf
  rw [← h.graph] at hl hslot
  have hnone : again.outcome? visited' (.visit p d) = none := by
    simp [Session.outcome?, Task.port, hl, hslot, hstate]
  obtain ⟨next, hstep, hidle⟩ := Session.step_of_done hl hslot hnone (.inl ⟨slot, hslot, hstate⟩)
  exact ⟨next, hstep, h.resting, h.run, hrest, h.seen, hidle.graph.trans h.graph⟩

include hw ha hgoal

-- The first request brings up to date what the second finds fresh, with everything that is
-- read for it,
theorem first (hs : last.graph.Sound) (halike : last.graph.bare = start.bare)
    (h : Again start goal last fuel visited visited' (task :: rest) tasks' session again)
    (hf : last.graph.Fresh task.port) (hrest : Thinned last.graph.Fresh rest tasks') :
    ∃ before looked more next, fuel = before + 1 ∧
      Again start goal last before looked visited' (more ++ rest) tasks' next again := by
  obtain ⟨before, looked, more, next, rfl, hstep, hrun⟩ := Session.step_of_work h.run
  obtain ⟨hlooked, hmore⟩ := h.resting.loop.step_shape hstep
  refine ⟨before, looked, more, next, rfl, (h.resting.step hw ha hgoal hstep).1, hrun,
    .append_first (fun t ht => ?_) hrest, fun p hp => ?_, h.graph⟩
  · rcases hmore with rfl | ⟨n, o, d, hl, rfl⟩
    · cases ht
    · obtain ⟨n', o', hl', slot, hslot, hstate⟩ := hf
      rw [locate_of_bare halike, hl] at hl'
      obtain ⟨rfl, rfl⟩ := Prod.mk.inj (Except.ok.inj hl')
      obtain ⟨-, -, -, hsources⟩ := hs n o slot hslot hstate
      rcases List.mem_append.mp ht with ht | ht
      · obtain ⟨s, hs, rfl⟩ := List.mem_map.mp ht
        obtain ⟨-, source, -, hsource, -⟩ := hw.mem_sources hs
        have hls : last.graph.locate s = .ok (source.node, source.index) :=
          (locate_of_bare halike s).trans ((locate_eq_ok_iff _ _ _).mpr ⟨source, hsource, rfl, rfl⟩)
        rw [← sources_of_bare halike] at hs
        exact ⟨_, _, hls, hsources s hs _ _ hls⟩
      · obtain rfl := List.mem_singleton.mp ht
        exact ⟨n, o, (locate_of_bare halike _).trans hl, slot, hslot, hstate⟩
  · rw [h.seen p hp]
    rcases hlooked with rfl | rfl
    · rfl
    · have hne : p ≠ task.port := fun heq => hp (heq ▸ hf)
      simp [hne]

-- and what it does not get done comes to the same both times.
theorem both (halike : last.graph.bare = start.bare)
    (h : Again start goal last fuel visited visited' (task :: rest) (task :: rest') session again)
    (hs : ¬ last.graph.Fresh task.port) (hrest : Thinned last.graph.Fresh rest rest') :
    ∃ before looked looked' more next next', fuel = before + 1 ∧
      again.step visited' task = (.ok (looked', more), next') ∧
      Again start goal last before looked looked' (more ++ rest) (more ++ rest') next next' := by
  obtain ⟨before, looked, more, next, rfl, hstep, hrun⟩ := Session.step_of_work h.run
  obtain ⟨hresting, hself, -⟩ := h.resting.step hw ha hgoal hstep
  obtain ⟨n, o, slot, slot', hl, hln, hslot, hla, hslot'⟩ := h.place hw hgoal halike
  have hout := h.outcome?_eq hw ha hgoal halike hs
  have hstale := h.stale hw ha hgoal halike hs hl
  have hstale' : ¬ again.graph.FreshAt n o := fun hf => hs (h.graph ▸ ⟨n, o, hla, hf⟩)
  rcases session.step_cases visited hln hslot with
    ⟨hnone, -, hdone, after, hstep', -⟩ | ⟨r, -, after, hsome, -⟩ |
      ⟨hnone, -, hnew, d, htask, hstep'⟩
  case inl =>
    obtain ⟨rfl, rfl, rfl⟩ := Session.step_unique hstep' hstep
    have hv := (h.seen task.port hs).mpr (hdone.resolve_left hstale)
    obtain ⟨next', hagain, hidle⟩ := Session.step_of_done hla hslot' (hout.trans hnone) (.inr hv)
    exact ⟨before, visited, visited', [], after, next', rfl, hagain, hresting, hrun, hrest, h.seen,
      hidle.graph.trans h.graph⟩
  case inr.inl =>
    obtain ⟨after, hstep', hkeeps⟩ := Session.step_of_outcome? hln hslot hsome
    obtain ⟨rfl, rfl, rfl⟩ := Session.step_unique hstep' hstep
    obtain ⟨next', hagain, hkeeps'⟩ := Session.step_of_outcome? hla hslot' (hout.trans hsome)
    -- what the first kept is still there, and it is a failure
    have hthere : again.graph.ownSlot? n o = some (slot.settle r) := by
      rw [h.graph, hresting.work hw ha hgoal before hrun (hself rfl) hl, hkeeps.graph,
        ownSlot?_withSlot hslot, if_pos ⟨rfl, rfl⟩]
    obtain rfl := Option.some.inj (hslot'.symm.trans hthere)
    obtain ⟨e, rfl⟩ : ∃ e, r = .error e := by
      cases r with
      | ok v => exact absurd ⟨_, hslot', rfl⟩ hstale'
      | error e => exact ⟨e, rfl⟩
    refine ⟨before, _, _, [], after, next', rfl, hagain, hresting, hrun, hrest, fun p hp => ?_, ?_⟩
    · cases task with
      | compute q => exact h.seen p hp
      | visit q d => simp [Task.looked, h.seen p hp]
    · rw [hkeeps'.graph, Slot.settle_error_settle, withSlot_self hslot', h.graph]
  case inr.inr =>
    obtain ⟨rfl, rfl, rfl⟩ := Session.step_unique hstep' hstep
    have hnew' : task.port ∉ visited' := fun hv => hnew ((h.seen task.port hs).mp hv)
    obtain ⟨d', htask', hagain⟩ :=
      Session.step_of_due hla hslot' (hout.trans hnone) hstale' hnew'
    obtain rfl : d = d' := by
      rw [htask] at htask'
      exact (Task.visit.inj htask').2
    rw [h.graph, sources_of_bare halike] at hagain
    rw [sources_of_bare h.resting.loop.alike] at hrun hresting
    refine ⟨before, _, _, _, session, again, rfl, hagain, hresting, hrun,
      .append_both (fun p hp => ?_) hrest, fun p hp => ?_, h.graph⟩
    · obtain rfl : p = task.port := by simpa using hp
      exact hs
    · simp [h.seen p hp]

-- So the second request leaves everything as it was, whatever bound there is on its tasks.
theorem work (fuel' : Nat) (hlast : Consulted start last.graph)
    (h : Again start goal last fuel visited visited' tasks tasks' session again) :
    (Session.work fuel' visited' tasks' again).2.graph = last.graph := by
  obtain ⟨halike, hsound⟩ := hlast
  -- The induction is on the work that is left of both requests together.
  obtain ⟨bound, hbound⟩ : ∃ bound, fuel + fuel' ≤ bound := ⟨_, le_rfl⟩
  induction bound generalizing fuel fuel' visited visited' tasks tasks' session again with
  | zero =>
      obtain rfl : fuel' = 0 := by omega
      cases tasks' <;> exact h.graph
  | succ bound ih =>
      cases hthinned : h.thinned with
      | nil =>
          rw [Session.work_nil]
          exact h.graph
      | first hf hrest =>
          obtain ⟨before, looked, more, next, rfl, hnext⟩ :=
            h.first hw ha hgoal hsound halike hf hrest
          exact ih fuel' hnext (by omega)
      | second hf hrest =>
          cases fuel' with
          | zero => exact h.graph
          | succ fuel' =>
              obtain ⟨next, hstep, hnext⟩ := h.second hf hrest
              rw [Session.work_of_step hstep]
              exact ih fuel' hnext (by omega)
      | both hs hrest =>
          cases fuel' with
          | zero => exact h.graph
          | succ fuel' =>
              obtain ⟨before, looked, looked', more, next, next', rfl, hstep, hnext⟩ :=
                h.both hw ha hgoal halike hs hrest
              rw [Session.work_of_step hstep]
              exact ih fuel' hnext (by omega)

end Steps

end Again

section Evaluate

variable {graph : Graph} {node : NodeId} {output : Nat} {port : PortId} {chain : Chain}

-- Where its work is done, a request reads the end of the walk from its output.
theorem evaluate_eq (hout : graph.outputOf node output = .ok port)
    (hc : graph.aliasChain port = .ok chain)
    (hwork : Session.work (Session.workBound graph) [] [.visit chain.last 0] (.start graph) =
      (.ok [], last)) :
    graph.evaluate node output = (last.graph.readOutput chain, last.graph) := by
  rw [Session.start] at hwork
  simp only [evaluate, Session.evaluate, Session.evaluatePort, Session.settle, Session.start, hout,
    hc, hwork, Except.map]

theorem Healthy.evaluate_again (hg : graph.Healthy) (node : NodeId) (output : Nat) :
    (graph.evaluate node output).2.evaluate node output = graph.evaluate node output := by
  cases hout : graph.outputOf node output with
  | error e => simp only [evaluate, Session.evaluate, Session.start, hout]
  | ok port =>
      cases hc : graph.aliasChain port with
      | error e =>
          simp only [evaluate, Session.evaluate, Session.evaluatePort, Session.start, hout, hc]
      | ok chain =>
          obtain ⟨hplain, n, o, slot, hl, hslot⟩ := hg.wired.chain_of_output hout hc
          obtain ⟨last, _, hwork, hloop⟩ := Session.work_placed (.start graph) hg.wired hg.acyclic
            hg.sound hl hslot
          have hlast : Consulted graph last.graph := ⟨hloop.alike, hloop.sound⟩
          have hg' := hg.consulted hlast
          have hout' := (outputOf_of_bare hlast.1 node output).trans hout
          have hc' := (aliasChain_of_bare hlast.1 port).trans hc
          obtain ⟨-, n', o', slot', hl', hslot'⟩ := hg'.wired.chain_of_output hout' hc'
          obtain ⟨next, -, hwork', -⟩ := Session.work_placed (.start last.graph) hg'.wired
            hg'.acyclic hg'.sound hl' hslot'
          -- the second request begins with the same task as the first
          have hbegin : Again graph chain.last last (Session.workBound graph) [] []
              [.visit chain.last 0] [.visit chain.last 0] (.start graph) (.start last.graph) :=
            ⟨.begin (Session.loop_start (.start graph) hg.sound hl hslot), hwork, .refl (by simp),
              fun _ _ => Iff.rfl, rfl⟩
          have hsame : next.graph = last.graph := by
            have hend := hbegin.work hg.wired hg.acyclic hplain (Session.workBound last.graph) hlast
            exact (congrArg (·.2.graph) hwork').symm.trans hend
          rw [evaluate_eq hout hc hwork, evaluate_eq hout' hc' hwork', hsame]

end Evaluate

-- A request that is made again is answered alike, with a value or with the same failure, and
-- leaves the graph as the first one left it.
theorem evaluation_idempotent {graph : Graph} (h : Reachable graph) (node : NodeId)
    (output : Nat) :
    (graph.evaluate node output).2.evaluate node output = graph.evaluate node output :=
  h.healthy.evaluate_again node output

-- The relays in a graph where a request may reach one step only.
def shallow : Graph :=
  (Graph.new { Settings.standard with maxEvalDepth := 1 }).run relaying

theorem shallow_fails_alike :
    (∃ u, (shallow.evaluate ⟨2⟩ 0).1 = .error (.sourceFailed u (.depthExceeded 1))) ∧
      (shallow.evaluate ⟨2⟩ 0).2.evaluate ⟨2⟩ 0 = shallow.evaluate ⟨2⟩ 0 :=
  ⟨⟨_, rfl⟩, evaluation_idempotent (Reachable.run (.new _) relaying) ⟨2⟩ 0⟩

end Graph

end Dataflow
