import Dataflow.Proofs.Evaluation.Trail

namespace Dataflow

namespace Graph

-- What is kept of an output is what it means.
def Right (start now : Graph) (p : PortId) : Prop :=
  ∃ n o, start.locate p = .ok (n, o) ∧ start.Means n o (now.kept n o)

-- A request in the middle of its work, with nothing kept for it but what the outputs mean.
structure Exact (start : Graph) (goal : PortId) (visited : List PortId) (tasks : List Task)
    (now : Graph) : Prop where
  seen : Looked (Right start now) visited tasks
  covered : Covered start goal (Right start now) tasks

variable {start now : Graph} {goal p : PortId} {visited looked : List PortId} {task : Task}
  {tasks rest : List Task} {log : List Outcome} {session next : Session} {n : NodeId} {o : Nat}
  {slot : Slot} {r : Except EvalError Ragged}

namespace Right

theorem of_fresh (hs : now.Sound) (halike : now.bare = start.bare) (hw : start.Wired)
    (hl : start.locate p = .ok (n, o)) (hf : now.FreshAt n o) : Right start now p := by
  obtain ⟨slot, hslot, hstate⟩ := hf
  obtain ⟨v, hv, hmeans, -⟩ := hs n o slot hslot hstate
  refine ⟨n, o, hl, ?_⟩
  rw [kept_of_fresh hslot hstate hv]
  exact means_of_bare halike.symm (hw.of_bare halike) hmeans

-- What is right remains so when what an output means is kept for it,
theorem withSlot (h : Right start now p) (hslot : now.ownSlot? n o = some slot)
    (hm : start.Means n o r) : Right start (now.withSlot n o (slot.settle r)) p := by
  obtain ⟨m, k, hl, hm'⟩ := h
  refine ⟨m, k, hl, ?_⟩
  rw [kept_withSlot hslot]
  split
  · next heq =>
    obtain ⟨rfl, rfl⟩ := heq
    exact hm
  · exact hm'

-- and then that output is right too.
theorem of_withSlot (hl : start.locate p = .ok (n, o)) (hslot : now.ownSlot? n o = some slot)
    (hm : start.Means n o r) : Right start (now.withSlot n o (slot.settle r)) p := by
  refine ⟨n, o, hl, ?_⟩
  rw [kept_withSlot hslot, if_pos ⟨rfl, rfl⟩]
  exact hm

end Right

-- What follows from what is right is what the output means.
theorem means_of_right (hw : start.Wired) (halike : now.bare = start.bare)
    (h : ∀ s ∈ start.sources n o, Right start now s) :
    start.Means n o (now.denote now.kept n o) := by
  rw [(agree_of_bare halike).denote (.all start) hw trivial]
  refine .intro now.kept fun s hs m k hl => ?_
  obtain ⟨m', k', hl', hm⟩ := h s hs
  obtain ⟨rfl, rfl⟩ := Prod.mk.inj (Except.ok.inj (hl.symm.trans hl'))
  exact hm

namespace Exact

theorem begin (start : Graph) (goal : PortId) :
    Exact start goal [] [.visit goal 0] start :=
  ⟨by simp [Looked], .inr rfl⟩

-- A task goes that changed nothing, and its output is right.
theorem drop (h : Exact start goal visited (task :: rest) now) (hself : Right start now task.port) :
    Exact start goal visited rest now := by
  have hpop : ∀ q, Right start now q ∨ q = task.port → Right start now q :=
    fun q hq => hq.elim id fun heq => heq ▸ hself
  exact ⟨Looked.pop h.seen (fun _ => .inl) hpop, h.covered.pop hpop⟩

-- A task ends with what its output means.
theorem keep (h : Exact start goal visited (task :: rest) now)
    (hl : start.locate task.port = .ok (n, o)) (hslot : now.ownSlot? n o = some slot)
    (hm : start.Means n o r) (hlooked : ∀ q ∈ looked, q ∈ visited ∨ q = task.port) :
    Exact start goal looked rest (now.withSlot n o (slot.settle r)) := by
  have hpop : ∀ q, Right start now q ∨ q = task.port →
      Right start (now.withSlot n o (slot.settle r)) q := by
    intro q hq
    rcases hq with hq | rfl
    · exact hq.withSlot hslot hm
    · exact .of_withSlot hl hslot hm
  exact ⟨Looked.pop h.seen hlooked hpop, h.covered.pop hpop⟩

end Exact

end Graph

namespace Session.Ledger

open Dataflow.Graph

variable {start session next : Session} {goal p : PortId} {log : List Outcome}
  {visited looked : List PortId} {task : Task} {tasks rest : List Task} {d : Nat}
  (hw : start.graph.Wired)
  (hclose : ∀ p, ¬ start.graph.Trail goal start.graph.settings.maxEvalDepth p)
  (hloop : Loop start.graph goal visited (task :: rest) session.graph)
  (hledger : Ledger start goal log visited (task :: rest) session)
  (hreach : InReach start.graph goal log (task :: rest) session.ran)
  (h : Exact start.graph goal visited (task :: rest) session.graph)

include hw hclose hloop hledger hreach h

-- Where no path of stale outputs is as long as the limit, each task that keeps something
-- keeps what its output means.
theorem exact_step (hstep : session.step visited task = (.ok (looked, tasks), next)) :
    Exact start.graph goal looked (tasks ++ rest) next.graph := by
  obtain ⟨n, o, slot, hl, hln, hslot⟩ := hloop.placed
  cases task with
  | compute p =>
      obtain ⟨rfl, rfl, rfl, -⟩ := compute_step hln hslot hstep
      rw [session.compute_graph hslot]
      have hm := means_of_right hw hloop.alike (h.covered.1 n o hl)
      exact h.keep hl hslot hm fun q hq => .inl hq
  | visit p d =>
      have hlook : ∀ {tasks' after},
          session.step visited (.visit p d) = (.ok (p :: visited, tasks'), after) →
            d < start.graph.settings.maxEvalDepth := by
        intro tasks' after hstep'
        obtain ⟨hd, htrail⟩ := hledger.trail_of_looked hloop hreach rfl hstep'
        refine Nat.lt_of_le_of_ne hd ?_
        rintro rfl
        exact hclose p htrail
      have hmore : ∀ q ∈ p :: visited, q ∈ visited ∨ q = (Task.visit p d).port :=
        fun q hq => (List.mem_cons.mp hq).symm
      rcases session.look_cases visited d hln hslot with
        ⟨hdone, -, after, hstep', hidle⟩ | ⟨-, -, ⟨hunit, -, hstep'⟩ | ⟨-, hfar, -, hstep'⟩ |
          ⟨-, -, hstep'⟩⟩
      case inl =>
        obtain ⟨rfl, rfl, rfl⟩ := step_unique hstep' hstep
        rw [hidle.graph]
        refine h.drop ?_
        rcases hdone with hf | hv
        · exact .of_fresh hloop.sound hloop.alike hw hl hf
        · exact (h.seen p hv).resolve_right hloop.not_pending
      case inr.inl =>
        obtain ⟨rfl, rfl, rfl⟩ := step_unique hstep' hstep
        rw [session.finish_graph hslot]
        rw [unit?_of_bare hloop.alike] at hunit
        exact h.keep hl hslot (means_of_no_unit hunit) hmore
      case inr.inr.inl =>
        have hd := hlook hstep'
        rw [settings_of_bare hloop.alike] at hfar
        omega
      case inr.inr.inr =>
        obtain ⟨rfl, rfl, rfl⟩ := step_unique hstep' hstep
        rw [sources_of_bare hloop.alike, List.append_assoc]
        exact ⟨Looked.expand h.seen _, h.covered.expand hl⟩

end Session.Ledger

namespace Graph

variable {graph : Graph} {goal p : PortId} {node n : NodeId} {output o d limit : Nat}

section Limit

-- The same graph with another limit on how far back one request may reach.
def withLimit (graph : Graph) (limit : Nat) : Graph :=
  { graph with settings := { graph.settings with maxEvalDepth := limit } }

variable (graph limit)

theorem agree_withLimit : Agree graph (graph.withLimit limit) fun _ => True where
  hops := rfl
  node _ := rfl
  port hp _ := ⟨_, hp, rfl⟩
  edge _ _ _ _ := rfl

variable {graph limit}

theorem Healthy.withLimit (hg : graph.Healthy) (limit : Nat) :
    (graph.withLimit limit).Healthy where
  wired := hg.wired.of_nodes rfl rfl fun _ => rfl
  acyclic := hg.acyclic.of_nodes rfl rfl fun _ => rfl
  sound := hg.sound.of_untouched hg.wired
    { agree := agree_withLimit graph limit
      upstream := .all graph
      slots := fun _ _ => rfl
      fresh := fun _ => trivial }

theorem aliasChain_withLimit (hw : graph.Wired) (h : graph.outputOf node output = .ok p) :
    (graph.withLimit limit).aliasChain p = graph.aliasChain p := by
  obtain ⟨port, hp, -⟩ := hw.output_placed (outputOf_eq_ok h)
  exact (agree_withLimit graph limit).aliasChain (.all graph) hw hp trivial

theorem resolveOutput_withLimit (hw : graph.Wired) :
    (graph.withLimit limit).resolveOutput node output = graph.resolveOutput node output := by
  have hout : (graph.withLimit limit).outputOf node output = graph.outputOf node output := rfl
  cases h : graph.outputOf node output with
  | error e =>
      rw [resolveOutput, resolveOutput, hout, h]
      rfl
  | ok p =>
      rw [resolveOutput_of_outputOf (hout.trans h), resolveOutput_of_outputOf h,
        aliasChain_withLimit hw h]

-- Where stale outputs lead does not depend on the limit, nor does what an output shows.
theorem Trail.of_withLimit (hw : graph.Wired) (h : (graph.withLimit limit).Trail goal d p) :
    graph.Trail goal d p := by
  induction h with
  | here hstale => exact .here hstale
  | @read d p s _ hs hstale ih =>
      refine ih.read ?_ hstale
      obtain ⟨n, o, unit, hl, -⟩ := computed_of_reads hs
      rw [reads_eq hl, (agree_withLimit graph limit).sources (.all graph) hw trivial] at hs
      rwa [reads_eq (show graph.locate p = .ok (n, o) from hl)]

theorem Shows.withLimit {result : Except EvalError Ragged} (hw : graph.Wired)
    (h : graph.Shows node output result) (limit : Nat) :
    (graph.withLimit limit).Shows node output result := by
  cases h with
  | missing h => exact .missing h
  | astray h hc => exact .astray h ((aliasChain_withLimit hw h).trans hc)
  | computed h hc hl hm =>
      have hm' := hm.frame (agree_withLimit graph limit) (.all graph) hw trivial
      exact .computed h ((aliasChain_withLimit hw h).trans hc) hl hm'

end Limit

section Evaluate

variable (hg : graph.Healthy)

include hg

-- A request does nothing, or all it does is in reach of its goal.
theorem Healthy.inReach (node : NodeId) (output : Nat) :
    ((Session.start graph).outcomes node output = [] ∧
      ((Session.start graph).evaluate node output).2.ran = []) ∨
    ∃ goal, graph.resolveOutput node output = .ok goal ∧
      InReach graph goal ((Session.start graph).outcomes node output) []
        ((Session.start graph).evaluate node output).2.ran := by
  rcases @Session.evaluate_run (.start graph) hg node output with
    ⟨e, hend, heval⟩ | ⟨chain, n, o, slot, next, hend, hplain, hl, hslot, hwork, heval⟩
  · left
    rw [heval, Session.outcomes, hend]
    exact ⟨rfl, rfl⟩
  · right
    have hledger : Session.Ledger (.start graph) chain.last [] [] [.visit chain.last 0]
      (.start graph) := .begin hl
    obtain ⟨seen, -, -, hreach⟩ := hledger.run hg.wired hg.acyclic hplain
      (motive := fun log _ tasks session => InReach graph chain.last log tasks session.ran)
      (fun hloop hledger h hstep => hledger.inReach_step hloop h hstep) _
      (Session.loop_start (.start graph) hg.sound hl hslot) (.begin graph chain.last) hwork
    rw [heval, Session.outcomes_eq hend]
    exact ⟨chain.last, hend, hreach⟩

-- Where no path of stale outputs from the goal is as long as the limit, its tasks leave what
-- it means,
theorem Healthy.right_of_close {next : Session} {slot : Slot}
    (hclose : ∀ p, ¬ graph.Trail goal graph.settings.maxEvalDepth p) (hplain : graph.Plain goal)
    (hl : graph.locate goal = .ok (n, o)) (hslot : graph.ownSlot? n o = some slot)
    (hwork : Session.work (Session.workBound graph) [] [.visit goal 0] (.start graph) =
      (.ok [], next)) :
    next.graph.bare = graph.bare ∧ Right graph next.graph goal := by
  have hledger : Session.Ledger (.start graph) goal [] [] [.visit goal 0] (.start graph) :=
    .begin hl
  obtain ⟨seen, hloop, -, -, hexact⟩ := hledger.run hg.wired hg.acyclic hplain
    (motive := fun log visited tasks session =>
      InReach graph goal log tasks session.ran ∧ Exact graph goal visited tasks session.graph)
    (fun hloop hledger h hstep => ⟨hledger.inReach_step hloop h.1 hstep,
      hledger.exact_step hg.wired hclose hloop h.1 h.2 hstep⟩) _
    (Session.loop_start (.start graph) hg.sound hl hslot)
    ⟨.begin graph goal, .begin graph goal⟩ hwork
  exact ⟨hloop.alike, hexact.covered⟩

-- and a request comes to what its output shows.
theorem Healthy.shows_of_close
    (hclose : ∀ goal d p, graph.resolveOutput node output = .ok goal → graph.Trail goal d p →
      d < graph.settings.maxEvalDepth) :
    graph.Shows node output (graph.evaluate node output).1 := by
  simp only [evaluate, Session.evaluate, Session.start]
  cases hout : graph.outputOf node output with
  | error e => exact .missing hout
  | ok port =>
      simp only [Session.evaluatePort]
      cases hc : graph.aliasChain port with
      | error e => exact .astray hout hc
      | ok chain =>
          obtain ⟨hplain, n, o, slot, hl, hslot⟩ := hg.wired.chain_of_output hout hc
          obtain ⟨next, -, hwork, -⟩ :=
            Session.work_placed (.start graph) hg.wired hg.acyclic hg.sound hl hslot
          have hgoal : graph.resolveOutput node output = .ok chain.last := by
            rw [resolveOutput_of_outputOf hout, hc]
            rfl
          obtain ⟨halike, m, k, hl', hm⟩ := hg.right_of_close
            (fun p htrail => Nat.lt_irrefl _ (hclose _ _ p hgoal htrail)) hplain hl hslot hwork
          simp only [Session.start] at hwork
          simp only [Session.settle, hwork, Except.map, readOutput_eq, along,
            (locate_of_bare halike _).trans hl', funext (applyFlags_of_bare halike chain.outer)]
          exact .computed hout hc hl' hm

end Evaluate

-- The limit bounds how far back a request reaches. What is called is fewer reads away from
-- the goal than the limit allows, and what is given up is just as many away, over outputs
-- none of which was fresh. Where there are no such paths a limit makes no difference.
theorem limit_bounds_reach (h : Reachable graph) (node : NodeId) (output : Nat) :
    (∀ n o, (n, o) ∈ ((Session.start graph).evaluate node output).2.ran →
      ∃ goal p, ∃ d < graph.settings.maxEvalDepth,
        graph.resolveOutput node output = .ok goal ∧ graph.locate p = .ok (n, o) ∧
          graph.Trail goal d p) ∧
    (∀ n o, graph.CutOff node output n o →
      ∃ goal p, graph.resolveOutput node output = .ok goal ∧ graph.locate p = .ok (n, o) ∧
        graph.Trail goal graph.settings.maxEvalDepth p) ∧
    ((∀ goal d p, graph.resolveOutput node output = .ok goal → graph.Trail goal d p →
        d < graph.settings.maxEvalDepth) →
      graph.Shows node output (graph.evaluate node output).1 ∧
      ∀ limit ≥ graph.settings.maxEvalDepth,
        ((graph.withLimit limit).evaluate node output).1 = (graph.evaluate node output).1) := by
  have hg := h.healthy
  refine ⟨fun n o hm => ?_, fun n o hcut => ?_, fun hclose => ?_⟩
  · rcases hg.inReach node output with ⟨-, hran⟩ | ⟨goal, hgoal, hreach⟩
    · rw [hran] at hm
      cases hm
    · obtain ⟨p, d, hd, hl, htrail⟩ := hreach.called n o hm
      exact ⟨goal, p, d, hd, hgoal, hl, htrail⟩
  · obtain ⟨hm, hnot⟩ := hcut
    rcases hg.inReach node output with ⟨hlog, -⟩ | ⟨goal, hgoal, hreach⟩
    · rw [hlog] at hm
      cases hm
    · obtain ⟨p, hl, htrail⟩ := hreach.far n o hm hnot
      exact ⟨goal, p, hgoal, hl, htrail⟩
  · have hshows := hg.shows_of_close hclose
    refine ⟨hshows, fun limit hlimit => ?_⟩
    have hraised : ∀ goal d p, (graph.withLimit limit).resolveOutput node output = .ok goal →
        (graph.withLimit limit).Trail goal d p → d < limit := by
      intro goal d p hgoal htrail
      rw [resolveOutput_withLimit hg.wired] at hgoal
      exact Nat.lt_of_lt_of_le (hclose goal d p hgoal (htrail.of_withLimit hg.wired)) hlimit
    have hshows' := (hg.withLimit limit).shows_of_close hraised
    exact hshows'.unique (hshows.withLimit hg.wired limit)

-- The relays where a request may reach no further than its goal, and the same when the first
-- of them has its value already.
def narrow : Graph :=
  (Graph.new { Settings.standard with maxEvalDepth := 1 }).run relaying

def warmed : Graph :=
  narrow.run [.evaluate ⟨1⟩ 0]

theorem trail_warmed (h : warmed.Trail ⟨4⟩ d p) : d = 0 ∧ p = ⟨4⟩ := by
  induction h with
  | here => exact ⟨rfl, rfl⟩
  | read _ hs hstale ih =>
      obtain ⟨rfl, rfl⟩ := ih
      have hreads : warmed.reads ⟨4⟩ = [⟨2⟩] := by decide +kernel
      obtain rfl := List.mem_singleton.mp (hreads ▸ hs)
      obtain ⟨n, o, hl, hnot⟩ := hstale
      obtain ⟨rfl, rfl⟩ : (⟨1⟩ : NodeId) = n ∧ 0 = o := Prod.mk.inj (Except.ok.inj hl)
      exact absurd ⟨_, rfl, rfl⟩ hnot

theorem narrow_reaches_warmed :
    (narrow.CutOff ⟨2⟩ 0 ⟨1⟩ 0 ∧ ∃ goal p, narrow.resolveOutput ⟨2⟩ 0 = .ok goal ∧
      narrow.locate p = .ok (⟨1⟩, 0) ∧ narrow.Trail goal 1 p) ∧
    warmed.Shows ⟨2⟩ 0 (warmed.evaluate ⟨2⟩ 0).1 ∧
      ((warmed.withLimit 512).evaluate ⟨2⟩ 0).1 = (warmed.evaluate ⟨2⟩ 0).1 := by
  have hnarrow : Reachable narrow := Reachable.run (.new _) relaying
  have hcut : narrow.CutOff ⟨2⟩ 0 ⟨1⟩ 0 := ⟨List.mem_cons_self, by decide +kernel⟩
  have hclose : ∀ goal d p, warmed.resolveOutput ⟨2⟩ 0 = .ok goal → warmed.Trail goal d p →
      d < warmed.settings.maxEvalDepth := by
    intro goal d p hgoal htrail
    obtain rfl : ⟨4⟩ = goal := Except.ok.inj hgoal
    obtain ⟨rfl, -⟩ := trail_warmed htrail
    exact Nat.one_pos
  obtain ⟨-, hfar, -⟩ := limit_bounds_reach hnarrow ⟨2⟩ 0
  obtain ⟨-, -, hshows⟩ := limit_bounds_reach (hnarrow.run [.evaluate ⟨1⟩ 0]) ⟨2⟩ 0
  obtain ⟨hmeans, hraised⟩ := hshows hclose
  exact ⟨⟨hcut, hfar ⟨1⟩ 0 hcut⟩, hmeans, hraised 512 (by decide)⟩

end Graph

end Dataflow
