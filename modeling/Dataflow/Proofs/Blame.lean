import Dataflow.Proofs.Effects
import Dataflow.Proofs.Evaluation.Causes

namespace Dataflow

theorem EvalError.rootCause_eq_self {e : EvalError} (h : ∀ u cause, e ≠ .sourceFailed u cause) :
    e.rootCause = e := by
  cases e with
  | sourceFailed u cause => exact absurd rfl (h u cause)
  | _ => rfl

namespace Graph

-- The functions of the nodes fail in their own words, not in those for a failed source.
def OwnWords (graph : Graph) : Prop :=
  ∀ n node, graph.node? n = some node → ∀ unit ∈ node.units, ∀ inputs u cause,
    unit.run inputs ≠ .error (.sourceFailed u cause)

-- An output that came to no value when it was last due, and why.
def Failed (graph : Graph) (n : NodeId) (o : Nat) (e : EvalError) : Prop :=
  ∃ slot, graph.ownSlot? n o = some slot ∧ slot.state = .dirty ∧ slot.error = some e

-- A failure that no other output is to blame for: the output is too far off, nothing computes
-- it, its inputs are not to be found, or its function was called and failed.
inductive OwnFailure (graph : Graph) (n : NodeId) (o : Nat) : EvalError → Prop where
  | tooFar : OwnFailure graph n o (.depthExceeded graph.settings.maxEvalDepth)
  | uncomputed (hu : graph.unit? n o = none) : OwnFailure graph n o (.noEvaluator o)
  | astray {unit : EvalUnit} {i : Nat} {input : PortId} {e : EvalError}
      (hu : graph.unit? n o = some unit) (hi : i ∈ unit.inputs)
      (hinput : graph.inputPort? n i = some input) (h : graph.Astray input e) :
      OwnFailure graph n o e
  | called {unit : EvalUnit} {inputs : EvalInputs} {e : EvalError}
      (hu : graph.unit? n o = some unit) (hgather : graph.gather n unit = .ok inputs)
      (hrun : unit.run inputs = .error e) : OwnFailure graph n o e

-- An error that an output failed with, followed to where it comes from. Each time a source is
-- named, it is the node of the first output among those read, in their order, that is not
-- fresh, and that one failed with what is left of the error.
inductive Blames (graph : Graph) : NodeId → Nat → EvalError → EvalError → Prop where
  | root {n : NodeId} {o : Nat} {e : EvalError} (hfailed : graph.Failed n o e)
      (hown : graph.OwnFailure n o e) : Blames graph n o e e
  | source {n m : NodeId} {o k : Nat} {node : Node} {e root : EvalError}
      {before after : List PortId} {s : PortId}
      (hfailed : graph.Failed n o (.sourceFailed node.uuid e))
      (hsources : graph.sources n o = before ++ s :: after)
      (hbefore : ∀ b ∈ before, ∃ m k, graph.locate b = .ok (m, k) ∧ graph.FreshAt m k)
      (hl : graph.locate s = .ok (m, k)) (hnode : graph.node? m = some node)
      (h : Blames graph m k e root) : Blames graph n o (.sourceFailed node.uuid e) root

variable {graph start : Graph} {goal p : PortId} {visited looked : List PortId} {task : Task}
  {rest : List Task} {log more : List Outcome} {n : NodeId} {o d : Nat} {e : EvalError}
  {r : Except EvalError Ragged}

theorem Astray.rootCause_eq {input : PortId} (h : graph.Astray input e) : e.rootCause = e := by
  cases h with
  | input h | source _ _ _ _ h =>
      obtain ⟨fault, rfl⟩ := chainFrom_error h
      rfl

theorem OwnFailure.rootCause_eq (halike : graph.bare = start.bare) (hown : start.OwnWords)
    (h : graph.OwnFailure n o e) : e.rootCause = e := by
  cases h with
  | tooFar | uncomputed => rfl
  | astray _ _ _ h => exact h.rootCause_eq
  | @called unit inputs e hu _ hrun =>
      rw [unit?_of_bare halike] at hu
      obtain ⟨node, hn, hfind⟩ := Option.bind_eq_some_iff.mp hu
      have hmem : unit ∈ node.units := List.mem_of_find?_eq_some hfind
      refine EvalError.rootCause_eq_self fun u cause heq => ?_
      exact hown n node hn unit hmem inputs u cause (heq ▸ hrun)

theorem ownerUuid_eq {node : Node} (hl : graph.locate p = .ok (n, o))
    (hn : graph.node? n = some node) : graph.ownerUuid p = node.uuid := by
  obtain ⟨port, hp, rfl, rfl⟩ := (locate_eq_ok_iff _ _ _).mp hl
  rw [ownerUuid, hp, Option.bind_some, hn]
  rfl

-- A port whose output has an entry, or was fresh from the start.
def Handled (start : Graph) (log : List Outcome) (p : PortId) : Prop :=
  ∃ n o, start.locate p = .ok (n, o) ∧ ((n, o) ∈ log.map Outcome.place ∨ start.FreshAt n o)

theorem Handled.mono (h : Handled start log p) (hmore : log ⊆ more) : Handled start more p := by
  obtain ⟨n, o, hl, hor⟩ := h
  exact ⟨n, o, hl, hor.imp_left fun hm => List.map_subset _ hmore hm⟩

-- A request in the middle of its work, with an account that has no gaps: whatever an output
-- with an entry reads was handled first, unless that output was too far off.
structure Gapless (start : Graph) (goal : PortId) (log : List Outcome) (visited : List PortId)
    (tasks : List Task) : Prop where
  seen : Looked (Handled start log) visited tasks
  covered : Covered start goal (Handled start log) tasks
  entries : ∀ e ∈ log, e.result = .error (.depthExceeded start.settings.maxEvalDepth) ∨
    ∀ s ∈ start.sources e.node e.output, Handled start log s

namespace Gapless

theorem begin (start : Graph) (goal : PortId) : Gapless start goal [] [] [.visit goal 0] :=
  ⟨by simp [Looked], .inr rfl, by simp⟩

theorem drop (h : Gapless start goal log visited (task :: rest))
    (hself : Handled start log task.port) : Gapless start goal log visited rest := by
  have hpop : ∀ q, Handled start log q ∨ q = task.port → Handled start log q :=
    fun q hq => hq.elim id fun heq => heq ▸ hself
  exact ⟨Looked.pop h.seen (fun _ => .inl) hpop, h.covered.pop hpop, h.entries⟩

theorem keep (h : Gapless start goal log visited (task :: rest))
    (hl : start.locate task.port = .ok (n, o))
    (hsources : r = .error (.depthExceeded start.settings.maxEvalDepth) ∨
      ∀ s ∈ start.sources n o, Handled start log s)
    (hlooked : ∀ q ∈ looked, q ∈ visited ∨ q = task.port) :
    Gapless start goal (log ++ [⟨n, o, r⟩]) looked rest := by
  have hmore : log ⊆ log ++ [⟨n, o, r⟩] := List.subset_append_left _ _
  have hpop : ∀ q, Handled start log q ∨ q = task.port →
      Handled start (log ++ [⟨n, o, r⟩]) q := by
    intro q hq
    rcases hq with hq | rfl
    · exact hq.mono hmore
    · exact ⟨n, o, hl, .inl (List.mem_map_of_mem (List.mem_append_right _ List.mem_cons_self))⟩
  refine ⟨Looked.pop h.seen hlooked hpop, h.covered.pop hpop, fun e he => ?_⟩
  rcases List.mem_append.mp he with he | he
  · exact (h.entries e he).imp_right fun hall s hs => (hall s hs).mono hmore
  · obtain rfl := List.mem_singleton.mp he
    exact hsources.imp_right fun hall s hs => (hall s hs).mono hmore

theorem expand (h : Gapless start goal log visited (.visit p d :: rest))
    (hl : start.locate p = .ok (n, o)) :
    Gapless start goal log (p :: visited)
      ((start.sources n o).map (.visit · (d + 1)) ++ .compute p :: rest) :=
  ⟨Looked.expand h.seen _, h.covered.expand hl, h.entries⟩

end Gapless

end Graph

namespace Session

open Dataflow.Graph

variable {start session next : Session} {goal p : PortId} {log : List Outcome}
  {visited looked : List PortId} {task : Task} {tasks rest : List Task} {n : NodeId} {o : Nat}
  {needed : NodeId → Nat → Prop} {e : EvalError} {r : Except EvalError Ragged}

namespace Account

theorem failed_of_mem (h : Account start needed log next) (he : ⟨n, o, .error e⟩ ∈ log) :
    next.graph.Failed n o e := by
  obtain ⟨slot, -, hslot⟩ := h.entered _ he
  exact ⟨_, hslot, rfl, rfl⟩

theorem kept_of_mem (h : Account start needed log next) (he : ⟨n, o, r⟩ ∈ log) :
    next.graph.kept n o = r := by
  obtain ⟨slot, -, hslot⟩ := h.entered _ he
  rw [kept, hslot]
  cases r with
  | ok value => rfl
  | error e => rfl

-- What is fresh now was so from the start or has an entry.
theorem handled_of_fresh (h : Account start needed log next)
    (hl : start.graph.locate p = .ok (n, o)) (hf : next.graph.FreshAt n o) :
    Handled start.graph log p := by
  refine ⟨n, o, hl, or_iff_not_imp_left.mpr fun hm => ?_⟩
  obtain ⟨slot, hslot, hstate⟩ := hf
  exact ⟨slot, (h.others n o hm).symm.trans hslot, hstate⟩

-- A failure that is read was kept by the same request, not by an earlier one.
theorem mem_of_handled (h : Account start needed log next) (hs : Handled start.graph log p)
    (hl : start.graph.locate p = .ok (n, o)) (hkept : next.graph.kept n o = .error e) :
    ⟨n, o, .error e⟩ ∈ log := by
  obtain ⟨n', o', hl', hor⟩ := hs
  obtain ⟨rfl, rfl⟩ := Prod.mk.inj (Except.ok.inj (hl.symm.trans hl'))
  by_cases hm : (n, o) ∈ log.map Outcome.place
  · obtain ⟨⟨n, o, r⟩, he, hplace⟩ := List.mem_map.mp hm
    obtain ⟨rfl, rfl⟩ := Prod.mk.inj hplace
    obtain rfl : r = .error e := (h.kept_of_mem he).symm.trans hkept
    exact he
  · obtain ⟨slot, hslot, hstate⟩ := hor.resolve_left hm
    obtain ⟨w, hw⟩ := freshAt_iff_kept.mp ⟨slot, (h.others n o hm).trans hslot, hstate⟩
    cases hw.symm.trans hkept

end Account

-- No task leaves a gap.
theorem Ledger.gapless_step
    (hloop : Loop start.graph goal visited (task :: rest) session.graph)
    (hledger : Ledger start goal log visited (task :: rest) session)
    (h : Gapless start.graph goal log visited (task :: rest))
    (hstep : session.step visited task = (.ok (looked, tasks), next)) :
    Gapless start.graph goal (log ++ (session.outcome? visited task).toList) looked
      (tasks ++ rest) := by
  obtain ⟨n, o, slot, hl, hln, hslot⟩ := hloop.placed
  cases task with
  | compute p =>
      have hlp : session.graph.locate p = .ok (n, o) := hln
      obtain ⟨rfl, rfl, rfl, hout⟩ := compute_step hlp hslot hstep
      rw [hout, Option.toList_some]
      exact h.keep hl (.inr (h.covered.1 n o hl)) fun q hq => .inl hq
  | visit p d =>
      have hlp : session.graph.locate p = .ok (n, o) := hln
      have hmore : ∀ q ∈ p :: visited, q ∈ visited ∨ q = (Task.visit p d).port :=
        fun q hq => (List.mem_cons.mp hq).symm
      rcases session.look_cases visited d hlp hslot with
        ⟨hdone, hout, after, hstep', -⟩ | ⟨-, -, ⟨hunit, hout, hstep'⟩ | ⟨-, -, hout, hstep'⟩ |
          ⟨-, hout, hstep'⟩⟩
      case inl =>
        obtain ⟨rfl, rfl, -⟩ := step_unique hstep' hstep
        rw [hout, Option.toList_none, List.append_nil]
        refine h.drop ?_
        rcases hdone with hf | hv
        · exact hledger.account.handled_of_fresh hl hf
        · exact (h.seen p hv).resolve_right hloop.not_pending
      case inr.inl =>
        obtain ⟨rfl, rfl, -⟩ := step_unique hstep' hstep
        rw [hout, Option.toList_some]
        rw [unit?_of_bare hloop.alike] at hunit
        have hnone : start.graph.sources n o = [] := by simp only [sources, hunit]
        exact h.keep hl (.inr (by simp [hnone])) hmore
      case inr.inr.inl =>
        obtain ⟨rfl, rfl, -⟩ := step_unique hstep' hstep
        rw [hout, Option.toList_some]
        exact h.keep hl (.inl (by rw [settings_of_bare hloop.alike])) hmore
      case inr.inr.inr =>
        obtain ⟨rfl, rfl, -⟩ := step_unique hstep' hstep
        rw [hout, Option.toList_none, List.append_nil, sources_of_bare hloop.alike,
          List.append_assoc]
        exact h.expand hl

variable {node : NodeId} {output : Nat} {target : PortId}

-- So a whole request leaves none, and what it answers it reads where the walk ends.
theorem evaluate_gapless (hg : session.graph.Healthy)
    (hend : session.graph.resolveOutput node output = .ok target) :
    ∃ chain seen, chain.last = target ∧
      (session.evaluate node output).1 =
        (session.evaluate node output).2.graph.readOutput chain ∧
      Gapless session.graph target (session.outcomes node output) seen [] := by
  rcases evaluate_run hg node output with
    ⟨e, hwrong, -⟩ | ⟨chain, n, o, slot, next, hend', hplain, hl, hslot, hwork, heval⟩
  · cases hwrong.symm.trans hend
  · obtain rfl := Except.ok.inj (hend'.symm.trans hend)
    have hledger : Ledger session chain.last [] [] [.visit chain.last 0] session := .begin hl
    obtain ⟨seen, -, -, hgapless⟩ := hledger.run hg.wired hg.acyclic hplain
      (motive := fun log visited tasks _ => Gapless session.graph chain.last log visited tasks)
      (fun hloop hledger h hstep => hledger.gapless_step hloop h hstep) _
      (session.loop_start hg.sound hl hslot) (.begin session.graph chain.last) hwork
    rw [outcomes_eq hend', heval]
    exact ⟨chain, seen, rfl, rfl, hgapless⟩

section Entries

variable {calls : List (NodeId × Nat)} (hg : start.graph.Healthy)
  (halike : next.graph.bare = start.graph.bare) (haccount : Account start needed log next)
  (hearned : ∀ outcome ∈ log, outcome.Earned next.graph calls)
  (hgapless : Gapless start.graph goal log visited []) (he : ⟨n, o, .error e⟩ ∈ log)

include hg halike hearned hgapless he in
-- A failure with an entry is the output's own, or it is passed on from a source, and then all
-- sources were handled.
theorem own_or_passed : next.graph.OwnFailure n o e ∨
    next.graph.Passed next.graph.kept (next.graph.sources n o) e ∧
      ∀ s ∈ start.graph.sources n o, Handled start.graph log s := by
  have hsettings := settings_of_bare halike
  have hfar : e = .depthExceeded start.graph.settings.maxEvalDepth →
      next.graph.OwnFailure n o e := by
    rintro rfl
    rw [← hsettings]
    exact .tooFar
  rcases hgapless.entries _ he with heq | hhandled
  · exact .inl (hfar (Except.error.inj heq))
  rcases (hearned _ he).result with heq | hdenote
  · exact .inl (hfar (hsettings ▸ Except.error.inj heq))
  have hdenote : next.graph.denote next.graph.kept n o = .error e := hdenote.symm
  rcases (hg.wired.of_bare halike).cause_of_denote hdenote with
    ⟨hu, rfl⟩ | ⟨node, unit, hn, hu, -, hcause⟩
  · exact .inl (.uncomputed hu)
  rcases hcause with ⟨i, hi, input, hinput, hastray⟩ | hpassed | ⟨values, hvalues, hrun⟩
  · exact .inl (.astray hu hi hinput hastray)
  · exact .inr ⟨hpassed, hhandled⟩
  · refine .inl (.called hu ?_ hrun)
    simp only [gather, readAt_eq, hvalues, hn, bind, Except.bind]

include hg halike haccount hearned hgapless he in
-- So it can be followed to where it comes from: each source ranks lower than what reads it.
theorem blames_of_mem (hown : start.graph.OwnWords) : next.graph.Blames n o e e.rootCause := by
  induction hrank : start.graph.rankAt n o using Nat.strong_induction_on generalizing n o e with
  | _ rank ih =>
    subst hrank
    have hwn : next.graph.Wired := hg.wired.of_bare halike
    have hfailed := haccount.failed_of_mem he
    rcases own_or_passed hg halike hearned hgapless he with hself | ⟨hpassed, hhandled⟩
    · rw [hself.rootCause_eq halike hown]
      exact .root hfailed hself
    · obtain @⟨before, after, s, m, k, cause, hsources, hbefore, hl, hfails⟩ := hpassed
      have hs : s ∈ start.graph.sources n o := by
        rw [← sources_of_bare halike, hsources]
        exact List.mem_append_right _ List.mem_cons_self
      have hls : start.graph.locate s = .ok (m, k) := (locate_of_bare halike s).symm.trans hl
      have hmem := haccount.mem_of_handled (hhandled s hs) hls hfails
      have hrest := ih _ (hg.wired.rankAt_lt hg.acyclic hs hls) hmem rfl
      have hfresh : ∀ b ∈ before, ∃ m k, next.graph.locate b = .ok (m, k) ∧
          next.graph.FreshAt m k := by
        intro b hb
        obtain ⟨-, port, -, hport, -⟩ :=
          hwn.mem_sources (hsources ▸ List.mem_append_left _ hb)
        have hlb := (locate_eq_ok_iff _ _ _).mpr ⟨port, hport, rfl, rfl⟩
        exact ⟨_, _, hlb, freshAt_iff_kept.mpr (hbefore b hb _ _ hlb)⟩
      obtain ⟨slot, -, hslot⟩ := haccount.entered _ hmem
      obtain ⟨source, hsource, -⟩ := Option.bind_eq_some_iff.mp hslot
      rw [ownerUuid_eq hl hsource] at hfailed ⊢
      exact .source hfailed hsources hfresh hl hsource hrest

end Entries

-- An error says where it comes from. It names, link by link, the nodes that it came through
-- to the requested output: each of these read the next one, which has failed with what is left
-- of the error, while all that it read before that one is fresh. The last of them has failed by
-- itself, with the root cause.
theorem error_names_failing_outputs {after : Session} (h : Reachable session.graph)
    (hown : session.graph.OwnWords) (hend : session.graph.resolveOutput node output = .ok target)
    (heval : session.evaluate node output = (.error e, after)) :
    ∃ n o, session.graph.locate target = .ok (n, o) ∧
      after.graph.Blames n o e e.rootCause := by
  have hg := h.healthy
  have haccount := account_evaluate hg node output
  obtain ⟨calls, -, hearned⟩ := evaluate_earned hg node output
  obtain ⟨halike, -⟩ := session.evaluate_consulted hg.wired hg.acyclic hg.sound node output
  obtain ⟨chain, seen, rfl, hread, hgapless⟩ := evaluate_gapless hg hend
  rw [heval] at haccount hearned halike hread
  have hgoal : Handled session.graph (session.outcomes node output) chain.last :=
    hgapless.covered
  obtain ⟨n, o, hl, -⟩ := hgoal
  refine ⟨n, o, hl, ?_⟩
  have hkept : after.graph.kept n o = .error e := by
    rw [readOutput_eq, along, locate_of_bare halike, hl] at hread
    cases hkept : after.graph.kept n o with
    | ok value => simp [hkept, Except.map] at hread
    | error cause => simpa [hkept, Except.map, eq_comm] using hread
  have hmem := haccount.mem_of_handled hgapless.covered hl hkept
  exact blames_of_mem hg halike haccount hearned hgapless hmem hown

-- Four nodes: the third reads one that hands on what it is given, then one that fails, and the
-- fourth reads the third.
private def broken : EvalUnit :=
  ⟨0, [], fun _ => .error (.compute "broken")⟩

private def chained : Session :=
  .start ((Graph.new .standard).run
    [.addNode .relay ⟨1⟩, .addNode { Template.relay with units := [broken] } ⟨2⟩,
      .addNode .relay ⟨3⟩, .addNode .relay ⟨4⟩,
      .addEdge ⟨2⟩ ⟨5⟩, .addEdge ⟨4⟩ ⟨5⟩, .addEdge ⟨6⟩ ⟨7⟩])

private theorem chained_ownWords : chained.graph.OwnWords := by
  intro n node hn unit hunit inputs u cause hrun
  have hmem : unit ∈ chained.graph.nodes.values.flatMap (·.units) :=
    List.mem_flatMap.mpr ⟨node, (Arena.mem_values_iff _ node).mpr ⟨n, hn⟩, hunit⟩
  have hunits : chained.graph.nodes.values.flatMap (·.units) =
      Template.relay.units ++ [broken] ++ Template.relay.units ++ Template.relay.units := rfl
  have hkind : unit ∈ Template.relay.units ∨ unit = broken := by
    simpa [hunits, or_comm, or_assoc, or_left_comm] using hmem
  rcases hkind with hrelay | rfl
  · obtain rfl := List.mem_singleton.mp hrelay
    simp only [EvalInputs.get] at hrun
    split at hrun <;> cases hrun
  · cases hrun

theorem chained_names_broken :
    chained.graph.OwnWords ∧ chained.graph.resolveOutput ⟨4⟩ 0 = .ok ⟨8⟩ ∧
      (chained.evaluate ⟨4⟩ 0).1 =
        .error (.sourceFailed ⟨3⟩ (.sourceFailed ⟨2⟩ (.compute "broken"))) ∧
      (chained.evaluate ⟨4⟩ 0).2.graph.Blames ⟨4⟩ 0
        (.sourceFailed ⟨3⟩ (.sourceFailed ⟨2⟩ (.compute "broken"))) (.compute "broken") := by
  have hend : chained.graph.resolveOutput ⟨4⟩ 0 = .ok ⟨8⟩ := rfl
  have hfails : (chained.evaluate ⟨4⟩ 0).1 =
      .error (.sourceFailed ⟨3⟩ (.sourceFailed ⟨2⟩ (.compute "broken"))) := rfl
  have hreach : Reachable chained.graph := Reachable.run (.new .standard) _
  obtain ⟨n, o, hl, hblames⟩ :=
    error_names_failing_outputs hreach chained_ownWords hend (Prod.ext hfails rfl)
  obtain ⟨rfl, rfl⟩ : (⟨4⟩ : NodeId) = n ∧ 0 = o := Prod.mk.inj (Except.ok.inj hl)
  exact ⟨chained_ownWords, hend, hfails, hblames⟩

end Session

end Dataflow
