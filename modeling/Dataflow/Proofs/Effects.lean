import Dataflow.Proofs.Evaluation.Distance

namespace Dataflow

-- A result that a request kept, and that its output still has when the request is through: what
-- follows from what is kept of its sources, or the failure of a request that reached too far.
-- For a value the function of the output was called.
structure Outcome.Earned (outcome : Outcome) (last : Graph) (calls : List (NodeId × Nat)) :
    Prop where
  result : outcome.result = .error (.depthExceeded last.settings.maxEvalDepth) ∨
    outcome.result = last.denote last.kept outcome.node outcome.output
  called : ∀ value, outcome.result = .ok value → outcome.place ∈ calls

theorem Outcome.Earned.mono {outcome : Outcome} {last : Graph} {calls more : List (NodeId × Nat)}
    (h : outcome.Earned last calls) (hmore : calls ⊆ more) : outcome.Earned last more :=
  ⟨h.result, fun value hvalue => hmore (h.called value hvalue)⟩

open Dataflow.Graph

section Step

variable {session next : Session} {visited looked : List PortId} {p : PortId} {d : Nat}
  {n : NodeId} {o : Nat} {slot : Slot} {tasks : List Task} {last : Graph}

-- A look at an output calls nothing, and keeps a failure if anything.
theorem Session.look_earned (halike : last.bare = session.graph.bare)
    (hl : session.graph.locate p = .ok (n, o)) (hslot : session.graph.ownSlot? n o = some slot)
    (hstep : session.step visited (.visit p d) = (.ok (looked, tasks), next)) :
    next.ran = session.ran ∧
      ∀ outcome ∈ session.outcome? visited (.visit p d), outcome.Earned last [] := by
  rcases session.look_cases visited d hl hslot with
    ⟨-, hout, after, hlook, hidle⟩ | ⟨-, -, ⟨hu, hout, hlook⟩ | ⟨-, -, hout, hlook⟩ |
      ⟨-, hout, hlook⟩⟩
  · obtain ⟨-, -, rfl⟩ := Session.step_unique hlook hstep
    exact ⟨hidle.ran, fun outcome hm => nomatch hout.symm.trans hm⟩
  · obtain ⟨-, -, rfl⟩ := Session.step_unique hlook hstep
    refine ⟨Session.ran_finish _ _ _ _, fun outcome hm => ?_⟩
    obtain rfl := Option.some.inj (hout.symm.trans hm)
    have hnone : last.denote last.kept n o = .error (.noEvaluator o) :=
      last.denote_of_no_unit ((unit?_of_bare halike n o).trans hu)
    exact ⟨.inr hnone.symm, fun value hvalue => nomatch hvalue⟩
  · obtain ⟨-, -, rfl⟩ := Session.step_unique hlook hstep
    refine ⟨Session.ran_finish _ _ _ _, fun outcome hm => ?_⟩
    obtain rfl := Option.some.inj (hout.symm.trans hm)
    exact ⟨.inl (by rw [settings_of_bare halike]), fun value hvalue => nomatch hvalue⟩
  · obtain ⟨-, -, rfl⟩ := Session.step_unique hlook hstep
    exact ⟨rfl, fun outcome hm => nomatch hout.symm.trans hm⟩

-- To compute an output calls its function if that comes to a value.
theorem Session.compute_earned (hl : session.graph.locate p = .ok (n, o))
    (hslot : session.graph.ownSlot? n o = some slot)
    (hsame : last.denote last.kept n o = session.graph.denote session.graph.kept n o)
    (hstep : session.step visited (.compute p) = (.ok (looked, tasks), next)) :
    ∃ calls, next.ran = session.ran ++ calls ∧
      ∀ outcome ∈ session.outcome? visited (.compute p), outcome.Earned last calls := by
  obtain ⟨-, -, rfl, hout⟩ := Session.compute_step hl hslot hstep
  simp only [hout, Option.mem_some_iff, forall_eq']
  rcases session.compute_cases n o with hran | ⟨hran, hfails⟩
  · exact ⟨[(n, o)], hran, .inr hsame.symm, fun _ _ => List.mem_singleton_self _⟩
  · refine ⟨[], hran.trans (List.append_nil _).symm, .inr hsame.symm, fun value hvalue => ?_⟩
    change session.graph.denote session.graph.kept n o = .ok value at hvalue
    rcases hfails with hnone | ⟨-, e, -, he⟩
    · cases hnone.symm.trans hvalue
    · cases he.symm.trans hvalue

end Step

namespace Graph.Resting

variable {start : Graph} {goal : PortId} {visited looked : List PortId} {task : Task}
  {rest tasks : List Task} {session next last : Session}

-- What a task keeps is earned, and it calls one function at most.
theorem step_earned (hw : start.Wired) (ha : start.Acyclic) (hgoal : start.Plain goal) (fuel : Nat)
    (h : Resting start goal visited (task :: rest) session.graph)
    (hdone : Session.work fuel visited (task :: rest) session = (.ok [], last))
    (hlast : last.graph.bare = start.bare)
    (hstep : session.step visited task = (.ok (looked, tasks), next)) :
    ∃ calls, next.ran = session.ran ++ calls ∧
      ∀ outcome ∈ session.outcome? visited task, outcome.Earned last.graph calls := by
  obtain ⟨n, o, slot, hl, hln, hslot⟩ := h.loop.placed
  cases task with
  | visit p d =>
      obtain ⟨hran, hentry⟩ :=
        Session.look_earned (hlast.trans h.loop.alike.symm) hln hslot hstep
      exact ⟨[], hran.trans (List.append_nil _).symm, hentry⟩
  | compute p =>
      exact Session.compute_earned hln hslot (h.denote_eq hw ha hgoal fuel hdone hlast hl) hstep

-- So is all that a whole run keeps.
theorem work_earned (hw : start.Wired) (ha : start.Acyclic) (hgoal : start.Plain goal) (fuel : Nat)
    (h : Resting start goal visited tasks session.graph)
    (hdone : Session.work fuel visited tasks session = (.ok [], last))
    (hlast : last.graph.bare = start.bare) :
    ∃ calls, last.ran = session.ran ++ calls ∧
      ∀ outcome ∈ Session.outcomesOf fuel visited tasks session,
        outcome.Earned last.graph calls := by
  induction hdone using Session.work_induction with
  | nil =>
      rw [Session.outcomesOf]
      exact ⟨[], (List.append_nil _).symm, fun _ hout => absurd hout List.not_mem_nil⟩
  | @cons fuel visited looked task rest tasks session next hstep hdone ih =>
      obtain ⟨first, hfirst, hentry⟩ := h.step_earned hw ha hgoal (fuel + 1)
        ((Session.work_of_step hstep).trans hdone) hlast hstep
      obtain ⟨hnext, -, -⟩ := h.step hw ha hgoal hstep
      obtain ⟨more, hmore, hentries⟩ := ih hnext
      refine ⟨first ++ more, by rw [hmore, hfirst, List.append_assoc], fun outcome hout => ?_⟩
      simp only [Session.outcomesOf, hstep, List.mem_append, Option.mem_toList] at hout
      rcases hout with hout | hout
      · exact (hentry outcome hout).mono (List.subset_append_left _ _)
      · exact (hentries outcome hout).mono (List.subset_append_right _ _)

end Graph.Resting

namespace Session

variable {session : Session}

theorem evaluate_earned (hg : session.graph.Healthy) (node : NodeId) (output : Nat) :
    ∃ calls, (session.evaluate node output).2.ran = session.ran ++ calls ∧
      ∀ outcome ∈ session.outcomes node output,
        outcome.Earned (session.evaluate node output).2.graph calls := by
  have halike := (session.evaluate_consulted hg.wired hg.acyclic hg.sound node output).1
  rcases evaluate_run hg node output with
    ⟨e, hend, heval⟩ | ⟨chain, n, o, slot, next, hend, hplain, hl, hslot, hwork, heval⟩
  · rw [heval, outcomes, hend]
    exact ⟨[], (List.append_nil _).symm, fun _ hout => absurd hout List.not_mem_nil⟩
  · rw [heval] at halike ⊢
    rw [outcomes_eq hend]
    exact (Resting.begin (session.loop_start hg.sound hl hslot)).work_earned hg.wired hg.acyclic
      hplain _ hwork halike

-- A request changes slots only, and of these neither the fresh ones nor those of outputs that
-- the requested one does not depend on. Any other slot is left alone if the request came to no
-- result for it. Else it is fresh with the value that its function was called for, or it is
-- dirty: it has the failure that the request came to, and keeps the value that it had.
theorem evaluation_changes_due_slots {node : NodeId} {output : Nat}
    {result : Except EvalError Ragged} {after : Session} (h : Reachable session.graph)
    (heval : session.evaluate node output = (result, after)) :
    after.graph.bare = session.graph.bare ∧
    (∀ n o, session.graph.FreshAt n o ∨ ¬ session.graph.Needed node output n o →
      after.graph.ownSlot? n o = session.graph.ownSlot? n o) ∧
    ∃ calls, after.ran = session.ran ++ calls ∧ ∀ n o,
      (after.graph.ownSlot? n o = session.graph.ownSlot? n o ∧
        (n, o) ∉ (session.outcomes node output).map Outcome.place) ∨
      (∃ value, after.graph.ownSlot? n o = some ⟨some value, false, false, none⟩ ∧
        ⟨n, o, .ok value⟩ ∈ session.outcomes node output ∧ (n, o) ∈ calls ∧
        after.graph.denote after.graph.kept n o = .ok value) ∨
      ∃ slot e, session.graph.ownSlot? n o = some slot ∧
        after.graph.ownSlot? n o = some ⟨slot.cache, true, false, some e⟩ ∧
        ⟨n, o, .error e⟩ ∈ session.outcomes node output ∧
        (e = .depthExceeded session.graph.settings.maxEvalDepth ∨
          after.graph.denote after.graph.kept n o = .error e) := by
  have hg := h.healthy
  have halike := (session.evaluate_consulted hg.wired hg.acyclic hg.sound node output).1
  have haccount := account_evaluate hg node output
  obtain ⟨calls, hran, hearned⟩ := evaluate_earned hg node output
  rw [heval] at halike haccount hran hearned
  refine ⟨halike, fun n o hdone => ?_, calls, hran, fun n o => ?_⟩
  · refine haccount.others n o fun hm => ?_
    obtain ⟨entry, hentry, hplace⟩ := List.mem_map.mp hm
    obtain ⟨rfl, rfl⟩ := Prod.mk.inj hplace
    obtain ⟨hstale, hneeded⟩ := haccount.due entry hentry
    exact hdone.elim hstale fun hnot => hnot hneeded
  · by_cases hm : (n, o) ∈ (session.outcomes node output).map Outcome.place
    · obtain ⟨⟨n, o, r⟩, hentry, hplace⟩ := List.mem_map.mp hm
      obtain ⟨rfl, rfl⟩ := Prod.mk.inj hplace
      obtain ⟨slot, hbefore, hafter⟩ := haccount.entered _ hentry
      obtain ⟨hresult, hcalled⟩ := hearned _ hentry
      rw [settings_of_bare halike] at hresult
      right
      cases r with
      | ok value =>
          exact .inl ⟨value, hafter, hentry, hcalled value rfl, (hresult.resolve_left nofun).symm⟩
      | error e =>
          exact .inr ⟨slot, e, hbefore, hafter, hentry, hresult.imp Except.error.inj Eq.symm⟩
    · exact .inl ⟨haccount.others n o hm, hm⟩

-- The relays after each has shown a value and the first has changed, in a graph where a
-- request may reach one step only.
def strained : Session :=
  .start ((Graph.new { Settings.standard with maxEvalDepth := 1 }).run
    (relaying ++ [.setProperty ⟨1⟩ "in" (.leaf (.int 7)), .evaluate ⟨1⟩ 0, .evaluate ⟨2⟩ 0,
      .invalidate ⟨1⟩]))

-- The first is too far off, and keeps its value beside the failure.
theorem strained_keeps_value :
    (strained.evaluate ⟨2⟩ 0).2.graph.ownSlot? ⟨1⟩ 0 =
        some ⟨some (.scalar (.int 7)), true, false, some (.depthExceeded 1)⟩ ∧
      ⟨⟨1⟩, 0, .error (.depthExceeded 1)⟩ ∈ strained.outcomes ⟨2⟩ 0 := by
  have hslot : (strained.evaluate ⟨2⟩ 0).2.graph.ownSlot? ⟨1⟩ 0 =
      some ⟨some (.scalar (.int 7)), true, false, some (.depthExceeded 1)⟩ := rfl
  obtain ⟨-, -, calls, -, hslots⟩ := @evaluation_changes_due_slots strained ⟨2⟩ 0 _ _
    (Reachable.run (.new _) _) (Prod.mk.eta (p := strained.evaluate ⟨2⟩ 0)).symm
  rcases hslots ⟨1⟩ 0 with ⟨hsame, -⟩ | ⟨value, hfresh, -⟩ | ⟨slot, e, -, hdirty, hentry, -⟩
  · rw [hslot] at hsame
    cases hsame
  · rw [hslot] at hfresh
    cases hfresh
  · rw [hslot] at hdirty
    obtain ⟨-, -, -, he⟩ := Slot.mk.inj (Option.some.inj hdirty)
    obtain rfl := Option.some.inj he
    exact ⟨hslot, hentry⟩

end Session

end Dataflow
