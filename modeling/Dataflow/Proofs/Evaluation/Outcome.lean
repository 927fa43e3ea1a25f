import Dataflow.Proofs.Evaluation.Recorded

namespace Dataflow

-- A result that a request kept, and the output that it is kept for.
structure Outcome where
  node : NodeId
  output : Nat
  result : Except EvalError Ragged

def Outcome.place (outcome : Outcome) : NodeId × Nat :=
  (outcome.node, outcome.output)

-- What was looked at once the task has kept a result.
def Task.looked (visited : List PortId) : Task → List PortId
  | .visit port _ => port :: visited
  | .compute _ => visited

namespace Session

-- What a task keeps. A look at an output keeps a failure where the output cannot be
-- computed; one that computes keeps what follows from what is kept of its sources.
def outcome? (session : Session) (visited : List PortId) (task : Task) : Option Outcome :=
  match session.graph.locate task.port with
  | .error _ => none
  | .ok (node, output) =>
      (session.graph.ownSlot? node output).bind fun slot =>
        match task with
        | .compute _ => some ⟨node, output, session.graph.denote session.graph.kept node output⟩
        | .visit port depth =>
            if slot.state = .fresh ∨ visited.contains port then none
            else if (session.graph.unit? node output).isNone then
              some ⟨node, output, .error (.noEvaluator output)⟩
            else if session.graph.settings.maxEvalDepth ≤ depth then
              some ⟨node, output, .error (.depthExceeded session.graph.settings.maxEvalDepth)⟩
            else none

-- What tasks keep one after the other.
def outcomesOf : Nat → List PortId → List Task → Session → List Outcome
  | _, _, [], _ => []
  | 0, _, _ :: _, _ => []
  | fuel + 1, visited, task :: rest, session =>
      (session.outcome? visited task).toList ++
        match session.step visited task with
        | (.error _, _) => []
        | (.ok (visited, tasks), session) => outcomesOf fuel visited (tasks ++ rest) session

-- What a request for an output keeps.
def outcomes (session : Session) (node : NodeId) (output : Nat) : List Outcome :=
  match session.graph.resolveOutput node output with
  | .error _ => []
  | .ok target => outcomesOf (workBound session.graph) [] [.visit target 0] session

-- Nothing was kept, no failure or value counted, and no function called.
structure Idle (before after : Session) : Prop where
  graph : after.graph = before.graph
  computed : after.stats.computed = before.stats.computed
  failed : after.stats.failed = before.stats.failed
  ran : after.ran = before.ran

theorem Idle.refl (session : Session) : Idle session session :=
  ⟨rfl, rfl, rfl, rfl⟩

variable {session : Session} {visited : List PortId} {task : Task} {n : NodeId} {o : Nat}
  {slot : Slot}

theorem ran_finish (session : Session) (n : NodeId) (o : Nat) (r : Except EvalError Ragged) :
    (session.finish n o r).ran = session.ran := by
  simp only [finish]
  split <;> rfl

-- To compute an output is to call its function, unless there is none or it does not get its
-- inputs.
theorem compute_cases (session : Session) (n : NodeId) (o : Nat) :
    (session.compute n o).ran = session.ran ++ [(n, o)] ∨
    (session.compute n o).ran = session.ran ∧
      (session.graph.denote session.graph.kept n o = .error (.noEvaluator o) ∨
        ∃ unit e, session.graph.gather n unit = .error e ∧
          session.graph.denote session.graph.kept n o = .error e) := by
  simp only [compute]
  cases hu : session.graph.unit? n o with
  | none =>
      rw [session.graph.denote_of_no_unit hu]
      exact .inr ⟨ran_finish _ _ _ _, .inl rfl⟩
  | some unit =>
      obtain ⟨node, hn, hfind⟩ := Option.bind_eq_some_iff.mp hu
      have ho : unit.output = o := by simpa using List.find?_some hfind
      rw [← Graph.runUnit_fst_eq session hn hfind]
      simp only [ran_finish, runUnit]
      cases hg : session.graph.gather n unit with
      | error e => exact .inr ⟨rfl, .inr ⟨unit, e, hg, rfl⟩⟩
      | ok inputs => exact .inl (by rw [ho])

-- To compute an output calls its function once at most, and no other.
theorem ran_compute (session : Session) (n : NodeId) (o : Nat) :
    (session.compute n o).ran = session.ran ∨
      (session.compute n o).ran = session.ran ++ [(n, o)] :=
  (session.compute_cases n o).symm.imp_left (·.1)

-- A task that computes an output keeps what follows from what is kept of its sources, and
-- leads to no other.
theorem compute_step {next : Session} {looked : List PortId} {tasks : List Task} {p : PortId}
    (hl : session.graph.locate p = .ok (n, o)) (h : session.graph.ownSlot? n o = some slot)
    (hstep : session.step visited (.compute p) = (.ok (looked, tasks), next)) :
    looked = visited ∧ tasks = [] ∧ next = session.compute n o ∧
      session.outcome? visited (.compute p) =
        some ⟨n, o, session.graph.denote session.graph.kept n o⟩ := by
  simp only [step, hl] at hstep
  obtain ⟨hok, rfl⟩ := Prod.mk.inj hstep
  obtain ⟨rfl, rfl⟩ := Prod.mk.inj (Except.ok.inj hok)
  refine ⟨rfl, rfl, rfl, ?_⟩
  simp only [outcome?, Task.port, hl, h, Option.bind_some]

-- A look at an output does nothing where it is fresh or was looked at. A first look ends it if
-- nothing computes it or if it is too far off, and puts it off otherwise.
theorem look_cases (visited : List PortId) {p : PortId} (d : Nat)
    (hl : session.graph.locate p = .ok (n, o)) (h : session.graph.ownSlot? n o = some slot) :
    ((session.graph.FreshAt n o ∨ p ∈ visited) ∧
      session.outcome? visited (.visit p d) = none ∧
      ∃ next, session.step visited (.visit p d) = (.ok (visited, []), next) ∧
        Idle session next) ∨
    ¬ session.graph.FreshAt n o ∧ p ∉ visited ∧
      ((session.graph.unit? n o = none ∧
        session.outcome? visited (.visit p d) = some ⟨n, o, .error (.noEvaluator o)⟩ ∧
        session.step visited (.visit p d) =
          (.ok (p :: visited, []), session.finish n o (.error (.noEvaluator o)))) ∨
      ((∃ unit, session.graph.unit? n o = some unit) ∧
        session.graph.settings.maxEvalDepth ≤ d ∧
        session.outcome? visited (.visit p d) =
          some ⟨n, o, .error (.depthExceeded session.graph.settings.maxEvalDepth)⟩ ∧
        session.step visited (.visit p d) = (.ok (p :: visited, []),
          session.finish n o (.error (.depthExceeded session.graph.settings.maxEvalDepth)))) ∨
      (d < session.graph.settings.maxEvalDepth ∧
        session.outcome? visited (.visit p d) = none ∧
        session.step visited (.visit p d) = (.ok (p :: visited,
          (session.graph.sources n o).map (.visit · (d + 1)) ++ [.compute p]), session))) := by
  obtain ⟨node, hn, -⟩ := Option.bind_eq_some_iff.mp h
  simp only [outcome?, step, visit, Task.port, hl, hn, h, Option.bind_some,
    Graph.freshAt_iff_state h, List.contains_iff_mem, Graph.sources]
  by_cases hs : slot.state = .fresh
  · left
    simp only [hs, true_or, if_true, true_and]
    exact ⟨_, rfl, rfl, rfl, rfl, rfl⟩
  by_cases hv : p ∈ visited
  · left
    simp only [hs, hv, or_true, if_true, if_false, true_and]
    exact ⟨_, rfl, .refl session⟩
  refine .inr ⟨hs, hv, ?_⟩
  simp only [hs, hv, or_self, if_false]
  cases hu : session.graph.unit? n o with
  | none => exact .inl ⟨rfl, rfl, rfl⟩
  | some unit =>
      right
      simp only [Option.isNone_some, Bool.false_eq_true, if_false]
      by_cases hd : session.graph.settings.maxEvalDepth ≤ d
      · simp only [hd, if_true, and_self, and_true]
        exact .inl ⟨unit, rfl⟩
      · simp only [hd, if_false, and_self, and_true]
        exact .inr (Nat.lt_of_not_le hd)

-- What a task does for an output that has a slot: nothing, or it keeps a result, or it
-- puts the output off until its sources are settled.
theorem step_cases (visited : List PortId) (hl : session.graph.locate task.port = .ok (n, o))
    (h : session.graph.ownSlot? n o = some slot) :
    (session.outcome? visited task = none ∧ (∃ d, task = .visit task.port d) ∧
      (session.graph.FreshAt n o ∨ task.port ∈ visited) ∧
      ∃ next, session.step visited task = (.ok (visited, []), next) ∧ Idle session next) ∨
    (∃ r looked next, session.outcome? visited task = some ⟨n, o, r⟩ ∧
      session.step visited task = (.ok (looked, []), next) ∧ Keeps session next n o slot r ∧
      (next.ran = session.ran ∨ next.ran = session.ran ++ [(n, o)]) ∧
      (task = .compute task.port ∧ looked = visited ∧
          r = session.graph.denote session.graph.kept n o ∨
        (∃ d, task = .visit task.port d) ∧ ¬ session.graph.FreshAt n o ∧ task.port ∉ visited ∧
          looked = task.port :: visited ∧ ∃ e, r = .error e)) ∨
    (session.outcome? visited task = none ∧ ¬ session.graph.FreshAt n o ∧ task.port ∉ visited ∧
      ∃ d, task = .visit task.port d ∧
        session.step visited task = (.ok (task.port :: visited,
          (session.graph.sources n o).map (.visit · (d + 1)) ++ [.compute task.port]),
            session)) := by
  cases task with
  | compute p =>
      right; left
      simp only [Task.port] at hl
      refine ⟨_, visited, session.compute n o, ?_, ?_, compute_keeps h, ran_compute session n o,
        .inl ⟨rfl, rfl, rfl⟩⟩
      · simp only [outcome?, Task.port, hl, h, Option.bind_some]
      · simp only [step, hl]
  | visit p d =>
      rcases session.look_cases visited d hl h with
        ⟨hdone, hout, hstep⟩ | ⟨hstale, hnew, ⟨-, hout, hstep⟩ | ⟨-, -, hout, hstep⟩ |
          ⟨-, hout, hstep⟩⟩
      · exact .inl ⟨hout, ⟨d, rfl⟩, hdone, hstep⟩
      · exact .inr (.inl ⟨_, _, _, hout, hstep, finish_keeps h _, .inl (ran_finish _ _ _ _),
          .inr ⟨⟨d, rfl⟩, hstale, hnew, rfl, _, rfl⟩⟩)
      · exact .inr (.inl ⟨_, _, _, hout, hstep, finish_keeps h _, .inl (ran_finish _ _ _ _),
          .inr ⟨⟨d, rfl⟩, hstale, hnew, rfl, _, rfl⟩⟩)
      · exact .inr (.inr ⟨hout, hstale, hnew, d, rfl, hstep⟩)

section Cases

variable (hl : session.graph.locate task.port = .ok (n, o))
  (hslot : session.graph.ownSlot? n o = some slot)

include hl hslot

-- A task that keeps a result leads to no other.
theorem step_of_outcome? {r : Except EvalError Ragged}
    (h : session.outcome? visited task = some ⟨n, o, r⟩) :
    ∃ next, session.step visited task = (.ok (task.looked visited, []), next) ∧
      Keeps session next n o slot r := by
  rcases session.step_cases visited hl hslot with
    ⟨hnone, -⟩ | ⟨r', looked, next, hsome, hstep, hkeeps, -, hkind⟩ | ⟨hnone, -⟩
  · rw [h] at hnone
    cases hnone
  · rw [h] at hsome
    obtain rfl := congrArg Outcome.result (Option.some.inj hsome)
    refine ⟨next, ?_, hkeeps⟩
    rcases hkind with ⟨htask, rfl, -⟩ | ⟨⟨d, htask⟩, -, -, rfl, -⟩ <;>
      rw [hstep, htask] <;> rfl
  · rw [h] at hnone
    cases hnone

-- A look that keeps nothing is done where the output is fresh or was looked at,
theorem step_of_done (h : session.outcome? visited task = none)
    (hdone : session.graph.FreshAt n o ∨ task.port ∈ visited) :
    ∃ next, session.step visited task = (.ok (visited, []), next) ∧ Idle session next := by
  rcases session.step_cases visited hl hslot with
    ⟨-, -, -, hidle⟩ | ⟨_, _, _, hsome, -⟩ | ⟨-, hstale, hnew, -⟩
  · exact hidle
  · rw [h] at hsome
    cases hsome
  · exact (hdone.elim hstale hnew).elim

-- and otherwise puts the output off.
theorem step_of_due (h : session.outcome? visited task = none)
    (hstale : ¬ session.graph.FreshAt n o) (hnew : task.port ∉ visited) :
    ∃ d, task = .visit task.port d ∧ session.step visited task = (.ok (task.port :: visited,
      (session.graph.sources n o).map (.visit · (d + 1)) ++ [.compute task.port]), session) := by
  rcases session.step_cases visited hl hslot with
    ⟨-, -, hdone, -⟩ | ⟨_, _, _, hsome, -⟩ | ⟨-, -, -, hdue⟩
  · exact (hdone.elim hstale hnew).elim
  · rw [h] at hsome
    cases hsome
  · exact hdue

end Cases

-- A task for anything else leaves the graph as it is.
theorem step_unplaced (visited : List PortId) (task : Task)
    (h : ∀ n o slot, session.graph.locate task.port = .ok (n, o) →
      session.graph.ownSlot? n o ≠ some slot) :
    (session.step visited task).2.graph = session.graph := by
  cases task with
  | visit p d =>
      simp only [Task.port] at h
      simp only [step, visit]
      split
      · rfl
      · next n o hl =>
        split
        · rfl
        · rfl
        · next slot _ hslot => exact absurd hslot (h n o slot hl)
  | compute p =>
      simp only [Task.port] at h
      simp only [step]
      split
      · rfl
      · next n o hl =>
        have hnone : session.graph.ownSlot? n o = none :=
          Option.eq_none_iff_forall_ne_some.mpr fun slot => h n o slot hl
        simp only [compute]
        split
        · simp only [finish, hnone]
        · next unit _ => simp only [finish, session.runUnit_graph unit, hnone]

end Session

end Dataflow
