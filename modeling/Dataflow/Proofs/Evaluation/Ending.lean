import Dataflow.Proofs.Evaluation.Run
import Dataflow.Proofs.Evaluation.Settle

namespace Dataflow

-- Neither structures nor slots of a graph say how much work its ports can make.
theorem Graph.pending_of_bare {graph other : Graph} (h : other.bare = graph.bare)
    (visited : List PortId) : other.pending visited = graph.pending visited := by
  simp only [pending, ports_of_bare h, sources_of_bare h]

namespace Session

open Dataflow.Graph

variable {session next : Session} {visited looked : List PortId} {task : Task}
  {tasks rest : List Task}

theorem bare_finish (session : Session) (n : NodeId) (o : Nat) (r : Except EvalError Ragged) :
    (session.finish n o r).graph.bare = session.graph.bare := by
  simp only [finish]
  split
  · rfl
  · exact bare_withSlot _ _ _ _

theorem bare_compute (session : Session) (n : NodeId) (o : Nat) :
    (session.compute n o).graph.bare = session.graph.bare := by
  simp only [compute]
  split
  · exact bare_finish _ _ _ _
  · rw [bare_finish, runUnit_graph]

-- On any graph, a task that does not fail leads to no other, or it is the first look at a
-- port and leads to those that the port reads and to its own computation.
theorem step_leads (h : session.step visited task = (.ok (looked, tasks), next)) :
    next.graph.bare = session.graph.bare ∧
    (looked = visited ∧ tasks = [] ∨
      ∃ p d port, session.graph.port? p = some port ∧ p ∉ visited ∧ looked = p :: visited ∧
        (tasks = [] ∨ tasks = (session.graph.sources port.node port.index).map (.visit · d) ++
          [.compute p])) := by
  cases task with
  | compute p =>
      simp only [step] at h
      split at h
      · cases h
      · obtain ⟨hok, rfl⟩ := Prod.mk.inj h
        obtain ⟨rfl, rfl⟩ := Prod.mk.inj (Except.ok.inj hok)
        exact ⟨session.bare_compute _ _, .inl ⟨rfl, rfl⟩⟩
  | visit p d =>
      by_cases hplaced : ∃ n o slot, session.graph.locate p = .ok (n, o) ∧
          session.graph.ownSlot? n o = some slot
      · obtain ⟨n, o, slot, hl, hslot⟩ := hplaced
        obtain ⟨port, hp, rfl, rfl⟩ := (locate_eq_ok_iff _ _ _).mp hl
        rcases session.visit_cases visited d hl hslot with
          ⟨-, after, hvisit, hgraph⟩ | ⟨-, hnew, r, hvisit, -⟩ | ⟨-, hnew, hvisit⟩
        · obtain ⟨rfl, rfl, rfl⟩ := step_unique h hvisit
          exact ⟨congrArg Graph.bare hgraph, .inl ⟨rfl, rfl⟩⟩
        · obtain ⟨rfl, rfl, rfl⟩ := step_unique h hvisit
          exact ⟨session.bare_finish _ _ _, .inr ⟨p, d, port, hp, hnew, rfl, .inl rfl⟩⟩
        · obtain ⟨rfl, rfl, rfl⟩ := step_unique h hvisit
          exact ⟨rfl, .inr ⟨p, d + 1, port, hp, hnew, rfl, .inr rfl⟩⟩
      · obtain ⟨e, he⟩ := session.visit_unplaced visited d
          fun n o slot hl hslot => hplaced ⟨n, o, slot, hl, hslot⟩
        cases he.symm.trans h

end Session

-- A request in the middle of its work: the ports that it has looked at, the tasks that are
-- left, and what has become of the session.
structure Stage where
  visited : List PortId
  tasks : List Task
  session : Session

namespace Stage

open Dataflow.Graph

-- The first look at the target is all that there is to do.
def first (session : Session) (target : PortId) : Stage :=
  ⟨[], [.visit target 0], session⟩

-- A task is done, and those that it leads to come before the others.
inductive Turn : Stage → Stage → Prop where
  | next {visited looked : List PortId} {task : Task} {tasks rest : List Task}
      {session after : Session}
      (h : session.step visited task = (.ok (looked, tasks), after)) :
      Turn ⟨visited, task :: rest, session⟩ ⟨looked, tasks ++ rest, after⟩

-- Work with no bound set on it, until no task is left or one has failed: how many tasks are
-- done, which ones they lead to, and what the request comes to.
inductive Ends : Stage → Nat → List Task → Except EvalError Unit × Session → Prop where
  | done {visited : List PortId} {session : Session} :
      Ends ⟨visited, [], session⟩ 0 [] (.ok (), session)
  | failed {visited : List PortId} {task : Task} {rest : List Task} {session after : Session}
      {e : EvalError} (h : session.step visited task = (.error e, after)) :
      Ends ⟨visited, task :: rest, session⟩ 1 [] (.error e, after)
  | turn {visited looked : List PortId} {task : Task} {tasks rest scheduled : List Task}
      {session after : Session} {turns : Nat} {result : Except EvalError Unit × Session}
      (h : session.step visited task = (.ok (looked, tasks), after))
      (hrest : Ends ⟨looked, tasks ++ rest, after⟩ turns scheduled result) :
      Ends ⟨visited, task :: rest, session⟩ (turns + 1) (tasks ++ scheduled) result

-- No more tasks than this are left to do: those that wait, and those that ports can make
-- that were not looked at.
def left (stage : Stage) : Nat :=
  stage.tasks.length + stage.session.graph.pending stage.visited

theorem left_first (session : Session) (target : PortId) :
    (first session target).left = Session.workBound session.graph := by
  rw [workBound_eq, Nat.add_comm]
  rfl

variable {stage later : Stage} {turns : Nat} {scheduled : List Task}
  {result : Except EvalError Unit × Session}

-- What a first look puts on the stack is less than what the port could make before.
theorem Turn.left_lt (h : Turn stage later) : later.left < stage.left := by
  obtain ⟨hstep⟩ := h
  obtain ⟨hbare, ⟨rfl, rfl⟩ | ⟨p, d, port, hp, hnew, rfl, htasks⟩⟩ := Session.step_leads hstep
  · simp only [left, pending_of_bare hbare, List.nil_append, List.length_cons]
    omega
  · have hless := pending_cons hp hnew
    simp only [left, pending_of_bare hbare, List.length_append, List.length_cons]
    rcases htasks with rfl | rfl
    · simp only [List.length_nil]
      omega
    · simp only [List.length_append, List.length_map, List.length_singleton]
      omega

-- Wherever a request stands, and on any graph, its turns do not go on for ever.
theorem turns_founded : WellFounded fun later stage => Turn stage later :=
  Subrelation.wf Turn.left_lt (measure left).wf

theorem exists_ends (stage : Stage) :
    ∃ turns scheduled result, Ends stage turns scheduled result := by
  induction stage using turns_founded.induction with
  | _ stage ih =>
      obtain ⟨visited, tasks, session⟩ := stage
      cases tasks with
      | nil => exact ⟨_, _, _, .done⟩
      | cons task rest =>
          rcases hstep : session.step visited task with ⟨e | ⟨looked, tasks⟩, after⟩
          · exact ⟨_, _, _, .failed hstep⟩
          · obtain ⟨turns, scheduled, result, hrest⟩ := ih _ (.next hstep)
            exact ⟨_, _, _, .turn hstep hrest⟩

theorem Ends.turns_le (h : Ends stage turns scheduled result) : turns ≤ stage.left := by
  induction h with
  | done => exact Nat.zero_le _
  | failed => exact Nat.le_add_right_of_le (Nat.le_add_left 1 _)
  | turn hstep _ ih => exact Nat.lt_of_le_of_lt ih (Turn.next hstep).left_lt

-- Where there is fuel for all the turns, it makes no difference.
theorem Ends.work_eq (h : Ends stage turns scheduled result) {fuel : Nat} (hfuel : turns ≤ fuel) :
    Session.work fuel stage.visited stage.tasks stage.session =
      (result.1.map fun _ => [], result.2) := by
  induction h generalizing fuel with
  | done => exact Session.work_nil _ _ _
  | failed hstep =>
      obtain ⟨fuel, rfl⟩ := Nat.exists_eq_add_of_le' hfuel
      simp only [Session.work, hstep]
      rfl
  | turn hstep _ ih =>
      obtain ⟨fuel, rfl⟩ := Nat.exists_eq_add_of_le' (Nat.le_of_add_left_le hfuel)
      exact (Session.work_of_step hstep).trans (ih (by omega))

-- Nothing is computed that was looked at before, and nothing twice.
theorem Ends.count_le (h : Ends stage turns scheduled result) (p : PortId) :
    scheduled.count (.compute p) ≤ if p ∈ stage.visited then 0 else 1 := by
  induction h with
  | done => exact Nat.zero_le _
  | failed => exact Nat.zero_le _
  | @turn visited looked task tasks rest scheduled session after turns result hstep _ ih =>
      obtain ⟨-, ⟨rfl, rfl⟩ | ⟨q, d, port, -, hnew, rfl, htasks⟩⟩ := Session.step_leads hstep
      · exact ih
      · have hlooks : ((session.graph.sources port.node port.index).map
            (Task.visit · d)).count (.compute p) = 0 := List.count_eq_zero.mpr (by simp)
        have hless : scheduled.count (.compute p) + [Task.compute q].count (.compute p) ≤
            if p ∈ visited then 0 else 1 := by
          change _ ≤ if p ∈ q :: visited then 0 else 1 at ih
          by_cases hpq : p = q
          · subst hpq
            rw [if_pos List.mem_cons_self] at ih
            rw [if_neg hnew, List.count_singleton_self]
            omega
          · have hother : [Task.compute q].count (.compute p) = 0 :=
              List.count_eq_zero.mpr (by simpa using hpq)
            rw [hother, Nat.add_zero]
            simpa only [List.mem_cons, hpq, false_or] using ih
        change _ ≤ if p ∈ visited then 0 else 1
        rcases htasks with rfl | rfl
        · exact Nat.le_trans (Nat.le_add_right _ _) hless
        · rw [List.count_append, List.count_append, hlooks]
          omega

end Stage

-- Whatever the graph is like, the work for a request comes to its end: no stage that it
-- could be in goes on for ever, and from the first look at any port it takes no more tasks
-- than the ports and all that they read, and comes to what the request is settled with. No
-- output is put up to be computed twice.
theorem Session.every_request_ends (session : Session) (target : PortId) :
    (WellFounded fun later stage => Stage.Turn stage later) ∧
    ∃ turns scheduled, (Stage.first session target).Ends turns scheduled (session.settle target) ∧
      turns ≤ workBound session.graph ∧ ∀ p, scheduled.count (.compute p) ≤ 1 := by
  obtain ⟨turns, scheduled, result, hends⟩ := (Stage.first session target).exists_ends
  have hturns : turns ≤ workBound session.graph := Stage.left_first session target ▸ hends.turns_le
  have hsettle : session.settle target = result := by
    have hwork := hends.work_eq hturns
    simp only [settle, Stage.first] at hwork ⊢
    rw [hwork]
    rcases result with ⟨_ | _, last⟩ <;> rfl
  refine ⟨Stage.turns_founded, turns, scheduled, hsettle ▸ hends, hturns, fun p => ?_⟩
  exact hends.count_le p

end Dataflow
