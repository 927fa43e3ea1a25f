import Dataflow.Evaluation.Session

namespace Dataflow.Session

@[simp] theorem work_nil (fuel : Nat) (visited : List PortId) (session : Session) :
    work fuel visited [] session = (.ok [], session) := by
  cases fuel <;> rfl

section Done

variable {fuel : Nat} {visited looked : List PortId} {task : Task} {rest tasks more : List Task}
  {session next last : Session}

theorem work_of_step (hstep : session.step visited task = (.ok (looked, more), next)) :
    work (fuel + 1) visited (task :: rest) session = work fuel looked (more ++ rest) next := by
  simp only [work, hstep]

-- A run that is done has room for its first task, which goes wrong nowhere, and the rest of
-- the run is done too.
theorem step_of_work (hdone : work fuel visited (task :: rest) session = (.ok [], last)) :
    ∃ before looked more next, fuel = before + 1 ∧
      session.step visited task = (.ok (looked, more), next) ∧
      work before looked (more ++ rest) next = (.ok [], last) := by
  cases fuel with
  | zero => cases hdone
  | succ before =>
      cases hstep : session.step visited task with
      | mk result next =>
          cases result with
          | error e =>
              simp only [work, hstep] at hdone
              cases hdone
          | ok answer => exact ⟨before, _, _, next, rfl, rfl, work_of_step hstep ▸ hdone⟩

-- What holds where nothing is left to do, and of any run whose first task is followed by a
-- run that it holds of, holds of every run that is done.
@[elab_as_elim]
theorem work_induction
    {motive : ∀ fuel visited tasks session, work fuel visited tasks session = (.ok [], last) → Prop}
    (hdone : work fuel visited tasks session = (.ok [], last))
    (nil : ∀ fuel visited, motive fuel visited [] last (work_nil fuel visited last))
    (cons : ∀ {fuel visited looked task rest more session next}
      (hstep : session.step visited task = (.ok (looked, more), next))
      (hdone : work fuel looked (more ++ rest) next = (.ok [], last)),
      motive fuel looked (more ++ rest) next hdone →
        motive (fuel + 1) visited (task :: rest) session ((work_of_step hstep).trans hdone)) :
    motive fuel visited tasks session hdone := by
  induction fuel generalizing visited tasks session with
  | zero =>
      cases tasks with
      | nil =>
          obtain ⟨-, rfl⟩ := Prod.mk.inj hdone
          exact nil 0 visited
      | cons task rest => cases hdone
  | succ fuel ih =>
      cases tasks with
      | nil =>
          obtain ⟨-, rfl⟩ := Prod.mk.inj hdone
          exact nil (fuel + 1) visited
      | cons task rest =>
          obtain ⟨before, looked, more, next, hfuel, hstep, hrest⟩ := step_of_work hdone
          obtain rfl := Nat.succ.inj hfuel
          exact cons hstep hrest (ih hrest)

end Done

variable {P : Session → Prop}
  (hstep : ∀ session visited task, P session → P (session.step visited task).2)

include hstep

-- What every task preserves, a whole request preserves, whether it comes to its end or not.
theorem work_preserves (fuel : Nat) (visited : List PortId) (tasks : List Task)
    {session : Session} (h : P session) : P (work fuel visited tasks session).2 := by
  induction fuel generalizing visited tasks session with
  | zero => cases tasks <;> exact h
  | succ fuel ih =>
      cases tasks with
      | nil => exact h
      | cons task rest =>
          have hnext := hstep session visited task h
          simp only [work]
          split
          · next heq =>
            rw [heq] at hnext
            exact hnext
          · next heq =>
            rw [heq] at hnext
            exact ih _ _ hnext

theorem settle_preserves (target : PortId) {session : Session} (h : P session) :
    P (session.settle target).2 :=
  work_preserves hstep _ _ _ h

theorem settleAll_preserves (targets : List PortId) {session : Session} (h : P session) :
    P (settleAll targets session).2 := by
  induction targets generalizing session with
  | nil => exact h
  | cons target rest ih =>
      have hfirst := settle_preserves hstep target h
      simp only [settleAll]
      split
      · next heq =>
        rw [heq] at hfirst
        exact hfirst
      · next heq =>
        rw [heq] at hfirst
        exact ih hfirst

theorem evaluatePort_preserves (port : PortId) {session : Session} (h : P session) :
    P (session.evaluatePort port).2 := by
  simp only [evaluatePort]
  split
  · exact h
  · next chain _ =>
    have hsettled := settle_preserves hstep chain.last h
    split <;> next heq =>
      rw [heq] at hsettled
      exact hsettled

theorem evaluate_preserves (node : NodeId) (output : Nat) {session : Session} (h : P session) :
    P (session.evaluate node output).2 := by
  simp only [evaluate]
  split
  · exact h
  · exact evaluatePort_preserves hstep _ h

theorem inputData_preserves (input : PortId) {session : Session} (h : P session) :
    P (session.inputData input).2 := by
  have hsettled := settleAll_preserves hstep (session.graph.producers input) h
  simp only [inputData]
  split <;> next heq =>
    rw [heq] at hsettled
    exact hsettled

end Dataflow.Session
