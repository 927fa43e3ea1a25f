import Dataflow.Proofs.Evaluation.Rested

namespace Dataflow

namespace Graph

-- What the output behind a port reads.
def reads (graph : Graph) (p : PortId) : List PortId :=
  match graph.locate p with
  | .ok (n, o) => graph.sources n o
  | .error _ => []

-- The outputs that a request comes to over exactly so many reads.
def reached (graph : Graph) (goal : PortId) : Nat → List PortId
  | 0 => [goal]
  | d + 1 => (graph.reached goal d).flatMap graph.reads

-- Something computes the output behind a port.
def Computed (graph : Graph) (p : PortId) : Prop :=
  ∃ n o unit, graph.locate p = .ok (n, o) ∧ graph.unit? n o = some unit

-- An output that a request comes to both at the limit on its reach and before.
def Torn (graph : Graph) (goal p : PortId) : Prop :=
  graph.Computed p ∧ p ∈ graph.reached goal graph.settings.maxEvalDepth ∧
    ∃ d < graph.settings.maxEvalDepth, p ∈ graph.reached goal d

-- An output that a request gives up because it is too far off. The same failure may come
-- from the function of an output, which does not count.
def CutOff (graph : Graph) (node : NodeId) (output : Nat) (n : NodeId) (o : Nat) : Prop :=
  ⟨n, o, .error (.depthExceeded graph.settings.maxEvalDepth)⟩ ∈
      (Session.start graph).outcomes node output ∧
    (n, o) ∉ ((Session.start graph).evaluate node output).2.ran

variable {graph : Graph} {goal p s : PortId} {n : NodeId} {o : Nat}

theorem reads_eq (hl : graph.locate p = .ok (n, o)) : graph.reads p = graph.sources n o := by
  simp only [reads, hl]

theorem reached_succ {d : Nat} (hp : p ∈ graph.reached goal d) (hs : s ∈ graph.reads p) :
    s ∈ graph.reached goal (d + 1) :=
  List.mem_flatMap.mpr ⟨p, hp, hs⟩

-- Only what is computed reads anything.
theorem computed_of_reads (hs : s ∈ graph.reads p) : graph.Computed p := by
  simp only [reads] at hs
  split at hs
  · next n o hl =>
    cases hu : graph.unit? n o with
    | none => simp [sources, hu] at hs
    | some unit => exact ⟨n, o, unit, hl, hu⟩
  · cases hs

section Failures

-- A failure to read names what could not be read, never the limit on the reach of a request.
variable {e : EvalError}

theorem chainFrom_error {stop : Port → Bool} (h : graph.chainFrom stop p = .error e) :
    ∃ fault, e = .invalidPortAlias p fault := by
  simp only [chainFrom] at h
  split at h
  · cases h
  · next fault _ => exact ⟨fault, (Except.error.inj h).symm⟩

theorem readSource_ne_depthExceeded (limit : Nat) :
    graph.readSource s ≠ .error (.depthExceeded limit) := by
  intro h
  simp only [readSource] at h
  split at h
  · next hc =>
    obtain ⟨fault, rfl⟩ := chainFrom_error hc
    cases h
  · split at h <;> cases h

theorem readInput_ne_depthExceeded (limit : Nat) :
    graph.readInput p ≠ .error (.depthExceeded limit) := by
  intro h
  simp only [readInput, readPort] at h
  split at h
  · next hc =>
    obtain ⟨fault, rfl⟩ := chainFrom_error hc
    cases h
  · split at h
    · cases h
    · next port _ =>
      split at h
      · cases h
      · cases hvalues : (port.edges.filterMap graph.edge?).mapM
            fun edge => graph.readSource edge.source with
        | ok values =>
            rw [hvalues] at h
            cases h
        | error e =>
            rw [hvalues] at h
            obtain rfl := Except.error.inj h
            obtain ⟨edge, -, hedge⟩ := exists_of_mapM_error hvalues
            exact readSource_ne_depthExceeded limit hedge

theorem gather_ne_depthExceeded (unit : EvalUnit) (limit : Nat) :
    graph.gather n unit ≠ .error (.depthExceeded limit) := by
  intro h
  simp only [gather, bind, Except.bind] at h
  split at h
  · next hvalues =>
    obtain rfl := Except.error.inj h
    obtain ⟨i, -, hi⟩ := exists_of_mapM_error hvalues
    simp only [readAt] at hi
    split at hi
    · exact readInput_ne_depthExceeded limit hi
    · cases hi
  · split at h <;> cases h

end Failures

end Graph

namespace Session

variable {session : Session} {visited : List PortId} {p : PortId} {n : NodeId} {o : Nat}
  {slot : Slot}

-- An output that fails at the limit when it is computed had its function called.
theorem mem_ran_compute {limit : Nat}
    (hr : session.graph.denote session.graph.kept n o = .error (.depthExceeded limit)) :
    (n, o) ∈ (session.compute n o).ran := by
  rcases session.compute_cases n o with hran | ⟨-, hnone | ⟨unit, e, hg, he⟩⟩
  · rw [hran]
    exact List.mem_append_right _ (List.mem_singleton_self _)
  · cases hnone.symm.trans hr
  · obtain rfl := Except.error.inj (he.symm.trans hr)
    exact absurd hg (Graph.gather_ne_depthExceeded unit limit)

end Session

end Dataflow
