import Dataflow.Proofs.Evaluation.Kept
import Dataflow.Proofs.Evaluation.Near
import Dataflow.Proofs.Evaluation.Sources

namespace Dataflow.Graph

variable {graph : Graph} {value : NodeId → Nat → Except EvalError Ragged} {n m : NodeId}
  {o k : Nat} {input s : PortId} {sources first rest : List PortId} {e : EvalError}

-- The aliases of an input cannot be followed, or those of an output that it is joined to.
inductive Astray (graph : Graph) (input : PortId) : EvalError → Prop where
  | input {e : EvalError} (h : graph.inputChain input = .error e) : Astray graph input e
  | source {chain : Chain} {port : Port} {id : EdgeId} {edge : Edge} {e : EvalError}
      (hc : graph.inputChain input = .ok chain) (hp : graph.port? chain.last = some port)
      (hid : id ∈ port.edges) (hedge : graph.edge? id = some edge)
      (h : graph.aliasChain edge.source = .error e) : Astray graph input e

section Passed

variable (graph value)

-- That all of some outputs have a value.
def Answered (sources : List PortId) : Prop :=
  ∀ s ∈ sources, ∀ m k, graph.locate s = .ok (m, k) → ∃ w, value m k = .ok w

-- The failure of the first of some outputs that has no value, as a reader of these reports it.
inductive Passed (sources : List PortId) : EvalError → Prop where
  | intro {before after : List PortId} {s : PortId} {m : NodeId} {k : Nat} {cause : EvalError}
      (hsources : sources = before ++ s :: after) (hbefore : graph.Answered value before)
      (hl : graph.locate s = .ok (m, k)) (hfails : value m k = .error cause) :
      Passed sources (.sourceFailed (graph.ownerUuid s) cause)

variable {graph value}

theorem Answered.append (hfirst : graph.Answered value first)
    (hrest : graph.Answered value rest) : graph.Answered value (first ++ rest) :=
  fun s hs => (List.mem_append.mp hs).elim (hfirst s) (hrest s)

theorem Passed.append_right (h : graph.Passed value first e) (rest : List PortId) :
    graph.Passed value (first ++ rest) e := by
  obtain ⟨rfl, hbefore, hl, hfails⟩ := h
  exact .intro (List.append_assoc _ _ _) hbefore hl hfails

theorem Passed.append_left (hfirst : graph.Answered value first)
    (h : graph.Passed value rest e) : graph.Passed value (first ++ rest) e := by
  obtain ⟨rfl, hbefore, hl, hfails⟩ := h
  exact .intro (List.append_assoc _ _ _).symm (hfirst.append hbefore) hl hfails

end Passed

-- The far end of an edge is an output with a place.
theorem Wired.locate_far (hw : graph.Wired) {id : EdgeId} {edge : Edge} {far : Chain}
    (hedge : graph.edge? id = some edge) (hfar : graph.aliasChain edge.source = .ok far) :
    ∃ m k, graph.locate far.last = .ok (m, k) := by
  obtain ⟨start, hstart, -, -⟩ := hw.source hedge
  obtain ⟨last, hlast, -⟩ := hw.walk_end hstart (chainFrom_eq_ok_iff.mp hfar).1
  exact ⟨_, _, (locate_eq_ok_iff _ _ _).mpr ⟨last, hlast, rfl, rfl⟩⟩

theorem Wired.passed_of_brought (hw : graph.Wired) {id : EdgeId} {edge : Edge}
    (hedge : graph.edge? id = some edge) (h : graph.brought value edge.source = .error e) :
    graph.aliasChain edge.source = .error e ∨
      ∃ s, (graph.aliasEnd edge.source).toOption = some s ∧ graph.Passed value [s] e := by
  cases hfar : graph.aliasChain edge.source with
  | error fault =>
      obtain rfl : fault = e := by simpa only [brought, hfar, Except.error.injEq] using h
      exact .inl rfl
  | ok far =>
      right
      obtain ⟨m, k, hl⟩ := hw.locate_far hedge hfar
      refine ⟨far.last, by rw [aliasEnd, hfar]; rfl, ?_⟩
      cases hv : value m k with
      | ok w => simp [brought, hfar, along, hl, hv, Except.map] at h
      | error cause =>
          obtain rfl : .sourceFailed (graph.ownerUuid far.last) cause = e := by
            simpa [brought, hfar, along, hl, hv, Except.map] using h
          have hnone : graph.Answered value [] := fun q hq => absurd hq List.not_mem_nil
          exact .intro (List.nil_append _).symm hnone hl hv

-- An input that receives nothing has gone astray, or passes on the first failure among its
-- producers.
theorem Wired.passed_of_received (hw : graph.Wired) {port : Port}
    (hinput : graph.port? input = some port) (h : graph.received value input = .error e) :
    graph.Astray input e ∨ graph.Passed value (graph.producers input) e := by
  cases hc : graph.inputChain input with
  | error fault =>
      obtain rfl : fault = e := by simpa only [received, hc, Except.error.injEq] using h
      exact .inl (.input hc)
  | ok chain =>
      obtain ⟨last, hlast, -⟩ := hw.walk_end hinput (chainFrom_eq_ok_iff.mp hc).1
      simp only [received, hc, hlast] at h
      have hvalues : (last.edges.filterMap graph.edge?).mapM
          (fun edge => graph.brought value edge.source) = .error e := by
        split at h
        · cases h
        · cases hvalues : (last.edges.filterMap graph.edge?).mapM
              fun edge => graph.brought value edge.source with
          | ok values => simp [hvalues, Except.map] at h
          | error cause => simpa [hvalues, Except.map] using h
      obtain ⟨before, edge, after, hedges, hbefore, hbrought⟩ := split_of_mapM_error hvalues
      obtain ⟨id, hid, hedge⟩ : ∃ id ∈ last.edges, graph.edge? id = some edge :=
        List.mem_filterMap.mp (hedges ▸ List.mem_append_right _ List.mem_cons_self)
      rcases hw.passed_of_brought hedge hbrought with hastray | ⟨s, hs, hpassed⟩
      · exact .inl (.source hc hlast hid hedge hastray)
      · right
        have hanswered : graph.Answered value
            (before.filterMap fun edge => (graph.aliasEnd edge.source).toOption) := by
          intro q hq m k hl
          obtain ⟨earlier, hearlier, hend⟩ := List.mem_filterMap.mp hq
          obtain ⟨w, hw⟩ := hbefore earlier hearlier
          exact ok_of_brought hw hend hl
        simp only [producers, hc, hlast, hedges, List.filterMap_append, List.filterMap_cons, hs]
        exact .append_left hanswered (hpassed.append_right _)

-- An output that comes to a failure has nothing to compute it, or an input of it has gone
-- astray, or it passes on the first failure among those that it reads, or its function failed.
theorem Wired.cause_of_denote (hw : graph.Wired) (h : graph.denote value n o = .error e) :
    (graph.unit? n o = none ∧ e = .noEvaluator o) ∨
    ∃ node unit, graph.node? n = some node ∧ graph.unit? n o = some unit ∧ unit ∈ node.units ∧
      ((∃ i ∈ unit.inputs, ∃ input, graph.inputPort? n i = some input ∧ graph.Astray input e) ∨
        graph.Passed value (graph.sources n o) e ∨
        ∃ values, unit.inputs.mapM (graph.receivedAt value n) = .ok values ∧
          unit.run ⟨values, node.properties⟩ = .error e) := by
  cases hu : graph.unit? n o with
  | none => exact .inl ⟨rfl, Except.error.inj (h.symm.trans (graph.denote_of_no_unit hu))⟩
  | some unit =>
      right
      obtain ⟨node, hn, hfind⟩ := Option.bind_eq_some_iff.mp hu
      have hmem : unit ∈ node.units := List.mem_of_find?_eq_some hfind
      refine ⟨node, unit, hn, rfl, hmem, ?_⟩
      simp only [denote, hn, hfind] at h
      cases hvalues : unit.inputs.mapM (graph.receivedAt value n) with
      | ok values =>
          rw [hvalues] at h
          refine .inr (.inr ⟨values, rfl, ?_⟩)
          cases hrun : unit.run ⟨values, node.properties⟩ with
          | ok result => simp [hrun, Except.map] at h
          | error cause => simpa [hrun, Except.map] using h
      | error cause =>
          obtain rfl : cause = e := by simpa [hvalues] using h
          obtain ⟨before, i, after, hinputs, hbefore, hi⟩ := split_of_mapM_error hvalues
          have himem : i ∈ unit.inputs := hinputs ▸ List.mem_append_right _ List.mem_cons_self
          have hlt := (hw.units hn hmem).2 i himem
          have hinput : graph.inputPort? n i = some node.inputs[i] := by
            simp [inputPort?, hn, hlt]
          obtain ⟨port, hport, -⟩ := hw.input_placed hinput
          simp only [receivedAt, hinput] at hi
          rcases hw.passed_of_received hport hi with hastray | hpassed
          · exact .inl ⟨i, himem, _, hinput, hastray⟩
          · right; left
            have hanswered : graph.Answered value
                ((before.filterMap fun i => graph.inputPort? n i).flatMap graph.producers) := by
              intro q hq m k hl
              obtain ⟨input, hmem, hq⟩ := List.mem_flatMap.mp hq
              obtain ⟨j, hj, hport⟩ := List.mem_filterMap.mp hmem
              obtain ⟨received, hreceived⟩ := hbefore j hj
              simp only [receivedAt, hport] at hreceived
              exact ok_of_received hreceived hq hl
            simp only [sources, hu, sourcesOf, hinputs, List.filterMap_append,
              List.filterMap_cons, hinput, List.flatMap_append, List.flatMap_cons]
            exact .append_left hanswered (hpassed.append_right _)

end Dataflow.Graph
