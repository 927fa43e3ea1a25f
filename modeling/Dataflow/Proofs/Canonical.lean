import Dataflow.Proofs.Calls
import Dataflow.Proofs.Catalogue
import Dataflow.Proofs.Evaluation.Canonical
import Dataflow.Proofs.Stocked

namespace Dataflow

namespace Catalogue

theorem canonical_of_get {inputs : EvalInputs} (hi : inputs.Canonical) {slot : Nat}
    {value : Ragged} (h : inputs.get slot = .ok value) : value.Canonical := by
  rw [EvalInputs.get] at h
  split at h
  · next first rest hall =>
    obtain rfl := Except.ok.inj h
    rw [EvalInputs.all] at hall
    cases hvalues : inputs.values[slot]? with
    | none =>
        rw [hvalues] at hall
        cases hall
    | some values =>
        rw [hvalues, Option.getD_some] at hall
        exact hi values (List.mem_of_getElem? hvalues) first (by rw [hall]; simp)
  · cases h

-- The built-in functions make canonical values of canonical ones.
theorem Computes.faithful {unit : EvalUnit} (h : Computes unit.run) : unit.Faithful := by
  intro inputs value hi hrun
  generalize unit.run = run at h hrun
  cases h with
  | relay => exact canonical_of_get hi hrun
  | rows slots hf =>
      obtain ⟨matched, hmatched, hrun⟩ := Graph.exists_of_bind_eq_ok hrun
      obtain ⟨results, -, hparts⟩ := Graph.exists_of_bind_eq_ok hrun
      exact Ragged.canonical_of_ofParts hparts
  | spread slots hf =>
      obtain ⟨matched, hmatched, hrun⟩ := Graph.exists_of_bind_eq_ok hrun
      obtain ⟨results, -, hexpand⟩ := Graph.exists_of_bind_eq_ok hrun
      exact Ragged.canonical_of_expand hexpand
  | groups hf =>
      obtain ⟨given, -, hrun⟩ := Graph.exists_of_bind_eq_ok hrun
      obtain ⟨results, -, hparts⟩ := Graph.exists_of_bind_eq_ok hrun
      exact Ragged.canonical_of_ofParts hparts

end Catalogue

-- The functions that the operation brings into a graph are faithful.
def Operation.Faithful : Operation → Prop
  | .addNode template _ | .addNodeIn template _ _ => ∀ unit ∈ template.units, unit.Faithful
  | _ => True

namespace Graph

variable {graph other : Graph}

-- The graphs that can come about while the functions of all nodes are faithful, those of
-- nodes that were removed since among them.
inductive Tended : Graph → Prop where
  | new (settings : Settings) : Tended (Graph.new settings)
  | restored {snapshot : Snapshot} {registry : Registry} {settings : Settings} {graph : Graph}
      (h : Graph.restore snapshot registry settings = .ok graph) (hf : graph.Faithful) :
      Tended graph
  | performed {graph : Graph} (operation : Operation) (h : Tended graph)
      (hf : (graph.perform operation).Faithful) : Tended (graph.perform operation)
  | answered {graph : Graph} (query : Query) (h : Tended graph) : Tended (graph.answer query)

theorem Tended.reachable (h : Tended graph) : Reachable graph := by
  induction h with
  | new settings => exact .new settings
  | restored h _ => exact .restored h
  | performed operation _ _ ih => exact ih.performed operation
  | answered query _ ih => exact ih.answered query

theorem Faithful.new (settings : Settings) : (Graph.new settings).Faithful := by
  intro n node hn
  cases hn

theorem Faithful.performed (hf : graph.Faithful) (h : Reachable graph) {operation : Operation}
    (ho : operation.Faithful) : (graph.perform operation).Faithful := by
  intro n node hn
  rcases @Reachable.part graph (fun _ => True) h operation fun _ _ _ _ => trivial with
    ⟨template, uuid, parent, hadd, heq⟩ | hpart
  · rw [heq] at hn
    rcases (node?_withNode_eq_some_iff ..).mp hn with ⟨-, rfl⟩ | hn
    · rcases hadd with rfl | ⟨container, rfl⟩ <;> exact ho
    · exact hf n node hn
  · obtain ⟨old, hold, -, -, hunits, -⟩ := hpart.node hn
    rw [hunits]
    exact hf n old hold

-- Graphs of built-in nodes are faithful.
theorem Stocked.faithful (h : Stocked graph) : graph.Faithful := by
  intro n node hn unit hu
  obtain ⟨tag, given, template, hcreate, hmade⟩ := h.catalogued hn
  exact (Registry.computes_of_create hcreate (hmade.units ▸ hu)).faithful

-- It is enough that no operation brings another function.
theorem Tended.run (h : Tended graph) (hf : graph.Faithful) {operations : List Operation}
    (ho : ∀ operation ∈ operations, operation.Faithful) :
    Tended (graph.run operations) ∧ (graph.run operations).Faithful := by
  induction operations generalizing graph with
  | nil => exact ⟨h, hf⟩
  | cons operation rest ih =>
      have hnext := hf.performed h.reachable (ho operation (by simp))
      exact ih (h.performed operation hnext) hnext fun other hm => ho other (by simp [hm])

section Evaluation

theorem CachesCanonical.new (settings : Settings) : (Graph.new settings).CachesCanonical := by
  intro n o slot v h
  cases h

theorem CachesCanonical.edits (hc : graph.CachesCanonical) (h : Edits graph other) :
    other.CachesCanonical := by
  induction h with
  | refl => exact hc
  | tail _ hedit ih => exact ih.retained hedit.retains

theorem CachesCanonical.answered (hc : graph.CachesCanonical) (hf : graph.Faithful)
    (query : Query) : (graph.answer query).CachesCanonical ∧ (graph.answer query).Faithful := by
  have hstep := fun (session : Session) visited task
    (h : session.graph.CachesCanonical ∧ session.graph.Faithful) => h.1.step h.2 visited task
  cases query with
  | evaluatePort port =>
      exact Session.evaluatePort_preserves
        (P := fun session => session.graph.CachesCanonical ∧ session.graph.Faithful) hstep port
        ⟨hc, hf⟩
  | inputData input =>
      exact Session.inputData_preserves
        (P := fun session => session.graph.CachesCanonical ∧ session.graph.Faithful) hstep input
        ⟨hc, hf⟩

theorem CachesCanonical.performed (hc : graph.CachesCanonical) (hf : graph.Faithful)
    (h : Reachable graph) (operation : Operation) : (graph.perform operation).CachesCanonical := by
  rcases perform_cases h.healthy.wired operation with heq | hedit | ⟨node, output, rfl⟩
  · rw [heq]
    exact hc
  · exact hc.retained hedit.retains
  · refine (@Session.evaluate_preserves
      (fun session => session.graph.CachesCanonical ∧ session.graph.Faithful) ?_ node output
      (.start graph) ⟨hc, hf⟩).1
    exact fun session visited task h => h.1.step h.2 visited task

theorem Tended.caches (h : Tended graph) : graph.CachesCanonical ∧ graph.Faithful := by
  induction h with
  | new settings => exact ⟨.new settings, .new settings⟩
  | restored h hf => exact ⟨(CachesCanonical.new _).edits (edits_of_restore h), hf⟩
  | performed operation h hf ih => exact ⟨ih.1.performed ih.2 h.reachable operation, hf⟩
  | answered query _ ih => exact ih.1.answered ih.2 query

-- In no state of a request is anything up to date that is not canonical.
theorem canonicalAt_of_working {start : Session} {targets : List PortId} {now : Progress}
    (hv : CanonicalAt start.graph.kept) (hf : start.graph.Faithful)
    (h : Working start targets now) :
    CanonicalAt now.session.graph.kept ∧ now.session.graph.Faithful := by
  induction h with
  | begin => exact ⟨hv, hf⟩
  | request _ ih => exact ih
  | @task _ _ visited _ task _ _ _ _ _ hstep ih =>
      have hnext := ih.1.step ih.2 visited task
      rw [hstep] at hnext
      exact hnext

end Evaluation

-- All values that are made are canonical, and what is done to the nesting of a canonical
-- value keeps its row and the order of its leaves. So while functions make canonical values
-- of canonical ones, nothing else is kept as up to date or handed to a function; and if that
-- was so all along, nothing else is kept at all.
theorem values_stay_canonical :
    ((∀ value, (Ragged.scalar value).Canonical) ∧
      (∀ values, (Ragged.ofList values).Canonical) ∧
      Ragged.empty.Canonical ∧
      (∀ nested, (Ragged.ofNested nested).Canonical) ∧
      (∀ flat shape value, Ragged.ofParts flat shape = .ok value → value.Canonical) ∧
      ∀ shape groups value, Ragged.expand shape groups = .ok value → value.Canonical) ∧
    (∀ value : Ragged, value.Canonical →
      (value.flatten.Canonical ∧ value.Renested value.flatten) ∧
      (value.simplify.Canonical ∧ value.Renested value.simplify) ∧
      (value.graft.Canonical ∧ value.Renested value.graft) ∧
      ∀ flags : Flags, (flags.apply value).Canonical ∧ value.Renested (flags.apply value)) ∧
    (∀ operands broadcast, (∀ operand ∈ operands, operand.Canonical) →
      Broadcast.ofOperands operands = .ok broadcast →
      (∀ f, (∃ e, broadcast.eachRow f = .error e ∧ broadcast.map f = .error e) ∨
        ∃ value, broadcast.map f = .ok value ∧ value.Canonical) ∧
      ∀ f, (∃ e, broadcast.eachRow f = .error e ∧ broadcast.expand f = .error e) ∨
        ∃ value, broadcast.expand f = .ok value ∧ value.Canonical) ∧
    (∀ session : Session, Reachable session.graph → session.graph.Faithful →
      (∀ n o slot value, session.graph.ownSlot? n o = some slot → slot.state = .fresh →
        slot.cache = some value → value.Canonical) ∧
      ∀ targets now, Working session targets now → ∀ n unit inputs,
        now.session.graph.gather n unit = .ok inputs → inputs.Canonical) ∧
    ∀ graph, Tended graph → ∀ n o slot value, graph.ownSlot? n o = some slot →
      slot.cache = some value → value.Canonical := by
  refine ⟨⟨Ragged.canonical_scalar, Ragged.canonical_ofList, Ragged.canonical_empty,
    Ragged.canonical_ofNested, fun _ _ _ => Ragged.canonical_of_ofParts,
    fun _ _ _ => Ragged.canonical_of_expand⟩, ?_, ?_, ?_, ?_⟩
  · intro value hc
    have hboth : ∀ {other : Ragged}, value.Renested other →
        other.Canonical ∧ value.Renested other := fun h => ⟨hc.renested h, h⟩
    exact ⟨hboth value.renested_flatten, hboth value.renested_simplify, hboth value.renested_graft,
      fun flags => hboth (value.renested_apply flags)⟩
  · intro operands broadcast hc h
    exact ⟨Broadcast.map_canonical hc h, Broadcast.expand_canonical hc h⟩
  · intro session hreach hf
    have hv := hreach.healthy.sound.canonical hf
    refine ⟨fun n o slot value hslot hstate hcache =>
      hv n o value (kept_of_fresh hslot hstate hcache), ?_⟩
    intro targets now hworking n unit inputs hgather
    exact canonical_of_gather (canonicalAt_of_working hv hf hworking).1 hgather
  · intro graph h
    exact h.caches.1

-- Two nodes that hand on what they are given, evaluated with a value, and then given another:
-- what is kept is out of date.
theorem relays_keep_canonical :
    let graph := (Graph.new .standard).run
      (relaying ++ [.setProperty ⟨1⟩ "in" (.list [.leaf (.int 7), .list []]), .evaluate ⟨2⟩ 0,
        .setProperty ⟨1⟩ "in" (.leaf (.int 8))])
    ∃ slot value, graph.ownSlot? ⟨2⟩ 0 = some slot ∧ slot.state = .invalid ∧
      slot.cache = some value ∧ value.shape = .list [.leaf 0, .list []] ∧ value.Canonical := by
  intro graph
  have hrelay : ∀ unit ∈ Template.relay.units, unit.Faithful := by
    intro unit hu
    obtain rfl := List.mem_singleton.mp hu
    exact Catalogue.Computes.relay.faithful
  have htended : Tended graph := by
    refine ((Tended.new .standard).run (.new .standard) fun operation hm => ?_).1
    simp only [relaying, List.cons_append, List.nil_append, List.mem_cons, List.not_mem_nil,
      or_false] at hm
    rcases hm with rfl | rfl | rfl | rfl | rfl | rfl
    · exact hrelay
    · exact hrelay
    all_goals exact trivial
  obtain ⟨slot, value, hslot, hstate, hcache, hshape⟩ : ∃ slot value,
      graph.ownSlot? ⟨2⟩ 0 = some slot ∧ slot.state = .invalid ∧ slot.cache = some value ∧
      value.shape = .list [.leaf 0, .list []] := ⟨_, _, rfl, rfl, rfl, rfl⟩
  exact ⟨slot, value, hslot, hstate, hcache, hshape,
    values_stay_canonical.2.2.2.2 graph htended ⟨2⟩ 0 slot value hslot hcache⟩

end Graph

end Dataflow
