import Dataflow.Proofs.Evaluation.Bare
import Dataflow.Proofs.Evaluation.Sound
import Dataflow.Proofs.Results

namespace Dataflow

namespace Graph

-- What is kept of an output: its value while that is fresh, and otherwise its failure.
def kept (graph : Graph) (n : NodeId) (o : Nat) : Except EvalError Ragged :=
  match graph.ownSlot? n o with
  | none => .error (.outputOutOfRange n o)
  | some slot =>
      match slot.state, slot.cache with
      | .fresh, some value => .ok value
      | _, _ => .error (slot.error.getD (.notEvaluated o))

variable (graph : Graph)

-- Reading is to look up what is kept.
theorem readOutput_eq (chain : Chain) : graph.readOutput chain = graph.along graph.kept chain := by
  simp only [readOutput, along, kept]
  cases graph.locate chain.last with
  | error e => rfl
  | ok place =>
      obtain ⟨n, o⟩ := place
      simp only
      cases graph.ownSlot? n o with
      | none => rfl
      | some slot =>
          simp only
          cases slot.state <;> cases slot.cache <;> rfl

theorem readSource_eq (source : PortId) :
    graph.readSource source = graph.brought graph.kept source := by
  cases hc : graph.aliasChain source with
  | error e => simp only [readSource, brought, hc]
  | ok chain =>
      cases h : graph.along graph.kept chain <;>
        simp only [readSource, brought, hc, readOutput_eq, h]

theorem readInput_eq (input : PortId) :
    graph.readInput input = graph.received graph.kept input := by
  cases hc : graph.inputChain input with
  | error e => simp only [readInput, received, hc]
  | ok chain =>
      cases hp : graph.port? chain.last with
      | none => simp only [readInput, received, hc, hp]
      | some port => simp only [readInput, received, hc, hp, readPort, readSource_eq]

theorem readAt_eq (n : NodeId) : graph.readAt n = graph.receivedAt graph.kept n := by
  funext i
  cases hp : graph.inputPort? n i <;> simp only [readAt, receivedAt, hp, readInput_eq]

-- What a session computes next is what follows from what is kept.
theorem runUnit_fst_eq (session : Session) {n : NodeId} {o : Nat} {node : Node} {unit : EvalUnit}
    (hn : session.graph.node? n = some node) (hu : node.unit? o = some unit) :
    (session.runUnit n unit).1 = session.graph.denote session.graph.kept n o := by
  simp only [Session.runUnit, gather, readAt_eq, denote, hn, hu]
  cases unit.inputs.mapM (session.graph.receivedAt session.graph.kept n) with
  | error e => rfl
  | ok values => rfl

section Values

variable {graph} {value : NodeId → Nat → Except EvalError Ragged} {s : PortId} {m : NodeId}
  {k : Nat}

-- What comes along an edge is a value only if the output at its far end has one.
theorem ok_of_brought {source : PortId} {w : Ragged} (h : graph.brought value source = .ok w)
    (hs : (graph.aliasEnd source).toOption = some s) (hl : graph.locate s = .ok (m, k)) :
    ∃ w, value m k = .ok w := by
  cases hfar : graph.aliasChain source with
  | error e => simp [brought, hfar] at h
  | ok far =>
      obtain rfl : far.last = s := by
        simpa [aliasEnd, hfar, Except.map, Except.toOption] using hs
      cases hv : value m k with
      | error e => simp [brought, hfar, along, hl, hv, Except.map] at h
      | ok w => exact ⟨w, rfl⟩

-- An input receives values only if all its producers have one.
theorem ok_of_received {input : PortId} {values : List Ragged}
    (h : graph.received value input = .ok values) (hs : s ∈ graph.producers input)
    (hl : graph.locate s = .ok (m, k)) : ∃ w, value m k = .ok w := by
  simp only [producers] at hs
  split at hs
  · simp at hs
  next chain hc =>
  split at hs
  · simp at hs
  next port hp =>
  obtain ⟨edge, hedge, hend⟩ := List.mem_filterMap.mp hs
  simp only [received, hc, hp] at h
  obtain ⟨brought, hbrought, -⟩ := exists_of_map h
  have hne : port.edges.isEmpty = false := by
    cases hports : port.edges with
    | nil => simp [hports] at hedge
    | cons _ _ => rfl
  simp only [hne, Bool.false_eq_true, if_false] at hbrought
  obtain ⟨w, hw⟩ := ok_of_mapM hbrought hedge
  exact ok_of_brought hw hend hl

-- An output has a value only if all that it reads has one.
theorem ok_of_denote {n : NodeId} {o : Nat} {v : Ragged} (h : graph.denote value n o = .ok v)
    (hs : s ∈ graph.sources n o) (hl : graph.locate s = .ok (m, k)) : ∃ w, value m k = .ok w := by
  simp only [denote] at h
  split at h
  · cases h
  next node hn =>
  split at h
  · cases h
  next unit hu =>
  split at h
  · cases h
  next values hvalues =>
  simp only [sources, unit?, hn, Option.bind_some, hu] at hs
  obtain ⟨input, hinput, hs⟩ := List.mem_flatMap.mp hs
  obtain ⟨i, hi, hport⟩ := List.mem_filterMap.mp hinput
  obtain ⟨received, hreceived⟩ := ok_of_mapM hvalues hi
  simp only [receivedAt, hport] at hreceived
  exact ok_of_received hreceived hs hl

end Values

section Slot

variable {graph} {n : NodeId} {o : Nat} {slot : Slot}

theorem ownSlot?_withSlot (h : graph.ownSlot? n o = some slot) (new : Slot) (m : NodeId)
    (k : Nat) : (graph.withSlot n o new).ownSlot? m k =
      if m = n ∧ k = o then some new else graph.ownSlot? m k := by
  have hnode : (graph.withSlot n o new).node? m = (graph.node? m).map fun found =>
      if m = n then { found with slots := found.slots.set o new } else found :=
    graph.nodes.find?_modify _ _ m
  simp only [ownSlot?, hnode]
  cases hm : graph.node? m with
  | none =>
      have hne : m ≠ n := by
        rintro rfl
        simp [ownSlot?, hm] at h
      simp [hne]
  | some node =>
      simp only [Option.map_some, Option.bind_some]
      by_cases hmn : m = n
      · subst hmn
        simp only [if_true, true_and]
        obtain ⟨hlt, -⟩ : ∃ hlt : o < node.slots.length, node.slots[o] = slot := by
          simpa [ownSlot?, hm, List.getElem?_eq_some_iff] using h
        by_cases hko : k = o
        · simp [hko, hlt]
        · simp [hko, List.getElem?_set_ne (Ne.symm hko)]
      · simp [hmn]

theorem kept_congr {other : Graph} (h : other.ownSlot? n o = graph.ownSlot? n o) :
    other.kept n o = graph.kept n o := by
  rw [kept, kept, h]

theorem kept_of_fresh (h : graph.ownSlot? n o = some slot) {v : Ragged}
    (hs : slot.state = .fresh) (hv : slot.cache = some v) : graph.kept n o = .ok v := by
  simp [kept, h, hs, hv]

theorem exists_slot_of_kept {v : Ragged} (h : graph.kept n o = .ok v) :
    ∃ slot, graph.ownSlot? n o = some slot ∧ slot.state = .fresh ∧ slot.cache = some v := by
  simp only [kept] at h
  split at h
  · cases h
  · next slot hslot =>
    split at h
    · next hs hcache => exact ⟨slot, hslot, hs, Except.ok.inj h ▸ hcache⟩
    · cases h

theorem freshAt_of_kept {v : Ragged} (h : graph.kept n o = .ok v) : graph.FreshAt n o := by
  obtain ⟨slot, hslot, hs, -⟩ := exists_slot_of_kept h
  exact ⟨slot, hslot, hs⟩

theorem freshAt_iff_state (h : graph.ownSlot? n o = some slot) :
    graph.FreshAt n o ↔ slot.state = .fresh :=
  ⟨fun ⟨_, hfound, hs⟩ => Option.some.inj (hfound.symm.trans h) ▸ hs, fun hs => ⟨slot, h, hs⟩⟩

-- What is fresh has a value.
theorem freshAt_iff_kept : graph.FreshAt n o ↔ ∃ v, graph.kept n o = .ok v := by
  refine ⟨fun ⟨slot, hslot, hs⟩ => ?_, fun ⟨_, hv⟩ => freshAt_of_kept hv⟩
  cases hcache : slot.cache with
  | some v => exact ⟨v, kept_of_fresh hslot hs hcache⟩
  | none =>
      simp only [Slot.state, hcache, Option.isNone_none, if_true] at hs
      split_ifs at hs

theorem state_settle_eq_fresh_iff (r : Except EvalError Ragged) :
    (slot.settle r).state = .fresh ↔ ∃ v, r = .ok v := by
  cases r with
  | ok v => simp [Slot.settle, Slot.state]
  | error e => simp [Slot.settle, Slot.state]

theorem kept_withSlot (h : graph.ownSlot? n o = some slot) (r : Except EvalError Ragged)
    (m : NodeId) (k : Nat) : (graph.withSlot n o (slot.settle r)).kept m k =
      if m = n ∧ k = o then r else graph.kept m k := by
  simp only [kept, ownSlot?_withSlot h]
  by_cases hmk : m = n ∧ k = o
  · simp only [hmk, and_self, if_true]
    cases r with
    | ok v => simp [Slot.settle, Slot.state]
    | error e => simp [Slot.settle, Slot.state]
  · simp [hmk]

theorem freshAt_withSlot_iff (h : graph.ownSlot? n o = some slot) (r : Except EvalError Ragged)
    (m : NodeId) (k : Nat) : (graph.withSlot n o (slot.settle r)).FreshAt m k ↔
      if m = n ∧ k = o then ∃ v, r = .ok v else graph.FreshAt m k := by
  simp only [FreshAt, ownSlot?_withSlot h]
  by_cases hmk : m = n ∧ k = o
  · simp [hmk, state_settle_eq_fresh_iff]
  · simp [hmk]

-- A result that is right may be kept where nothing fresh was: no other fresh result rests
-- on that output.
theorem Sound.withSlot (hs : graph.Sound) (hw : graph.Wired)
    (h : graph.ownSlot? n o = some slot) (hstale : ¬ graph.FreshAt n o)
    (r : Except EvalError Ragged)
    (hr : ∀ v, r = .ok v → graph.Means n o (.ok v) ∧
      ∀ s ∈ graph.sources n o, ∀ m k, graph.locate s = .ok (m, k) → graph.FreshAt m k) :
    (graph.withSlot n o (slot.settle r)).Sound := by
  have hbare := graph.bare_withSlot n o (slot.settle r)
  have hfresh : ∀ {m k}, graph.FreshAt m k →
      (graph.withSlot n o (slot.settle r)).FreshAt m k := by
    intro m k hf
    rw [freshAt_withSlot_iff h, if_neg]
    · exact hf
    · rintro ⟨rfl, rfl⟩
      exact hstale hf
  intro m k found hfound hstate
  rw [sources_of_bare hbare]
  simp only [locate_of_bare hbare]
  rw [ownSlot?_withSlot h] at hfound
  split at hfound
  · next heq =>
    obtain ⟨rfl, rfl⟩ := heq
    obtain rfl := Option.some.inj hfound
    obtain ⟨v, rfl⟩ := (state_settle_eq_fresh_iff r).mp hstate
    obtain ⟨hmeans, hsources⟩ := hr v rfl
    exact ⟨v, rfl, means_of_bare hbare hw hmeans,
      fun s hmem m' k' hl => hfresh (hsources s hmem m' k' hl)⟩
  · obtain ⟨v, hv, hmeans, hsources⟩ := hs m k found hfound hstate
    exact ⟨v, hv, means_of_bare hbare hw hmeans,
      fun s hmem m' k' hl => hfresh (hsources s hmem m' k' hl)⟩

end Slot

end Graph

end Dataflow
