import Dataflow.Proofs.Evaluation.Outcome
import Dataflow.Proofs.Evaluation.Run
import Dataflow.Proofs.Ragged.Canonical
import Dataflow.Proofs.Graph.Edits

namespace Dataflow

def EvalInputs.Canonical (inputs : EvalInputs) : Prop :=
  ∀ values ∈ inputs.values, ∀ value ∈ values, value.Canonical

-- A function that makes canonical values of canonical ones.
def EvalUnit.Faithful (unit : EvalUnit) : Prop :=
  ∀ inputs value, inputs.Canonical → unit.run inputs = .ok value → value.Canonical

namespace Graph

-- All functions of the nodes that are there are of that sort.
def Faithful (graph : Graph) : Prop :=
  ∀ n node, graph.node? n = some node → ∀ unit ∈ node.units, unit.Faithful

variable {graph other : Graph}

theorem Faithful.of_bare (hf : graph.Faithful) (h : other.bare = graph.bare) :
    other.Faithful := by
  intro n node hn unit hu
  have hunits := map_node?_of_bare h Node.units (fun _ => rfl) n
  rw [hn, Option.map_some] at hunits
  obtain ⟨node', hn', heq⟩ := Option.map_eq_some_iff.mp hunits.symm
  exact hf n node' hn' unit (heq ▸ hu)

section Values

-- Results of which every value is canonical.
def CanonicalAt (value : NodeId → Nat → Except EvalError Ragged) : Prop :=
  ∀ m k v, value m k = .ok v → v.Canonical

theorem canonical_applyFlags (graph : Graph) (ports : List PortId) {value : Ragged}
    (h : value.Canonical) : (graph.applyFlags ports value).Canonical := by
  induction ports with
  | nil => exact h
  | cons p rest ih =>
      simp only [applyFlags, List.foldr_cons] at ih ⊢
      split
      · exact ih.renested (Ragged.renested_apply _ _)
      · exact ih

theorem canonical_literal (graph : Graph) (port : Port) : (graph.literal port).Canonical := by
  rw [literal]
  split
  · exact Ragged.canonical_ofNested _
  · exact Ragged.canonical_empty

variable {value : NodeId → Nat → Except EvalError Ragged} (hv : CanonicalAt value)

include hv

theorem canonical_along {chain : Chain} {v : Ragged} (h : graph.along value chain = .ok v) :
    v.Canonical := by
  rw [along] at h
  split at h
  · cases h
  · next m k _ =>
    obtain ⟨x, hx, rfl⟩ := exists_of_map h
    exact canonical_applyFlags _ _ (hv m k x hx)

theorem canonical_brought {source : PortId} {v : Ragged} (h : graph.brought value source = .ok v) :
    v.Canonical := by
  rw [brought] at h
  split at h
  · cases h
  · split at h
    · next result hresult => exact Except.ok.inj h ▸ canonical_along hv hresult
    · cases h

theorem canonical_received {input : PortId} {values : List Ragged}
    (h : graph.received value input = .ok values) : ∀ v ∈ values, v.Canonical := by
  rw [received] at h
  split at h
  · cases h
  next chain _ =>
  split at h
  · cases h
  next port _ =>
  obtain ⟨given, hgiven, rfl⟩ := exists_of_map h
  intro v hmem
  obtain ⟨w, hw, rfl⟩ := List.mem_map.mp hmem
  refine canonical_applyFlags _ _ ?_
  split at hgiven
  · obtain rfl := Except.ok.inj hgiven
    rw [List.mem_singleton.mp hw]
    exact canonical_literal graph port
  · obtain ⟨edge, -, hedge⟩ := mem_of_mapM hgiven hw
    exact canonical_brought hv hedge

-- What a function is given is canonical where all results are.
theorem canonical_gathered {n : NodeId} {inputs : List Nat} {values : List (List Ragged)}
    (h : inputs.mapM (graph.receivedAt value n) = .ok values) :
    ∀ given ∈ values, ∀ v ∈ given, v.Canonical := by
  intro given hmem
  obtain ⟨i, -, hi⟩ := mem_of_mapM h hmem
  rw [receivedAt] at hi
  split at hi
  · exact canonical_received hv hi
  · cases hi

theorem canonical_denote (hf : graph.Faithful) {n : NodeId} {o : Nat} {v : Ragged}
    (h : graph.denote value n o = .ok v) : v.Canonical := by
  rw [denote] at h
  split at h
  · cases h
  next node hn =>
  split at h
  · cases h
  next unit hu =>
  split at h
  · cases h
  next values hvalues =>
  obtain ⟨result, hresult, rfl⟩ := exists_of_map h
  refine canonical_applyFlags _ _ (hf n node hn unit (List.mem_of_find?_eq_some hu) _ _ ?_ hresult)
  exact canonical_gathered hv hvalues

end Values

-- The plain meaning of an output is canonical: where something else stands in for what is
-- not read, all results are.
theorem Means.canonical (hf : graph.Faithful) {n : NodeId} {o : Nat} {r : Except EvalError Ragged}
    (hm : graph.Means n o r) {v : Ragged} (hr : r = .ok v) : v.Canonical := by
  induction hm generalizing v with
  | @intro value n o _ ih =>
      classical
      let sifted : NodeId → Nat → Except EvalError Ragged := fun m k =>
        if ∀ w, value m k = .ok w → w.Canonical then value m k else .error (.noEvaluator k)
      have hsifted : CanonicalAt sifted := by
        intro m k w hw
        by_cases h : ∀ w, value m k = .ok w → w.Canonical
        · exact h w (by simpa only [sifted, if_pos h] using hw)
        · simp only [sifted, if_neg h] at hw
          cases hw
      refine @canonical_denote graph sifted hsifted hf n o v (hr ▸ ?_)
      refine graph.denote_congr n o fun source hs m k hl => ?_
      simp only [sifted, if_pos fun w hw => ih source hs m k hl hw]

-- So what is up to date is canonical, whatever was computed before.
theorem Sound.canonical (hs : graph.Sound) (hf : graph.Faithful) : CanonicalAt graph.kept := by
  intro m k v hv
  obtain ⟨slot, hslot, hstate⟩ := freshAt_of_kept hv
  obtain ⟨w, hw, hmeans, -⟩ := hs m k slot hslot hstate
  rw [kept_of_fresh hslot hstate hw] at hv
  exact hmeans.canonical hf hv

theorem canonical_of_gather (hv : CanonicalAt graph.kept) {n : NodeId} {unit : EvalUnit}
    {inputs : EvalInputs} (h : graph.gather n unit = .ok inputs) : inputs.Canonical := by
  rw [gather, readAt_eq] at h
  cases hvalues : unit.inputs.mapM (graph.receivedAt graph.kept n) with
  | error e =>
      rw [hvalues] at h
      cases h
  | ok values =>
      simp only [hvalues, bind, Except.bind] at h
      split at h
      · obtain rfl := Except.ok.inj h
        exact canonical_gathered hv hvalues
      · cases h

-- A task leaves the graph as it is or keeps one more result, canonical if it is a value.
theorem step_canonical {session : Session} (hv : CanonicalAt session.graph.kept)
    (hf : session.graph.Faithful) (visited : List PortId) (task : Task) :
    (session.step visited task).2.graph = session.graph ∨
      ∃ n o slot r, session.graph.ownSlot? n o = some slot ∧ (∀ v, r = .ok v → v.Canonical) ∧
        (session.step visited task).2.graph = session.graph.withSlot n o (slot.settle r) := by
  by_cases hplaced : ∃ n o slot, session.graph.locate task.port = .ok (n, o) ∧
      session.graph.ownSlot? n o = some slot
  · obtain ⟨n, o, slot, hl, hslot⟩ := hplaced
    rcases Session.step_cases visited hl hslot with
      ⟨-, -, -, next, hstep, hidle⟩ | ⟨r, looked, next, -, hstep, hkeeps, -, hr⟩ |
        ⟨-, -, -, d, -, hstep⟩
    · rw [hstep]
      exact .inl hidle.graph
    · rw [hstep]
      refine .inr ⟨n, o, slot, r, hslot, fun v hrv => ?_, hkeeps.graph⟩
      rcases hr with ⟨-, -, rfl⟩ | ⟨-, -, -, -, e, rfl⟩
      · exact canonical_denote hv hf hrv
      · cases hrv
    · rw [hstep]
      exact .inl rfl
  · exact .inl (Session.step_unplaced visited task fun n o slot hl hslot =>
      hplaced ⟨n, o, slot, hl, hslot⟩)

-- Fresh values stay canonical with each task, while no function changes.
theorem CanonicalAt.step {session : Session} (hv : CanonicalAt session.graph.kept)
    (hf : session.graph.Faithful) (visited : List PortId) (task : Task) :
    CanonicalAt (session.step visited task).2.graph.kept ∧
      (session.step visited task).2.graph.Faithful := by
  rcases step_canonical hv hf visited task with heq | ⟨n, o, slot, r, hslot, hr, heq⟩
  · rw [heq]
    exact ⟨hv, hf⟩
  · rw [heq]
    refine ⟨fun m k v hkept => ?_, hf.of_bare (bare_withSlot _ _ _ _)⟩
    rw [kept_withSlot hslot] at hkept
    split at hkept
    · exact hr v hkept
    · exact hv m k v hkept

section Caches

-- All values that are kept are canonical, those that are out of date among them.
def CachesCanonical (graph : Graph) : Prop :=
  ∀ n o slot v, graph.ownSlot? n o = some slot → slot.cache = some v → v.Canonical

theorem CachesCanonical.kept (hc : graph.CachesCanonical) : CanonicalAt graph.kept := by
  intro m k v hv
  obtain ⟨slot, hslot, -, hcache⟩ := exists_slot_of_kept hv
  exact hc m k slot v hslot hcache

-- A failure keeps the last value, and a value takes its place.
theorem CachesCanonical.withSlot (hc : graph.CachesCanonical) {n : NodeId} {o : Nat} {slot : Slot}
    (h : graph.ownSlot? n o = some slot) {r : Except EvalError Ragged}
    (hr : ∀ v, r = .ok v → v.Canonical) :
    (graph.withSlot n o (slot.settle r)).CachesCanonical := by
  intro m k found v hfound hcache
  rw [ownSlot?_withSlot h] at hfound
  split at hfound
  · obtain rfl := Option.some.inj hfound
    cases r with
    | ok w =>
        obtain rfl := Option.some.inj hcache
        exact hr _ rfl
    | error e => exact hc n o slot v h hcache
  · exact hc m k found v hfound hcache

theorem CachesCanonical.step {session : Session} (hc : session.graph.CachesCanonical)
    (hf : session.graph.Faithful) (visited : List PortId) (task : Task) :
    (session.step visited task).2.graph.CachesCanonical ∧
      (session.step visited task).2.graph.Faithful := by
  refine ⟨?_, (hc.kept.step hf visited task).2⟩
  rcases step_canonical hc.kept hf visited task with heq | ⟨n, o, slot, r, hslot, hr, heq⟩
  · rw [heq]
    exact hc
  · rw [heq]
    exact hc.withSlot hslot hr

-- What is kept after a change was kept before it, of the same output.
def Retains (graph other : Graph) : Prop :=
  ∀ n o slot v, other.ownSlot? n o = some slot → slot.cache = some v →
    ∃ old, graph.ownSlot? n o = some old ∧ old.cache = some v

theorem Retains.refl (graph : Graph) : Retains graph graph :=
  fun _ _ slot _ hslot hv => ⟨slot, hslot, hv⟩

theorem Retains.trans {third : Graph} (h : Retains graph other) (h' : Retains other third) :
    Retains graph third := by
  intro n o slot v hslot hv
  obtain ⟨old, hold, hv⟩ := h' n o slot v hslot hv
  exact h n o old v hold hv

theorem CachesCanonical.retained (hc : graph.CachesCanonical) (h : Retains graph other) :
    other.CachesCanonical := by
  intro n o slot v hslot hv
  obtain ⟨old, hold, hv⟩ := h n o slot v hslot hv
  exact hc n o old v hold hv

-- It is enough that each node is new, with nothing kept, or keeps what it kept.
theorem Retains.of_nodes (h : ∀ n node, other.node? n = some node →
    (∀ slot ∈ node.slots, slot.cache = none) ∨
      ∃ old, graph.node? n = some old ∧ node.slots.map Slot.cache = old.slots.map Slot.cache) :
    Retains graph other := by
  intro n o slot v hslot hv
  obtain ⟨node, hn, hslot⟩ := Option.bind_eq_some_iff.mp hslot
  rcases h n node hn with hnone | ⟨old, hold, hcaches⟩
  · rw [hnone slot (List.mem_of_getElem? hslot)] at hv
    cases hv
  · have hcache : (node.slots.map Slot.cache)[o]? = some (some v) := by
      rw [List.getElem?_map, hslot, Option.map_some, hv]
    rw [hcaches, List.getElem?_map] at hcache
    obtain ⟨found, hfound, hv⟩ := Option.map_eq_some_iff.mp hcache
    exact ⟨found, by rw [ownSlot?, hold, Option.bind_some, hfound], hv⟩

theorem Retains.of_same (h : ∀ n, other.node? n = graph.node? n) : Retains graph other :=
  .of_nodes fun n node hn => .inr ⟨node, (h n).symm.trans hn, rfl⟩

-- Nodes that differ in nothing that is kept.
theorem Retains.of_map {f : NodeId → Node → Node}
    (hf : ∀ n node, (f n node).slots.map Slot.cache = node.slots.map Slot.cache)
    (h : ∀ n, other.node? n = (graph.node? n).map (f n)) : Retains graph other := by
  refine .of_nodes fun n node hn => .inr ?_
  rw [h n] at hn
  obtain ⟨old, hold, rfl⟩ := Option.map_eq_some_iff.mp hn
  exact ⟨old, hold, hf n old⟩

theorem retains_invalidate (graph : Graph) (id : NodeId) : Retains graph (graph.invalidate id) := by
  refine .of_map (fun n node => ?_) (graph.node?_invalidate id)
  split
  · simp only [Node.invalidate, List.map_map]
    rfl
  · rfl

theorem retains_invalidateAll (ids : List NodeId) (graph : Graph) :
    Retains graph (ids.foldl invalidate graph) := by
  induction ids generalizing graph with
  | nil => exact .refl graph
  | cons id rest ih => exact (retains_invalidate graph id).trans (ih _)

theorem retains_withdraw (graph : Graph) (doomed : List NodeId) :
    Retains graph (graph.withdraw doomed) :=
  .of_nodes fun _ node hn => .inr ⟨node, ((node?_withdraw_eq_some_iff _ _).mp hn).2, rfl⟩

theorem retains_withNode (graph : Graph) (template : Template) (uuid : Uuid) (parent : ItemId) :
    Retains graph (graph.withNode template uuid parent) := by
  refine .of_nodes fun n node hn => ?_
  rcases (node?_withNode_eq_some_iff ..).mp hn with ⟨-, rfl⟩ | hn
  · left
    intro slot hslot
    rw [List.eq_of_mem_replicate hslot]
    rfl
  · exact .inr ⟨node, hn, rfl⟩

-- No edit makes a value.
theorem Edit.retains (h : graph.Edit other) : Retains graph other := by
  cases h with
  | insert parent _ _ _ => exact retains_withNode _ _ _ _
  | remove _ =>
      exact ((retains_invalidateAll _ _).trans (retains_withdraw _ _)).trans
        (.of_same fun _ => rfl)
  | connect _ _ _ =>
      exact (Retains.of_same (node?_join _ _ _)).trans (retains_invalidate _ _)
  | disconnect _ _ => exact (Retains.of_same (node?_dropEdges _ _)).trans (retains_invalidate _ _)
  | link _ _ _ _ => exact (Retains.of_same (node?_forward _ _ _)).trans (retains_invalidate _ _)
  | unlink _ => exact (Retains.of_same (node?_unlink _ _)).trans (retains_invalidate _ _)
  | property _ key value =>
      refine Retains.trans (.of_map (fun n node => ?_) (graph.node?_withProperty _ key value))
        (retains_invalidate _ _)
      split <;> rfl
  | position _ position =>
      refine .of_map (fun n node => ?_) (graph.node?_withPosition _ position)
      split <;> rfl
  | flags _ _ => exact (Retains.of_same fun _ => rfl).trans (retains_invalidate _ _)
  | invalidate id => exact retains_invalidate graph id
  | move id container =>
      obtain ⟨outline, h⟩ := graph.moveInto_snd id container
      rw [h]
      exact .of_same fun _ => rfl

end Caches

end Graph

end Dataflow
