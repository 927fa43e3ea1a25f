import Dataflow.Proofs.Restore.Nested

namespace Dataflow

namespace Graph

variable {base graph other : Graph}

section Feeders

theorem portRef?_of_named (hw : graph.Wired) (hn : graph.Named) {direction : Direction}
    {ref : PortRef} {p : PortId} (h : graph.portNamed? direction ref = some p) :
    graph.portRef? p = some ref :=
  ((hn.portNamed?_eq_some_iff hw).mp h).choose_spec.2.2

-- An input is fed by what the edges lead to it from.
theorem mem_feeders_iff (hw : graph.Wired) (hn : graph.Named) {source destination : PortRef} :
    source ∈ graph.feeders destination ↔ ∃ e edge, graph.edge? e = some edge ∧
      graph.portRef? edge.source = some source ∧
      graph.portRef? edge.destination = some destination := by
  constructor
  · intro h
    cases hfound : graph.portNamed? .input destination with
    | none =>
        rw [feeders_of_none hfound] at h
        cases h
    | some p =>
        obtain ⟨port, hp, hd, href⟩ := (hn.portNamed?_eq_some_iff hw).mp hfound
        rw [feeders_of_port hw hn hp hd href] at h
        obtain ⟨edge, hedge, hs⟩ := List.mem_filterMap.mp h
        obtain ⟨e, he, hedge⟩ := List.mem_filterMap.mp hedge
        exact ⟨e, edge, hedge, hs, hw.destination_eq hp hd he hedge ▸ href⟩
  · rintro ⟨e, edge, hedge, hs, href⟩
    obtain ⟨port, hp, hd, he⟩ := hw.destination hedge
    rw [feeders_of_port hw hn hp hd href]
    exact List.mem_filterMap.mpr ⟨edge, List.mem_filterMap.mpr ⟨e, he, hedge⟩, hs⟩

end Feeders

section Alias

theorem alike_forward (graph : Graph) (p t : PortId) (id : NodeId) :
    Alike graph ((graph.forward p t).invalidate id) := by
  have hports : Alike graph (graph.forward p t) := by
    refine ⟨rfl, rfl, rfl, fun _ => rfl, fun _ => rfl, fun q => ?_⟩
    rw [port?_forward, Option.map_map]
    congr 1
    funext port
    simp only [Function.comp]
    split <;> rfl
  exact hports.trans (.of_bare (bare_invalidate _ id))

-- A restored alias makes its port stand for its target, and no other port for another.
theorem standIn?_forward (hw : graph.Wired) (hn : graph.Named) {direction : Direction}
    {own target : PortRef} {p t : PortId} (hp : graph.portNamed? direction own = some p)
    (ht : graph.portNamed? direction target = some t) (id : NodeId) (d : Direction)
    (ref : PortRef) : ((graph.forward p t).invalidate id).standIn? d ref =
      if d = direction ∧ ref = own then some target else graph.standIn? d ref := by
  have halike := alike_forward graph p t id
  rw [standIn?, halike.portNamed?, standIn?]
  cases hq : graph.portNamed? d ref with
  | none =>
      rw [if_neg]
      · rfl
      · rintro ⟨rfl, rfl⟩
        rw [hp] at hq
        cases hq
  | some q =>
      obtain ⟨port, hport, hd, href⟩ := (hn.portNamed?_eq_some_iff hw).mp hq
      rw [Option.bind_some, Option.bind_some, port?_invalidate, port?_forward, hport,
        Option.map_some, Option.bind_some, Option.bind_some]
      have hiff : q = p ↔ d = direction ∧ ref = own := by
        constructor
        · rintro rfl
          obtain ⟨port', hport', hd', href'⟩ := (hn.portNamed?_eq_some_iff hw).mp hp
          obtain rfl := Option.some.inj (hport.symm.trans hport')
          exact ⟨hd.symm.trans hd', Option.some.inj (href.symm.trans href')⟩
        · rintro ⟨rfl, rfl⟩
          exact Option.some.inj (hq.symm.trans hp)
      by_cases hqp : q = p
      · rw [if_pos hqp, if_pos (hiff.mp hqp), Option.bind_some, halike.portRef?,
          portRef?_of_named hw hn ht]
      · rw [if_neg hqp, if_neg (hqp ∘ hiff.mpr)]
        exact congrArg port.aliasOf.bind (funext halike.portRef?)

theorem feeders_forward (graph : Graph) (p t : PortId) (id : NodeId) (ref : PortRef) :
    ((graph.forward p t).invalidate id).feeders ref = graph.feeders ref := by
  have halike := alike_forward graph p t id
  rw [feeders, halike.portNamed?, feeders]
  cases graph.portNamed? .input ref with
  | none => rfl
  | some q =>
      rw [Option.bind_some, Option.bind_some, port?_invalidate, port?_forward]
      cases graph.port? q with
      | none => rfl
      | some port =>
          have hedges : (if q = p then { port with aliasOf := some t } else port).edges =
              port.edges := by
            split <;> rfl
          have hrefs :
              (fun edge : Edge => ((graph.forward p t).invalidate id).portRef? edge.source) =
                fun edge => graph.portRef? edge.source := funext fun edge => halike.portRef? _
          simp only [Option.map_some, hedges, hrefs]
          rfl

end Alias

section Edge

theorem alike_join (graph : Graph) (s d : PortId) (id : NodeId) :
    Alike graph ((graph.join s d).invalidate id) := by
  have hports : Alike graph (graph.join s d) := by
    refine ⟨rfl, rfl, rfl, fun _ => rfl, fun _ => rfl, fun q => ?_⟩
    rw [port?_join, Option.map_map]
    rfl
  exact hports.trans (.of_bare (bare_invalidate _ id))

theorem standIn?_join (graph : Graph) (s d : PortId) (id : NodeId) (direction : Direction)
    (ref : PortRef) :
    ((graph.join s d).invalidate id).standIn? direction ref = graph.standIn? direction ref := by
  have halike := alike_join graph s d id
  rw [standIn?, halike.portNamed?, standIn?]
  cases graph.portNamed? direction ref with
  | none => rfl
  | some q =>
      rw [Option.bind_some, Option.bind_some, port?_invalidate, port?_join]
      cases graph.port? q with
      | none => rfl
      | some port => exact congrArg port.aliasOf.bind (funext halike.portRef?)

-- A restored edge comes last at its input, and changes nothing for the others.
theorem feeders_join (hw : graph.Wired) (hn : graph.Named) {source destination : PortRef}
    {s d : PortId} (hs : graph.portNamed? .output source = some s)
    (hd : graph.portNamed? .input destination = some d) (id : NodeId) (ref : PortRef) :
    ((graph.join s d).invalidate id).feeders ref =
      graph.feeders ref ++ if destination = ref then [source] else [] := by
  have halike := alike_join graph s d id
  rw [feeders, halike.portNamed?, feeders]
  cases hq : graph.portNamed? .input ref with
  | none =>
      rw [if_neg]
      · rfl
      · rintro rfl
        rw [hd] at hq
        cases hq
  | some q =>
      obtain ⟨port, hport, hin, href⟩ := (hn.portNamed?_eq_some_iff hw).mp hq
      obtain ⟨origin, hfrom, hout, -⟩ := (hn.portNamed?_eq_some_iff hw).mp hs
      have hqs : q ≠ s := by
        rintro rfl
        rw [Option.some.inj (hfrom.symm.trans hport), hin] at hout
        cases hout
      have hiff : q = d ↔ destination = ref := by
        constructor
        · rintro rfl
          exact Option.some.inj ((portRef?_of_named hw hn hd).symm.trans href)
        · rintro rfl
          exact Option.some.inj (hq.symm.trans hd)
      rw [Option.bind_some, Option.bind_some, port?_invalidate, port?_join, hport, Option.map_some,
        if_neg hqs, List.append_nil]
      have hrefs : (fun edge : Edge => ((graph.join s d).invalidate id).portRef? edge.source) =
          fun edge => graph.portRef? edge.source := funext fun edge => halike.portRef? _
      have hold : port.edges.filterMap ((graph.join s d).invalidate id).edge? =
          port.edges.filterMap graph.edge? := by
        refine List.filterMap_congr fun e he => ?_
        obtain ⟨edge, hedge, -⟩ := hw.incident hport he
        rw [edge?_invalidate, edge?_join, if_neg (Arena.ne_fresh_of_find? _ hedge)]
      have hnew : ((graph.join s d).invalidate id).edge? graph.edges.fresh = some ⟨s, d⟩ := by
        rw [edge?_invalidate, edge?_join, if_pos rfl]
      simp only [List.filterMap_append, hold, hrefs]
      congr 1
      by_cases hqd : q = d
      · rw [if_pos hqd, if_pos (hiff.mp hqd), List.filterMap_cons_some hnew]
        simp [portRef?_of_named hw hn hs]
      · rw [if_neg hqd, if_neg (hqd ∘ hiff.mpr)]
        rfl

end Edge

-- A graph with the nodes of another one, as far as the edges of a document were gone
-- through. Its aliases may be any.
structure Joined (base : Graph) (edges : List SavedEdge) (graph : Graph) : Prop where
  edits : Edits base graph
  alike : Alike base graph
  outline : graph.outline = base.outline
  feeders : ∀ ref, graph.feeders ref =
    (edges.filter fun saved => saved.destination = ref).map (·.source)

namespace Joined

variable {edges : List SavedEdge}

theorem of_plain (h : ∀ p port, base.port? p = some port → port.aliasOf = none ∧ port.edges = []) :
    Joined base [] base where
  edits := .refl
  alike := .refl base
  outline := rfl
  feeders ref := by
    rw [Graph.feeders]
    split
    · next port hport =>
      obtain ⟨p, -, hp⟩ := Option.bind_eq_some_iff.mp hport
      rw [(h p port hp).2]
      rfl
    · rfl

theorem link {saved : SavedAlias} (hg : Joined base edges graph)
    (h : restoreAlias graph saved = .ok other) : Joined base edges other := by
  have hedit := (revision_of_restoreAlias h).edit
  obtain ⟨p, t, port, -, -, -, rfl⟩ := restoreAlias_eq_ok h
  exact ⟨hg.edits.tail hedit, hg.alike.trans (alike_forward graph p t _), hg.outline,
    fun ref => (feeders_forward graph p t _ ref).trans (hg.feeders ref)⟩

theorem connect (hw : base.Wired) (hn : base.Named) {saved : SavedEdge}
    (hg : Joined base edges graph) (h : restoreEdge graph saved = .ok other) :
    Joined base (edges ++ [saved]) other := by
  have hw := hg.edits.wired hw
  have hn := hg.edits.named hn
  have hedit := (revision_of_restoreEdge h).edit
  obtain ⟨s, d, port, hs, hd, -, rfl⟩ := restoreEdge_eq_ok hw hn h
  refine ⟨hg.edits.tail hedit, hg.alike.trans (alike_join graph s d _), hg.outline, fun ref => ?_⟩
  rw [feeders_join hw hn hs hd, hg.feeders, List.filter_append, List.map_append]
  congr 1
  by_cases hdestination : saved.destination = ref <;> simp [hdestination]

end Joined

-- A graph with the nodes of another one, as far as the aliases and the edges of a document
-- were gone through.
structure Linked (base : Graph) (aliases : List SavedAlias) (edges : List SavedEdge)
    (graph : Graph) : Prop where
  edits : Edits base graph
  alike : Alike base graph
  outline : graph.outline = base.outline
  standIns : ∀ {direction ref target}, graph.standIn? direction ref = some target ↔
    ⟨direction, ref, target⟩ ∈ aliases
  feeders : ∀ ref, graph.feeders ref =
    (edges.filter fun saved => saved.destination = ref).map (·.source)

section Linked

variable {aliases : List SavedAlias} {edges : List SavedEdge}

theorem Joined.linked (hg : Joined base edges graph)
    (hstandIns : ∀ {direction ref target}, graph.standIn? direction ref = some target ↔
      ⟨direction, ref, target⟩ ∈ aliases) : Linked base aliases edges graph :=
  ⟨hg.edits, hg.alike, hg.outline, hstandIns, hg.feeders⟩

namespace Linked

theorem joined (hg : Linked base aliases edges graph) : Joined base edges graph :=
  ⟨hg.edits, hg.alike, hg.outline, hg.feeders⟩

theorem of_plain (h : ∀ p port, base.port? p = some port → port.aliasOf = none ∧ port.edges = []) :
    Linked base [] [] base := by
  refine (Joined.of_plain h).linked (iff_of_false (fun hstand => ?_) List.not_mem_nil)
  obtain ⟨port, hport, hstand⟩ := Option.bind_eq_some_iff.mp hstand
  obtain ⟨p, -, hp⟩ := Option.bind_eq_some_iff.mp hport
  rw [(h p port hp).1] at hstand
  cases hstand

theorem link (hw : base.Wired) (hn : base.Named) {saved : SavedAlias} {rest : List SavedAlias}
    (honce : ((aliases ++ saved :: rest).map fun saved => (saved.direction, saved.port)).Nodup)
    (hg : Linked base aliases edges graph) (h : restoreAlias graph saved = .ok other) :
    Linked base (aliases ++ [saved]) edges other := by
  rw [List.map_append, List.map_cons, List.nodup_append] at honce
  have hw := hg.edits.wired hw
  have hn := hg.edits.named hn
  refine (hg.joined.link h).linked fun {direction ref target} => ?_
  obtain ⟨p, t, port, hp, ht, -, rfl⟩ := restoreAlias_eq_ok h
  rw [standIn?_forward hw hn hp ht, List.mem_append, List.mem_singleton]
  split
  · next hkey =>
    obtain ⟨rfl, rfl⟩ := hkey
    have hnot : ⟨saved.direction, saved.port, target⟩ ∉ aliases := fun hmem =>
      honce.2.2 _ (List.mem_map_of_mem hmem) _ List.mem_cons_self rfl
    rw [or_iff_right hnot, Option.some.injEq]
    constructor
    · rintro rfl
      rfl
    · rintro heq
      rw [← heq]
  · next hkey =>
    rw [hg.standIns, or_iff_left]
    rintro rfl
    exact hkey ⟨rfl, rfl⟩

theorem connect (hw : base.Wired) (hn : base.Named) {saved : SavedEdge}
    (hg : Linked base aliases edges graph) (h : restoreEdge graph saved = .ok other) :
    Linked base aliases (edges ++ [saved]) other := by
  refine (hg.joined.connect hw hn h).linked fun {direction ref target} => ?_
  obtain ⟨s, d, port, -, -, -, rfl⟩ :=
    restoreEdge_eq_ok (hg.edits.wired hw) (hg.edits.named hn) h
  rw [standIn?_join, hg.standIns]

end Linked

theorem linked_of_foldlM (hw : base.Wired) (hn : base.Named)
    (hplain : ∀ p port, base.port? p = some port → port.aliasOf = none ∧ port.edges = [])
    (honce : (aliases.map fun saved => (saved.direction, saved.port)).Nodup)
    (haliases : aliases.foldlM restoreAlias base = .ok graph)
    (hedges : edges.foldlM restoreEdge graph = .ok other) : Linked base aliases edges other := by
  have hlinked : Linked base aliases [] graph := by
    refine foldlM_induction (P := fun done g => Linked base done [] g)
      (fun hitems hg hstep => hg.link hw hn (hitems ▸ honce) hstep) (.of_plain hplain) haliases
  exact foldlM_induction (P := fun done g => Linked base aliases done g)
    (fun _ hg hstep => hg.connect hw hn hstep) hlinked hedges

theorem joined_of_foldlM (hw : base.Wired) (hn : base.Named)
    (hplain : ∀ p port, base.port? p = some port → port.aliasOf = none ∧ port.edges = [])
    (haliases : aliases.foldlM restoreAlias base = .ok graph)
    (hedges : edges.foldlM restoreEdge graph = .ok other) : Joined base edges other := by
  have hjoined : Joined base [] graph :=
    foldlM_induction (P := fun _ g => Joined base [] g) (fun _ hg hstep => hg.link hstep)
      (.of_plain hplain) haliases
  exact foldlM_induction (P := fun done g => Joined base done g)
    (fun _ hg hstep => hg.connect hw hn hstep) hjoined hedges

end Linked

end Graph

end Dataflow
