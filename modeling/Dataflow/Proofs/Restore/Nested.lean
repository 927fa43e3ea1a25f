import Dataflow.Proofs.Restore.Filled

namespace Dataflow

namespace Graph

open Relation

variable {base graph other : Graph}

-- The nodes of a filled graph moved into their containers, as far as the document was
-- gone through. Those to come are still at the top, behind the ones that stay there.
structure Nested (base : Graph) (done rest : List SavedNode) (graph : Graph) : Prop where
  same : graph = { base with outline := graph.outline }
  entry : ∀ item, graph.outline.get? item = base.outline.get? item
  outlined : graph.Outlined
  top : (graph.outline.children graph.root).map graph.nameAt? =
    (done.filter (·.parent = none) ++ rest).map fun saved => some saved.uuid
  inside : ∀ id node, graph.node? id = some node →
    (graph.outline.children node.item).map graph.nameAt? =
      (done.filter (·.parent = some node.uuid)).map fun saved => some saved.uuid

namespace Nested

variable {done rest : List SavedNode}

theorem of_filled {settings : Settings} (h : Filled settings rest base) :
    Nested base [] rest base where
  same := rfl
  entry _ := rfl
  outlined := h.outlined
  top := h.top
  inside id node hn := by
    rw [h.leaf id node hn]
    rfl

theorem alike (h : Nested base done rest graph) : Alike base graph := by
  have hentry := h.entry
  rw [h.same] at hentry ⊢
  exact ⟨rfl, rfl, rfl, hentry, fun _ => rfl, fun _ => rfl⟩

theorem wired (h : Nested base done rest graph) (hw : base.Wired) : graph.Wired := by
  rw [h.same]
  exact hw.of_nodes rfl rfl fun _ => rfl

theorem plain (h : Nested base done rest graph)
    (hplain : ∀ p port, base.port? p = some port → port.aliasOf = none ∧ port.edges = []) :
    ∀ p port, graph.port? p = some port → port.aliasOf = none ∧ port.edges = [] := by
  rw [h.same]
  exact hplain

theorem named (h : Nested base done rest graph) (hn : base.Named) : graph.Named := by
  rw [h.same]
  exact ⟨hn.once, hn.listed⟩

-- A child of the top taken from between its siblings.
theorem erase_child {items : List ItemId} {name : ItemId → Option Uuid}
    {before after : List SavedNode} {saved : SavedNode} {item : ItemId} (hn : items.Nodup)
    (hnames : items.map name = (before ++ saved :: after).map fun saved => some saved.uuid)
    (hitem : ∀ a ∈ items, name a = some saved.uuid → a = item) :
    (items.erase item).map name = (before ++ after).map fun saved => some saved.uuid := by
  rw [List.map_append, List.map_cons] at hnames
  obtain ⟨front, tail, rfl, hfront, htail⟩ := List.map_eq_append_iff.mp hnames
  obtain ⟨a, back, rfl, ha, hback⟩ := List.map_eq_cons_iff.mp htail
  obtain rfl := hitem a (by simp) ha
  have hnot : a ∉ front := fun hmem => (List.nodup_append.mp hn).2.2 a hmem a List.mem_cons_self rfl
  rw [List.erase_append_right _ hnot, List.erase_cons_head, List.map_append, hfront, hback,
    List.map_append]

theorem step {saved : SavedNode} (hn : base.Named) (hg : Nested base done (saved :: rest) graph)
    (h : restoreParent graph saved = .ok other) : Nested base (done ++ [saved]) rest other := by
  rcases restoreParent_eq_ok h with ⟨hnone, rfl⟩ | ⟨parent, container, child, hparent, hcontainer,
    hchild, hmove⟩
  · refine ⟨hg.same, hg.entry, hg.outlined, ?_, fun id node hn => ?_⟩
    · rw [hg.top, List.filter_append, List.filter_cons_of_pos (by simp [hnone])]
      simp
    · rw [hg.inside id node hn, List.filter_append, List.filter_cons_of_neg (by simp [hnone])]
      simp
  have ho := hg.outlined
  have hnamed := hg.named hn
  obtain ⟨node, holder, loose, hnode, hholder, hloose, hattached, hother⟩ := moveInto_eq_ok ho hmove
  have houtlined : other.Outlined := by
    have hmoved := ho.move child (some container)
    rwa [hmove] at hmoved
  have hentry : ∀ item, other.outline.get? item = graph.outline.get? item := fun item => by
    rw [hattached.data, hloose.data]
  have hsame : Alike graph other := by
    rw [hother]
    exact ⟨rfl, rfl, rfl, hentry, fun _ => rfl, fun _ => rfl⟩
  have huuid : node.uuid = saved.uuid := by
    obtain ⟨node', hnode', huuid⟩ := hnamed.findByUuid_eq_some_iff.mp hchild
    rw [Option.some.inj (hnode.symm.trans hnode'), huuid]
  have hholderUuid : holder.uuid = parent := by
    obtain ⟨holder', hholder', huuid⟩ := hnamed.findByUuid_eq_some_iff.mp hcontainer
    rw [Option.some.inj (hholder.symm.trans hholder'), huuid]
  -- the node is still at the top
  have hatTop : graph.outline.parent? node.item = some graph.root := by
    have hmem : some saved.uuid ∈ (graph.outline.children graph.root).map graph.nameAt? := by
      rw [hg.top]
      exact List.mem_map.mpr ⟨saved, by simp, rfl⟩
    obtain ⟨item, hitem, hname⟩ := List.mem_map.mp hmem
    rw [hnamed.item_eq_of_name ho hname (huuid ▸ ho.nameAt?_item hnode)] at hitem
    exact ho.tidy.listed.mp hitem
  have hnames : ∀ items : List ItemId, items.map other.nameAt? = items.map graph.nameAt? :=
    fun items => List.map_congr_left fun item _ => hsame.nameAt? item
  have hroot : other.root = graph.root := hsame.root
  refine ⟨?_, fun item => (hentry item).trans (hg.entry item), houtlined, ?_,
    fun id found hfound => ?_⟩
  · have hgraph := hg.same
    rw [hother]
    rw [hgraph]
  · rw [hroot, hattached.below, if_neg (ho.item_ne_root hholder).symm, hloose.below, hnames,
      List.filter_append, List.filter_cons_of_neg (by simp [hparent]), List.filter_nil,
      List.append_nil]
    refine erase_child (ho.tidy.once _) hg.top fun a _ ha => ?_
    exact hnamed.item_eq_of_name ho ha (huuid ▸ ho.nameAt?_item hnode)
  · have hfound : graph.node? id = some found := by
      rw [hother] at hfound
      exact hfound
    have hnot : node.item ∉ graph.outline.children found.item := by
      intro hmem
      have heq := Option.some.inj (hatTop.symm.trans (ho.tidy.listed.mp hmem))
      exact ho.item_ne_root hfound heq.symm
    rw [hattached.below, hloose.below, List.erase_of_not_mem hnot, List.filter_append,
      List.map_append, ← hg.inside id found hfound]
    split
    · next hitem =>
      have hid := ho.item_inj hfound hholder hitem
      subst hid
      obtain rfl := Option.some.inj (hfound.symm.trans hholder)
      rw [List.map_append, hnames, List.filter_cons_of_pos (by simp [hparent, hholderUuid])]
      simp [hsame.nameAt?, ho.nameAt?_item hnode, huuid]
    · next hitem =>
      have hne : parent ≠ found.uuid := by
        intro heq
        have hid := hnamed.id_eq_of_uuid hfound hholder (heq.symm.trans hholderUuid.symm)
        subst hid
        exact hitem (by rw [Option.some.inj (hfound.symm.trans hholder)])
      rw [hnames, List.filter_cons_of_neg (by simp [hparent, hne])]
      simp

end Nested

-- The same, told from what was gone through of all there is.
def NestedUpTo (nodes : List SavedNode) (base : Graph) (done : List SavedNode) (graph : Graph) :
    Prop :=
  ∀ rest, nodes = done ++ rest → Nested base done rest graph

section Run

variable {settings : Settings} {nodes : List SavedNode}

theorem NestedUpTo.start (h : Filled settings nodes base) : NestedUpTo nodes base [] base := by
  intro rest hrest
  rw [List.nil_append] at hrest
  exact .of_filled (hrest ▸ h)

theorem NestedUpTo.step {done rest : List SavedNode} {saved : SavedNode} (hn : base.Named)
    (hnodes : nodes = done ++ saved :: rest) (hg : NestedUpTo nodes base done graph)
    (h : restoreParent graph saved = .ok other) :
    NestedUpTo nodes base (done ++ [saved]) other := by
  intro rest' hrest'
  have hrest : rest = rest' := by
    rw [hnodes] at hrest'
    simpa using hrest'
  exact hrest ▸ (hg (saved :: rest) hnodes).step hn h

theorem nested_of_foldlM (hbase : Filled settings nodes base)
    (h : nodes.foldlM restoreParent base = .ok graph) : Nested base nodes [] graph :=
  foldlM_induction (P := NestedUpTo nodes base) (fun hnodes hg h => hg.step hbase.named hnodes h)
    (.start hbase) h [] (List.append_nil _).symm

-- A document says that the first node stands directly in the second.
def Within (nodes : List SavedNode) (a b : Uuid) : Prop :=
  ∃ saved ∈ nodes, saved.uuid = a ∧ saved.parent = some b

theorem Nested.within {done rest : List SavedNode} (hg : Nested base done rest graph)
    {id id' : NodeId} {node holder : Node} (hn : graph.node? id = some node)
    (hholder : graph.node? id' = some holder)
    (h : ReflTransGen graph.outline.Under node.item holder.item) :
    ReflTransGen (Within done) node.uuid holder.uuid := by
  have ho := hg.outlined
  generalize hitem : node.item = item at h
  induction h using ReflTransGen.head_induction_on generalizing id node with
  | refl =>
      have hid := ho.item_inj hn hholder hitem
      subst hid
      rw [Option.some.inj (hn.symm.trans hholder)]
  | @head a b hab hb ih =>
      subst hitem
      have hmem := ho.tidy.listed.mpr hab
      rcases ho.container_root_or_node hab with rfl | ⟨next, found, hfound, rfl⟩
      · rcases ReflTransGen.cases_head hb with heq | ⟨c, hc, -⟩
        · exact absurd heq.symm (ho.item_ne_root hholder)
        · exact absurd (ho.top.symm.trans hc) (by simp)
      · refine .head ?_ (ih hfound rfl)
        have hname := List.mem_map_of_mem (f := graph.nameAt?) hmem
        rw [hg.inside next found hfound, ho.nameAt?_item hn, List.mem_map] at hname
        obtain ⟨saved, hsaved, heq⟩ := hname
        obtain ⟨hdone, hparent⟩ := List.mem_filter.mp hsaved
        exact ⟨saved, hdone, Option.some.inj heq, by simpa using hparent⟩

-- In the end every node stands where the document says.
theorem Nested.parent_eq (hg : Nested base nodes [] graph) (honce : (nodes.map (·.uuid)).Nodup)
    {saved : SavedNode} (hsaved : saved ∈ nodes) {id : NodeId} {node : Node}
    (hn : graph.node? id = some node) (huuid : node.uuid = saved.uuid) :
    (graph.outline.parent? node.item).bind graph.nameAt? = saved.parent := by
  have ho := hg.outlined
  obtain ⟨above, habove⟩ := ho.placed hn
  have hname := List.mem_map_of_mem (f := graph.nameAt?) (ho.tidy.listed.mpr habove)
  have honly : ∀ other ∈ nodes, some other.uuid = graph.nameAt? node.item → other = saved := by
    intro other hother heq
    rw [ho.nameAt?_item hn, huuid] at heq
    exact List.inj_on_of_nodup_map honce hother hsaved (Option.some.inj heq)
  rw [habove, Option.bind_some]
  rcases ho.container_root_or_node habove with rfl | ⟨id', holder, hholder, rfl⟩
  · rw [hg.top, List.append_nil] at hname
    obtain ⟨other, hother, heq⟩ := List.mem_map.mp hname
    obtain ⟨hmem, hparent⟩ := List.mem_filter.mp hother
    rw [ho.nameAt?_root, ← honly other hmem heq]
    exact (of_decide_eq_true hparent).symm
  · rw [hg.inside id' holder hholder] at hname
    obtain ⟨other, hother, heq⟩ := List.mem_map.mp hname
    obtain ⟨hmem, hparent⟩ := List.mem_filter.mp hother
    rw [ho.nameAt?_item hholder, ← honly other hmem heq]
    exact (of_decide_eq_true hparent).symm

-- Nodes can be moved into their containers where these are there and no node would come to
-- stand inside itself.
theorem exists_nested (hbase : Filled settings nodes base)
    (hparents : ∀ saved ∈ nodes, ∀ parent, saved.parent = some parent →
      parent ∈ nodes.map (·.uuid))
    (hacyclic : ∀ uuid, ¬ TransGen (Within nodes) uuid uuid) :
    ∃ graph, nodes.foldlM restoreParent base = .ok graph := by
  have hn := hbase.named
  refine exists_foldlM (P := NestedUpTo nodes base) (fun hnodes hg h => hg.step hn hnodes h)
    (fun {done saved rest g} hnodes hg => ?_) (.start hbase)
  cases hparent : saved.parent with
  | none => exact ⟨g, by rw [Graph.restoreParent, hparent]⟩
  | some parent =>
      have hnested := hg (saved :: rest) hnodes
      have hmem : saved ∈ nodes := by simp [hnodes]
      have hnode : ∀ id, g.node? id = base.node? id := fun id => by
        rw [hnested.same]
        rfl
      obtain ⟨child, node, hchild, huuid⟩ := hbase.exists_node (List.mem_map_of_mem hmem)
      obtain ⟨container, holder, hcontainer, hholder⟩ :=
        hbase.exists_node (hparents saved hmem parent hparent)
      rw [← hnode] at hchild hcontainer
      have hnamed := hnested.named hn
      refine exists_restoreParent hnested.outlined hparent
        (hnamed.findByUuid_eq_some_iff.mpr ⟨holder, hcontainer, hholder⟩) hcontainer
        (hnamed.findByUuid_eq_some_iff.mpr ⟨node, hchild, huuid⟩) hchild fun hup => ?_
      have hwithin := hnested.within hcontainer hchild hup
      rw [hholder, huuid] at hwithin
      have hmore : ∀ a b, Within done a b → Within nodes a b := by
        rintro a b ⟨other, hother, h⟩
        exact ⟨other, by simp [hnodes, hother], h⟩
      have hall : ReflTransGen (Within nodes) parent saved.uuid :=
        ReflTransGen.mono hmore _ _ hwithin
      exact hacyclic saved.uuid (.head' ⟨saved, hmem, rfl, hparent⟩ hall)

end Run

end Graph

end Dataflow
