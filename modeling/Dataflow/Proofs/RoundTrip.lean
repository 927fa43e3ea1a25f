import Dataflow.Proofs.Document.Snapshot
import Dataflow.Proofs.Json.Shown
import Dataflow.Proofs.Yaml.Shown

namespace Dataflow.Snapshot

section Formats

variable {snapshot : Snapshot}

-- Properties stand four levels down in a document: the document, the list of nodes, the
-- node and the map of its properties take one each.
theorem ofJson?_toJson (h : snapshot.Legible Json.ReadsBack Json.SingleReadsBack)
    (htriples : ∀ value ∈ snapshot.values, value.tripleFree = true) :
    ofJson? snapshot.toJson =
      if ∀ value ∈ snapshot.values, (Tree.ofNestedValue value).depth ≤ 123 then some snapshot
      else none := by
  have hread := read_shown Json.shows h htriples 123
  have hlevels : Json.mostLevels = 123 + 4 := rfl
  rw [ofJson?, toJson, Json.read?_pretty _ (legible_toTree h), hlevels, hread]
  split <;> rfl

-- One level more than in the other format may be entered.
theorem ofYaml?_toYaml (h : snapshot.Legible Yaml.ReadsBack Yaml.SingleReadsBack)
    (htriples : ∀ value ∈ snapshot.values, value.tripleFree = true) :
    ofYaml? snapshot.toYaml =
      if ∀ value ∈ snapshot.values, (Tree.ofNestedValue value).depth ≤ 124 then some snapshot
      else none := by
  obtain ⟨document, hdocument⟩ := Yaml.read?_print read (legible_toTree h)
  have hread := read_shown (Yaml.shows document) h htriples 124
  have hlevels : Yaml.mostLevels = 124 + 4 := rfl
  rw [ofYaml?, toYaml]
  refine hdocument.trans ?_
  rw [hlevels]
  refine (congrArg (fun reading => (reading 0).map (·.1)) hread).trans ?_
  split <;> rfl

end Formats

-- Writing a snapshot and reading it back gives that very snapshot or nothing, and which
-- of the two is decided by how deep its properties are nested. The digits of its numbers
-- are taken to read back, and no property has a list of exactly three numbers in it.
theorem documents_read_back (snapshot : Snapshot)
    (hjson : snapshot.Legible Json.ReadsBack Json.SingleReadsBack)
    (hyaml : snapshot.Legible Yaml.ReadsBack Yaml.SingleReadsBack)
    (htriples : ∀ value ∈ snapshot.values, value.tripleFree = true) :
    (ofJson? snapshot.toJson =
      if ∀ value ∈ snapshot.values, (Tree.ofNestedValue value).depth ≤ 123 then some snapshot
      else none) ∧
    (ofYaml? snapshot.toYaml =
      if ∀ value ∈ snapshot.values, (Tree.ofNestedValue value).depth ≤ 124 then some snapshot
      else none) :=
  ⟨ofJson?_toJson hjson htriples, ofYaml?_toYaml hyaml htriples⟩

-- A node inside another, with an edge and an alias between them.
def nodeInNode : Snapshot where
  nodes :=
    [⟨⟨1⟩, "group", ⟨1.5, -2⟩, Properties.ofList [("size", .leaf (.number 0.25))], none, [], []⟩,
      ⟨⟨2⟩, "range", ⟨0, 0⟩,
        Properties.ofList [("a: b", .list [.leaf (.text "null"), .list [.leaf (.int (-7))]]),
          ("at", .leaf (.point ⟨1, 2.5, -3⟩))],
        some ⟨1⟩, [⟨true, false, true⟩], []⟩]
  edges := [⟨⟨⟨1⟩, 0⟩, ⟨⟨2⟩, 1⟩⟩]
  aliases := [⟨.output, ⟨⟨1⟩, 1⟩, ⟨⟨2⟩, 0⟩⟩]

theorem nodeInNode_reads_back :
    nodeInNode.Legible Json.ReadsBack Json.SingleReadsBack ∧
      nodeInNode.Legible Yaml.ReadsBack Yaml.SingleReadsBack ∧
      (∀ value ∈ nodeInNode.values, value.tripleFree = true) ∧
      ofJson? nodeInNode.toJson = some nodeInNode ∧
      ofYaml? nodeInNode.toYaml = some nodeInNode := by
  have hjson : nodeInNode.Legible Json.ReadsBack Json.SingleReadsBack :=
    ⟨by decide +kernel, by decide +kernel, by decide +kernel⟩
  have hyaml : nodeInNode.Legible Yaml.ReadsBack Yaml.SingleReadsBack :=
    ⟨by decide +kernel, by decide +kernel, by decide +kernel⟩
  have htriples : ∀ value ∈ nodeInNode.values, value.tripleFree = true := by decide +kernel
  have hflat : ∀ value ∈ nodeInNode.values, (Tree.ofNestedValue value).depth ≤ 123 := by
    decide +kernel
  obtain ⟨hreadJson, hreadYaml⟩ := documents_read_back nodeInNode hjson hyaml htriples
  rw [if_pos hflat] at hreadJson
  rw [if_pos fun value hvalue => Nat.le_succ_of_le (hflat value hvalue)] at hreadYaml
  exact ⟨hjson, hyaml, htriples, hreadJson, hreadYaml⟩

-- One node with one property.
def ofProperty (value : Nested Value) : Snapshot where
  nodes := [⟨⟨1⟩, "", ⟨0, 0⟩, Properties.ofList [("", value)], none, [], []⟩]
  edges := []
  aliases := []

def oneTwoThree : Nested Value :=
  .list [.leaf (.int 1), .leaf (.int 2), .leaf (.int 3)]

-- Nothing in lists of one item.
def boxed : Nat → Nested Value
  | 0 => .leaf .null
  | n + 1 => .list [boxed n]

theorem depth_boxed (n : Nat) : (Tree.ofNestedValue (boxed n)).depth = n := by
  induction n with
  | zero => rfl
  | succ n ih =>
      rw [boxed, Tree.ofNestedValue_list, Tree.depth, List.map_cons, Tree.deepest, ih,
        List.map_nil, Tree.deepest]
      omega

theorem tripleFree_boxed (n : Nat) : (boxed n).tripleFree = true := by
  induction n with
  | zero => rfl
  | succ n ih =>
      rw [boxed, Nested.tripleFree, Nested.allTripleFree, ih]
      rfl

theorem numbers_boxed (n : Nat) : (boxed n).numbers = [] := by
  induction n with
  | zero => rfl
  | succ n ih => rw [boxed, Nested.numbers_list, List.flatMap_cons, ih, List.flatMap_nil]; rfl

theorem legible_ofProperty {value : Nested Value} (h : value.numbers = []) :
    (ofProperty value).Legible (fun x => x.isFinite ∧ Json.ReadsBack x ∧ Yaml.ReadsBack x)
      (fun x => x.isFinite ∧ Json.SingleReadsBack x ∧ Yaml.SingleReadsBack x) where
  index_lt := nofun
  coordinates := by
    show ∀ x ∈ [(0 : Float32), 0], _
    decide +kernel
  numbers := by
    show ∀ v ∈ [value], _
    intro v hv x hx
    rw [List.mem_singleton.mp hv, h] at hx
    cases hx

-- Three numbers in a list come back as a point, and what is nested too deeply does not
-- come back.
theorem documents_that_change :
    (∀ value ∈ [oneTwoThree, boxed 124, boxed 125],
      (ofProperty value).Legible (fun x => x.isFinite ∧ Json.ReadsBack x ∧ Yaml.ReadsBack x)
        (fun x => x.isFinite ∧ Json.SingleReadsBack x ∧ Yaml.SingleReadsBack x)) ∧
    ofJson? (ofProperty oneTwoThree).toJson ≠ some (ofProperty oneTwoThree) ∧
    ofYaml? (ofProperty oneTwoThree).toYaml ≠ some (ofProperty oneTwoThree) ∧
    ofJson? (ofProperty (boxed 124)).toJson = none ∧
    ofYaml? (ofProperty (boxed 125)).toYaml = none := by
  have hlegible : ∀ value ∈ [oneTwoThree, boxed 124, boxed 125], value.numbers = [] := by
    simp only [List.forall_mem_cons, numbers_boxed, List.not_mem_nil, false_implies,
      implies_true, and_true]
    rfl
  have hdeep : ∀ {n k : Nat}, k < n →
      ¬∀ value ∈ (ofProperty (boxed n)).values, (Tree.ofNestedValue value).depth ≤ k := by
    intro n k hk hall
    have hle := hall (boxed n) (List.mem_singleton.mpr rfl)
    rw [depth_boxed] at hle
    omega
  have hfree : ∀ n : Nat, ∀ value ∈ (ofProperty (boxed n)).values, value.tripleFree = true :=
    fun n value hvalue => List.mem_singleton.mp hvalue ▸ tripleFree_boxed n
  refine ⟨fun value hvalue => legible_ofProperty (hlegible value hvalue), ?_, ?_, ?_, ?_⟩
  · decide +kernel
  · decide +kernel
  · have h := legible_ofProperty (numbers_boxed 124)
    rw [ofJson?_toJson (h.mono (fun _ hx => hx.2.1) fun _ hx => hx.2.1) (hfree 124)]
    exact if_neg (hdeep (by decide))
  · have h := legible_ofProperty (numbers_boxed 125)
    rw [ofYaml?_toYaml (h.mono (fun _ hx => hx.2.2) fun _ hx => hx.2.2) (hfree 125)]
    exact if_neg (hdeep (by decide))

end Dataflow.Snapshot
