import Dataflow.Proofs.Document.Reading

namespace Dataflow

namespace SavedNode

def values (node : SavedNode) : List (Nested Value) :=
  node.properties.entries.map (·.2)

def coordinates (node : SavedNode) : List Float32 :=
  [node.position.x, node.position.y]

end SavedNode

namespace Snapshot

-- The properties of all nodes.
def values (snapshot : Snapshot) : List (Nested Value) :=
  snapshot.nodes.flatMap SavedNode.values

-- The positions of all nodes.
def coordinates (snapshot : Snapshot) : List Float32 :=
  snapshot.nodes.flatMap SavedNode.coordinates

-- The ports that edges and aliases speak of.
def refs (snapshot : Snapshot) : List PortRef :=
  snapshot.edges.flatMap (fun edge => [edge.source, edge.destination]) ++
    snapshot.aliases.flatMap fun saved => [saved.port, saved.target]

-- What documents can hold: indices of 64 bits, and those numbers of either width that
-- satisfy the tests.
structure Legible (double : Float → Prop) (single : Float32 → Prop) (snapshot : Snapshot) :
    Prop where
  index_lt : ∀ ref ∈ snapshot.refs, ref.index < 2 ^ 64
  coordinates : ∀ x ∈ snapshot.coordinates, single x
  numbers : ∀ value ∈ snapshot.values, ∀ x ∈ value.numbers, double x

namespace Legible

variable {double : Float → Prop} {single : Float32 → Prop} {snapshot : Snapshot}

theorem mono {double' : Float → Prop} {single' : Float32 → Prop}
    (h : snapshot.Legible double single) (hdouble : ∀ x, double x → double' x)
    (hsingle : ∀ x, single x → single' x) : snapshot.Legible double' single' :=
  ⟨h.index_lt, fun x hx => hsingle x (h.coordinates x hx),
    fun value hvalue x hx => hdouble x (h.numbers value hvalue x hx)⟩

theorem node (h : snapshot.Legible double single) {node : SavedNode}
    (hnode : node ∈ snapshot.nodes) :
    (∀ x ∈ node.coordinates, single x) ∧ ∀ value ∈ node.values, ∀ x ∈ value.numbers, double x :=
  ⟨fun x hx => h.coordinates x (List.mem_flatMap.mpr ⟨node, hnode, hx⟩),
    fun value hvalue => h.numbers value (List.mem_flatMap.mpr ⟨node, hnode, hvalue⟩)⟩

theorem edge (h : snapshot.Legible double single) {edge : SavedEdge}
    (hedge : edge ∈ snapshot.edges) :
    edge.source.index < 2 ^ 64 ∧ edge.destination.index < 2 ^ 64 := by
  have hmem := fun ref (href : ref ∈ [edge.source, edge.destination]) =>
    h.index_lt ref (List.mem_append_left _ (List.mem_flatMap.mpr ⟨edge, hedge, href⟩))
  exact ⟨hmem _ (by simp), hmem _ (by simp)⟩

theorem saved (h : snapshot.Legible double single) {saved : SavedAlias}
    (hsaved : saved ∈ snapshot.aliases) :
    saved.port.index < 2 ^ 64 ∧ saved.target.index < 2 ^ 64 := by
  have hmem := fun ref (href : ref ∈ [saved.port, saved.target]) =>
    h.index_lt ref (List.mem_append_right _ (List.mem_flatMap.mpr ⟨saved, hsaved, href⟩))
  exact ⟨hmem _ (by simp), hmem _ (by simp)⟩

end Legible

end Snapshot

section Legible

open Dataflow.Tree

variable {double : Float → Prop} {single : Float32 → Prop}

theorem Position.legible_toTree {position : Position} (hx : single position.x)
    (hy : single position.y) : position.toTree.Legible double single :=
  ⟨hx, hy, trivial⟩

theorem SavedNode.legible_of_mem_flagsField {name : String} {flags : List Flags}
    {field : String × Tree} (h : field ∈ flagsField name flags) :
    field.2.Legible double single := by
  rw [flagsField] at h
  split at h
  · cases h
  · obtain rfl := List.mem_singleton.mp h
    rw [Legible, legibleAll_iff]
    intro item hitem
    obtain ⟨f, -, rfl⟩ := List.mem_map.mp hitem
    have hlt := f.bits_lt
    exact ⟨by omega, by omega⟩

theorem SavedNode.legible_of_mem_parentField {parent : Option Uuid} {field : String × Tree}
    (h : field ∈ parentField parent) : field.2.Legible double single := by
  cases parent with
  | none => cases h
  | some uuid =>
      obtain rfl := List.mem_singleton.mp h
      exact trivial

theorem SavedNode.legible_toTree {node : SavedNode}
    (hcoordinates : ∀ x ∈ node.coordinates, single x)
    (hnumbers : ∀ value ∈ node.values, ∀ x ∈ value.numbers, double x) :
    node.toTree.Legible double single := by
  rw [toTree, legible_record_iff]
  simp only [List.mem_append, List.mem_cons, List.not_mem_nil, or_false]
  rintro field ((((rfl | rfl | rfl | rfl) | hfield) | hfield) | hfield)
  · exact trivial
  · exact trivial
  · exact Position.legible_toTree (hcoordinates _ List.mem_cons_self)
      (hcoordinates _ (List.mem_cons_of_mem _ List.mem_cons_self))
  · rw [legible_record_iff, List.forall_mem_map]
    exact fun entry hentry => legible_ofNestedValue entry.2
      (hnumbers entry.2 (List.mem_map.mpr ⟨entry, hentry, rfl⟩))
  · exact legible_of_mem_parentField hfield
  · exact legible_of_mem_flagsField hfield
  · exact legible_of_mem_flagsField hfield

theorem SavedEdge.legible_toTree {edge : SavedEdge} (hsource : edge.source.index < 2 ^ 64)
    (hdest : edge.destination.index < 2 ^ 64) : edge.toTree.Legible double single := by
  rw [toTree, legible_record_iff]
  simp only [List.mem_cons, List.not_mem_nil, or_false]
  rintro field (rfl | rfl | rfl | rfl)
  · exact trivial
  · exact ⟨by omega, by omega⟩
  · exact trivial
  · exact ⟨by omega, by omega⟩

theorem SavedAlias.legible_toTree {saved : SavedAlias} (hport : saved.port.index < 2 ^ 64)
    (htarget : saved.target.index < 2 ^ 64) : saved.toTree.Legible double single := by
  rw [toTree, legible_record_iff]
  simp only [List.mem_cons, List.not_mem_nil, or_false]
  rintro field (rfl | rfl | rfl | rfl | rfl)
  · exact trivial
  · exact trivial
  · exact ⟨by omega, by omega⟩
  · exact trivial
  · exact ⟨by omega, by omega⟩

theorem Snapshot.legible_toTree {snapshot : Snapshot} (h : snapshot.Legible double single) :
    snapshot.toTree.Legible double single := by
  have hseq : ∀ {α : Type} {write : α → Tree} {xs : List α},
      (∀ x ∈ xs, (write x).Legible double single) → (seq (xs.map write)).Legible double single := by
    intro α write xs h
    rw [Tree.Legible, legibleAll_iff, List.forall_mem_map]
    exact h
  rw [toTree, legible_record_iff]
  simp only [List.mem_cons, List.not_mem_nil, or_false]
  rintro field (rfl | rfl | rfl)
  · exact hseq fun node hnode => SavedNode.legible_toTree (h.node hnode).1 (h.node hnode).2
  · exact hseq fun edge hedge => SavedEdge.legible_toTree (h.edge hedge).1 (h.edge hedge).2
  · exact hseq fun saved hsaved => SavedAlias.legible_toTree (h.saved hsaved).1 (h.saved hsaved).2

end Legible

section Shown

open Source

variable {place : Type} [Source place] {double : Float → Prop} {single : Float32 → Prop}
  {at_ : Nat → Tree → place}

theorem Position.read_shown (hs : Shows double single at_) {position : Position}
    (hx : single position.x) (hy : single position.y) (n : Nat) :
    Position.read (at_ (n + 1) position.toTree) = pure position := by
  rw [Position.read, Position.toTree, hs.items, pure_bind]
  simp only [List.map_cons, List.map_nil, hs.single _ _ hx, hs.single _ _ hy, pure_bind]

theorem Source.uuid_shown (hs : Shows double single at_) (uuid : Uuid) (n : Nat) :
    Source.uuid (at_ n (.text uuid.toText)) = pure uuid := by
  rw [Source.uuid, hs.text, pure_bind, Uuid.ofText?_toText]
  rfl

theorem Source.direction_shown (hs : Shows double single at_) (direction : Direction) (n : Nat) :
    Source.direction (at_ n (.text direction.name)) = pure direction := by
  rw [Source.direction, hs.variant, pure_bind, Direction.ofName?_name]
  rfl

theorem Source.flags_shown (hs : Shows double single at_) (flags : Flags) (n : Nat) :
    Source.flags (at_ n (.int flags.bits)) = pure flags := by
  have hlt := flags.bits_lt
  rw [Source.flags, hs.natural n flags.bits (by omega), pure_bind, if_pos hlt, Flags.ofBits_bits]

theorem Source.flagsList_shown (hs : Shows double single at_) (flags : List Flags) (n : Nat) :
    Source.list Source.flags (at_ (n + 1) (.seq (flags.map fun f => .int f.bits))) =
      pure flags :=
  list_all_shown hs flags fun f _ => flags_shown hs f n

theorem SavedEdge.read_shown (hs : Shows double single at_) {edge : SavedEdge}
    (hsource : edge.source.index < 2 ^ 64) (hdest : edge.destination.index < 2 ^ 64) (n : Nat) :
    SavedEdge.read (at_ (n + 1) edge.toTree) = pure edge := by
  rw [SavedEdge.read, SavedEdge.toTree, hs.fields _ _ _ (by simp), pure_bind]
  simp only [List.map_cons, List.map_nil, List.lookup, String.reduceBEq, Option.map_some,
    required_some, uuid_shown hs, hs.natural _ _ hsource, hs.natural _ _ hdest, pure_bind]

theorem SavedAlias.read_shown (hs : Shows double single at_) {saved : SavedAlias}
    (hport : saved.port.index < 2 ^ 64) (htarget : saved.target.index < 2 ^ 64) (n : Nat) :
    SavedAlias.read (at_ (n + 1) saved.toTree) = pure saved := by
  rw [SavedAlias.read, SavedAlias.toTree, hs.fields _ _ _ (by simp), pure_bind]
  simp only [List.map_cons, List.map_nil, List.lookup, String.reduceBEq, Option.map_some,
    required_some, uuid_shown hs, direction_shown hs, hs.natural _ _ hport,
    hs.natural _ _ htarget, pure_bind]

theorem Source.nested_shown (hs : Shows double single at_) {nested : Nested Value}
    (htriples : nested.tripleFree = true) (hnumbers : ∀ x ∈ nested.numbers, double x) (n : Nat) :
    Source.nested (at_ n (.ofNestedValue nested)) =
      if (Tree.ofNestedValue nested).depth ≤ n then pure nested else Reading.refuse := by
  rw [Source.nested, hs.tree n _ (Tree.legible_ofNestedValue nested hnumbers)]
  split
  · rw [pure_bind, (Tree.toNested?_ofNestedValue_iff nested).mpr htriples]
    rfl
  · rfl

-- Properties that a place has room for read back in full.
theorem Source.properties_shown (hs : Shows double single at_) {properties : Properties}
    (htriples : ∀ entry ∈ properties.entries, entry.2.tripleFree = true)
    (hnumbers : ∀ entry ∈ properties.entries, ∀ x ∈ entry.2.numbers, double x) (n : Nat) :
    Source.properties (at_ (n + 1) (.record (properties.entries.map fun entry =>
        (entry.1, .ofNestedValue entry.2)))) =
      if ∀ entry ∈ properties.entries, (Tree.ofNestedValue entry.2).depth ≤ n then
        pure properties
      else Reading.refuse := by
  rw [Source.properties, hs.entries, pure_bind, List.map_map]
  rw [mapM_guarded (fun entry => (Tree.ofNestedValue entry.2).depth ≤ n)
    properties.entries]
  · split
    · rw [pure_bind, Properties.ofList_entries]
    · rfl
  · intro entry hentry
    simp only [Function.comp_apply, nested_shown hs (htriples entry hentry)
      (hnumbers entry hentry)]
    split
    · rw [pure_bind]
    · rfl

-- A list of flags that is left out when it is empty.
theorem Source.optionalFlags_shown (hs : Shows double single at_) (flags : List Flags) (n : Nat) :
    Source.orElse [] (Source.list Source.flags)
        (if flags.isEmpty then none
          else some (at_ (n + 1) (.seq (flags.map fun f => .int f.bits)))) = pure flags := by
  cases flags with
  | nil => rfl
  | cons f rest => exact flagsList_shown hs (f :: rest) n

theorem SavedNode.optionalParent_shown (hs : Shows double single at_) (parent : Option Uuid)
    (n : Nat) :
    Source.orElse none SavedNode.readParent
      (parent.map fun uuid => at_ n (.text uuid.toText)) = pure parent := by
  cases parent with
  | none => rfl
  | some uuid =>
      rw [Option.map_some, orElse_some, SavedNode.readParent, hs.present, pure_bind]
      simp only [uuid_shown hs, pure_bind]

-- What stands under the fields of a node. The last three may be left out.
theorem SavedNode.fields_shown (hs : Shows double single at_) (node : SavedNode) (n : Nat) :
    Source.fields
        ["uuid", "type_tag", "position", "properties", "parent", "input_flags", "output_flags"]
        (at_ (n + 1) node.toTree) =
      pure
        [some (at_ n (.text node.uuid.toText)), some (at_ n (.text node.tag)),
          some (at_ n node.position.toTree),
          some (at_ n (.record (node.properties.entries.map fun entry =>
            (entry.1, .ofNestedValue entry.2)))),
          node.parent.map fun uuid => at_ n (.text uuid.toText),
          if node.inputFlags.isEmpty then none
            else some (at_ n (.seq (node.inputFlags.map fun f => .int f.bits))),
          if node.outputFlags.isEmpty then none
            else some (at_ n (.seq (node.outputFlags.map fun f => .int f.bits)))] := by
  obtain ⟨uuid, tag, position, properties, parent, inputFlags, outputFlags⟩ := node
  rw [SavedNode.toTree, hs.fields]
  · cases parent <;> cases inputFlags <;> cases outputFlags <;>
      simp [parentField, flagsField, List.lookup]
  · cases parent <;> cases inputFlags <;> cases outputFlags <;> simp [parentField, flagsField]

-- A node reads back if there is room for its properties: the record and the map of
-- properties take two levels.
theorem SavedNode.read_shown (hs : Shows double single at_) {node : SavedNode}
    (hcoordinates : ∀ x ∈ node.coordinates, single x)
    (htriples : ∀ value ∈ node.values, value.tripleFree = true)
    (hnumbers : ∀ value ∈ node.values, ∀ x ∈ value.numbers, double x) (n : Nat) :
    SavedNode.read (at_ (n + 2) node.toTree) =
      if ∀ value ∈ node.values, (Tree.ofNestedValue value).depth ≤ n then pure node
      else Reading.refuse := by
  have hposition := Position.read_shown hs (hcoordinates _ List.mem_cons_self)
    (hcoordinates _ (List.mem_cons_of_mem _ List.mem_cons_self)) n
  have hproperties := properties_shown hs (List.forall_mem_map.mp htriples)
    (List.forall_mem_map.mp hnumbers) n
  rw [SavedNode.read, SavedNode.fields_shown hs, pure_bind]
  simp only [required_some, uuid_shown hs, hs.text, orElse_some, hposition, hproperties,
    pure_bind, values, List.forall_mem_map]
  split
  · simp only [pure_bind, optionalParent_shown hs, optionalFlags_shown hs]
  · rfl

-- A document reads back if there is room for its properties, four levels down.
theorem Snapshot.read_shown (hs : Shows double single at_) {snapshot : Snapshot}
    (h : snapshot.Legible double single)
    (htriples : ∀ value ∈ snapshot.values, value.tripleFree = true) (n : Nat) :
    Snapshot.read (at_ (n + 4) snapshot.toTree) =
      if ∀ value ∈ snapshot.values, (Tree.ofNestedValue value).depth ≤ n then pure snapshot
      else Reading.refuse := by
  have hnodes := list_shown hs (n := n + 2) _ snapshot.nodes fun node hnode =>
    SavedNode.read_shown hs (h.node hnode).1
      (fun value hvalue => htriples value (List.mem_flatMap.mpr ⟨node, hnode, hvalue⟩))
      (h.node hnode).2 n
  have hedges : Source.list SavedEdge.read
      (at_ (n + 3) (.seq (snapshot.edges.map SavedEdge.toTree))) = pure snapshot.edges :=
    list_all_shown hs _ fun edge hedge =>
      SavedEdge.read_shown hs (h.edge hedge).1 (h.edge hedge).2 (n + 1)
  have haliases : Source.list SavedAlias.read
      (at_ (n + 3) (.seq (snapshot.aliases.map SavedAlias.toTree))) = pure snapshot.aliases :=
    list_all_shown hs _ fun saved hsaved =>
      SavedAlias.read_shown hs (h.saved hsaved).1 (h.saved hsaved).2 (n + 1)
  rw [Snapshot.read, Snapshot.toTree, hs.fields _ _ _ (by simp), pure_bind]
  simp only [List.map_cons, List.map_nil, List.lookup, String.reduceBEq, Option.map_some,
    required_some, orElse_some, hnodes, hedges, haliases, Snapshot.values, List.forall_mem_flatMap]
  split
  · simp only [pure_bind]
  · rfl

end Shown

end Dataflow
