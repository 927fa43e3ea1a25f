import Dataflow.Document.Tree
import Dataflow.Proofs.Nested
import Mathlib

namespace Dataflow

def Value.isNumber : Value → Bool
  | int _ | number _ => true
  | _ => false

namespace Nested

def isNumber : Nested Value → Bool
  | leaf value => value.isNumber
  | list _ => false

-- A list of exactly three numbers, which is also how a point may be written.
def isTriple : Nested Value → Bool
  | list [a, b, c] => a.isNumber && b.isNumber && c.isNumber
  | _ => false

mutual
-- Whether no list of exactly three numbers stands anywhere inside.
def tripleFree : Nested Value → Bool
  | leaf _ => true
  | list children => !(list children).isTriple && allTripleFree children

def allTripleFree : List (Nested Value) → Bool
  | [] => true
  | child :: rest => tripleFree child && allTripleFree rest
end

theorem isNumber_iff {nested : Nested Value} :
    nested.isNumber = true ↔ ∃ value : Value, nested = leaf value ∧ value.isNumber = true := by
  cases nested with
  | leaf value => exact ⟨fun h => ⟨value, rfl, h⟩, fun ⟨_, heq, h⟩ => leaf.inj heq ▸ h⟩
  | list children => exact ⟨nofun, nofun⟩

theorem isTriple_iff {nested : Nested Value} :
    nested.isTriple = true ↔ ∃ a b c : Value, nested = list [leaf a, leaf b, leaf c] ∧
      a.isNumber = true ∧ b.isNumber = true ∧ c.isNumber = true := by
  constructor
  · intro h
    unfold isTriple at h
    split at h
    · simp only [Bool.and_eq_true, isNumber_iff] at h
      obtain ⟨⟨⟨a, rfl, ha⟩, b, rfl, hb⟩, c, rfl, hc⟩ := h
      exact ⟨a, b, c, rfl, ha, hb, hc⟩
    · cases h
  · rintro ⟨a, b, c, rfl, ha, hb, hc⟩
    rw [isTriple, isNumber, isNumber, isNumber, ha, hb, hc]
    rfl

theorem allTripleFree_iff {children : List (Nested Value)} :
    allTripleFree children = true ↔ ∀ child ∈ children, child.tripleFree = true := by
  induction children with
  | nil => simp [allTripleFree]
  | cons child rest ih => rw [allTripleFree, Bool.and_eq_true, ih, List.forall_mem_cons]

theorem leaf_of_isTriple {children : List (Nested Value)} {child : Nested Value}
    (h : (list children).isTriple = true) (hchild : child ∈ children) :
    ∃ value, child = leaf value := by
  obtain ⟨a, b, c, heq, -⟩ := isTriple_iff.mp h
  obtain rfl := list.inj heq
  simp only [List.mem_cons, List.not_mem_nil, or_false] at hchild
  rcases hchild with rfl | rfl | rfl <;> exact ⟨_, rfl⟩

-- What is read where something was written: a leaf as it was, a list of exactly three
-- numbers as the point with these coordinates, and any other list as one of as many children.
inductive ReadsAs : Nested Value → Nested Value → Prop where
  | leaf (value : Value) : ReadsAs (leaf value) (leaf value)
  | triple {a b c : Value} {point : Point} (ha : a.isNumber = true) (hb : b.isNumber = true)
      (hc : c.isNumber = true) (hx : a.toFloat? = some point.x) (hy : b.toFloat? = some point.y)
      (hz : c.toFloat? = some point.z) :
      ReadsAs (list [.leaf a, .leaf b, .leaf c]) (.leaf (.point point))
  | list {children others : List (Nested Value)} (htriple : (list children).isTriple = false)
      (hlength : others.length = children.length) : ReadsAs (list children) (list others)

end Nested

namespace Tree

@[simp]
theorem ofNestedAll_eq {α : Type} (leafTree : α → Tree) (done : List Tree)
    (children : List (Nested α)) :
    ofNestedAll leafTree done children = done.reverse ++ children.map (ofNested leafTree) := by
  induction children generalizing done with
  | nil => simp [ofNestedAll]
  | cons child rest ih => simp [ofNestedAll, ih]

theorem ofNestedValue_leaf (value : Value) : ofNestedValue (.leaf value) = ofValue value := by
  rw [ofNestedValue, ofNested]

theorem ofNestedValue_list (children : List (Nested Value)) :
    ofNestedValue (.list children) = seq (children.map ofNestedValue) := by
  simp only [ofNestedValue, ofNested, ofNestedAll_eq, List.reverse_nil, List.nil_append]

theorem toNestedAll?_cons_eq_some {item : Tree} {rest : List Tree}
    {all : List (Nested Value)} :
    toNestedAll? (item :: rest) = some all ↔
      ∃ nested others, toNested? item = some nested ∧ toNestedAll? rest = some others ∧
        all = nested :: others := by
  simp only [toNestedAll?]
  constructor
  · intro h
    split at h
    · rename_i nested others hn ho
      exact ⟨nested, others, hn, ho, (Option.some.inj h).symm⟩
    · cases h
  · rintro ⟨nested, others, hn, ho, rfl⟩
    rw [hn, ho]

theorem toFloat?_ofNestedValue (nested : Nested Value) :
    (ofNestedValue nested).toFloat?.isSome = nested.isNumber := by
  cases nested with
  | leaf value =>
      rw [ofNestedValue_leaf]
      cases value <;> rfl
  | list children =>
      rw [ofNestedValue_list]
      rfl

theorem toPoint?_seq (a b c : Tree) :
    ((seq [a, b, c]).toPoint?).isSome =
      (a.toFloat?.isSome && b.toFloat?.isSome && c.toFloat?.isSome) := by
  simp only [toPoint?]
  cases a.toFloat? <;> cases b.toFloat? <;> cases c.toFloat? <;> rfl

-- A list is taken for a point just if it is one of exactly three numbers.
theorem toValue?_ofNestedValue_list (children : List (Nested Value)) :
    (ofNestedValue (.list children)).toValue?.isSome = (Nested.list children).isTriple := by
  rw [ofNestedValue_list]
  match children with
  | [] => rfl
  | [_] => rfl
  | [_, _] => rfl
  | [a, b, c] =>
      simp only [toValue?, List.map, Option.isSome_map, toPoint?_seq, toFloat?_ofNestedValue,
        Nested.isTriple]
  | _ :: _ :: _ :: _ :: _ => rfl

theorem toNested?_seq {items : List Tree} (h : (seq items).toValue? = none) :
    toNested? (seq items) = (toNestedAll? items).map .list := by
  rw [toNested?, h]

theorem toNested?_ofValue (value : Value) :
    toNested? (ofValue value) = some (.leaf value) := by
  cases value with
  | null => rfl
  | bool truth => rfl
  | int i =>
      have hmin := i.minValue_le_toInt
      have hmax := i.toInt_le
      have hrange : Int64.minValue.toInt ≤ i.toInt ∧ i.toInt ≤ Int64.maxValue.toInt :=
        ⟨hmin, hmax⟩
      simp only [ofValue, toNested?, toValue?, hrange, and_self, if_true, Option.map_some,
        Int64.ofInt_toInt]
  | number x => rfl
  | text s => rfl
  | point p => rfl

theorem toFloat?_ofValue {value : Value} (h : value.isNumber = true) :
    ∃ x, (ofValue value).toFloat? = some x ∧ value.toFloat? = some x := by
  cases value with
  | int i => exact ⟨_, rfl, rfl⟩
  | number x => exact ⟨x, rfl, rfl⟩
  | null | bool | text | point => cases h

-- Three numbers are read as the point with these coordinates.
theorem toNested?_of_isTriple {nested : Nested Value} (h : nested.isTriple = true) :
    ∃ point : Point, toNested? (ofNestedValue nested) = some (.leaf (.point point)) ∧
      nested.ReadsAs (.leaf (.point point)) := by
  obtain ⟨a, b, c, rfl, ha, hb, hc⟩ := Nested.isTriple_iff.mp h
  obtain ⟨x, hx, hx'⟩ := toFloat?_ofValue ha
  obtain ⟨y, hy, hy'⟩ := toFloat?_ofValue hb
  obtain ⟨z, hz, hz'⟩ := toFloat?_ofValue hc
  refine ⟨⟨x, y, z⟩, ?_, .triple ha hb hc hx' hy' hz'⟩
  have hpoint : (seq [ofValue a, ofValue b, ofValue c]).toPoint? = some ⟨x, y, z⟩ := by
    rw [toPoint?, hx, hy, hz]
    rfl
  have hvalue : (seq [ofValue a, ofValue b, ofValue c]).toValue? = some (.point ⟨x, y, z⟩) := by
    simp only [toValue?, hpoint, Option.map_some]
  simp only [ofNestedValue_list, List.map_cons, List.map_nil, ofNestedValue_leaf]
  rw [toNested?, hvalue]

theorem toNested?_leaf (value : Value) :
    toNested? (ofNestedValue (.leaf value)) = some (.leaf value) := by
  rw [ofNestedValue_leaf, toNested?_ofValue]

theorem toNestedAll?_map {children : List (Nested Value)} {read : Nested Value → Nested Value}
    (h : ∀ child ∈ children, toNested? (ofNestedValue child) = some (read child)) :
    toNestedAll? (children.map ofNestedValue) = some (children.map read) := by
  induction children with
  | nil => rfl
  | cons child rest ih =>
      obtain ⟨hchild, hrest⟩ := List.forall_mem_cons.mp h
      rw [List.map_cons, toNestedAll?_cons_eq_some]
      exact ⟨_, _, hchild, ih hrest, rfl⟩

theorem toNested?_list {children : List (Nested Value)} {read : Nested Value → Nested Value}
    (htriple : (Nested.list children).isTriple = false)
    (h : ∀ child ∈ children, toNested? (ofNestedValue child) = some (read child)) :
    toNested? (ofNestedValue (.list children)) = some (.list (children.map read)) := by
  have hvalue := toValue?_ofNestedValue_list children
  rw [htriple, Option.isSome_eq_false_iff, Option.isNone_iff_eq_none] at hvalue
  rw [ofNestedValue_list] at hvalue ⊢
  rw [toNested?_seq hvalue, toNestedAll?_map h, Option.map_some]

end Tree

namespace Nested

-- What a value is read back as once it is written.
def reread (nested : Nested Value) : Nested Value :=
  (Tree.toNested? (Tree.ofNestedValue nested)).getD nested

theorem reread_of_eq {nested other : Nested Value}
    (h : Tree.toNested? (Tree.ofNestedValue nested) = some other) : nested.reread = other := by
  rw [reread, h, Option.getD_some]

theorem reread_leaf (value : Value) : (leaf value).reread = leaf value :=
  reread_of_eq (Tree.toNested?_leaf value)

end Nested

namespace Tree

-- Every written value can be read.
theorem toNested?_ofNestedValue (nested : Nested Value) :
    toNested? (ofNestedValue nested) = some nested.reread := by
  induction nested with
  | leaf value => rw [toNested?_leaf, Nested.reread_leaf]
  | list children ih =>
      cases htriple : (Nested.list children).isTriple with
      | true =>
          obtain ⟨point, hread, -⟩ := toNested?_of_isTriple htriple
          rw [hread, Nested.reread_of_eq hread]
      | false =>
          have hread := toNested?_list htriple ih
          rw [hread, Nested.reread_of_eq hread]

end Tree

namespace Nested

variable {nested : Nested Value} {children : List (Nested Value)}

theorem reread_list (h : (list children).isTriple = false) :
    (list children).reread = list (children.map reread) :=
  reread_of_eq (Tree.toNested?_list h fun child _ => Tree.toNested?_ofNestedValue child)

-- Where the nesting is the same, no list was taken for a point.
theorem tripleFree_of_blank (h : nested.reread.blank = nested.blank) :
    nested.tripleFree = true := by
  induction nested with
  | leaf value => rw [tripleFree]
  | list children ih =>
      cases htriple : (list children).isTriple with
      | true =>
          obtain ⟨point, hread, -⟩ := Tree.toNested?_of_isTriple htriple
          rw [reread_of_eq hread, blank_list] at h
          cases h
      | false =>
          rw [reread_list htriple, blank_list, blank_list, List.map_map] at h
          rw [tripleFree, htriple, Bool.not_false, Bool.true_and, allTripleFree_iff]
          exact fun child hchild => ih child hchild (List.map_inj_left.mp (list.inj h) child hchild)

theorem reread_of_tripleFree (h : nested.tripleFree = true) : nested.reread = nested := by
  induction nested with
  | leaf value => exact reread_leaf value
  | list children ih =>
      rw [tripleFree, Bool.and_eq_true, Bool.not_eq_true', allTripleFree_iff] at h
      obtain ⟨htriple, hchildren⟩ := h
      rw [reread_list htriple,
        List.map_congr_left fun child hchild => ih child hchild (hchildren child hchild),
        List.map_id']

-- A value survives being written and read just if it holds no list of exactly three
-- numbers: that one reads back as a point.
theorem reread_eq_iff : nested.reread = nested ↔ nested.tripleFree = true :=
  ⟨fun h => tripleFree_of_blank (congrArg blank h), reread_of_tripleFree⟩

end Nested

theorem Tree.toNested?_ofNestedValue_iff (nested : Nested Value) :
    toNested? (ofNestedValue nested) = some nested ↔ nested.tripleFree = true := by
  rw [toNested?_ofNestedValue, Option.some.injEq, Nested.reread_eq_iff]

end Dataflow
