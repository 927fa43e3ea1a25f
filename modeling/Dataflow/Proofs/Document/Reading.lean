import Dataflow.Proofs.Digits
import Dataflow.Proofs.Document.Shown
import Dataflow.Proofs.Nested
import Dataflow.Proofs.Properties

namespace Dataflow

-- The floating-point numbers of a value, each of double width.
def Value.numbers : Value → List Float
  | number x => [x]
  | point p => [p.x, p.y, p.z]
  | _ => []

namespace Nested

def numbers (nested : Nested Value) : List Float :=
  nested.leaves.flatMap Value.numbers

theorem numbers_list (children : List (Nested Value)) :
    (list children).numbers = children.flatMap numbers := by
  rw [numbers, leaves_list, List.flatMap_assoc]
  rfl

end Nested

namespace Tree

variable {double : Float → Prop} {single : Float32 → Prop}

theorem legible_ofValue (value : Value) (h : ∀ x ∈ value.numbers, double x) :
    (ofValue value).Legible double single := by
  cases value with
  | null => exact trivial
  | bool truth => exact trivial
  | int i =>
      have hmin := i.minValue_le_toInt
      have hmax := i.toInt_le
      rw [Int64.toInt_minValue] at hmin
      rw [Int64.toInt_maxValue] at hmax
      rw [ofValue, Legible]
      omega
  | number x => exact h x List.mem_cons_self
  | text s => exact trivial
  | point p =>
      rw [ofValue, legible_record_iff]
      intro field hfield
      simp only [List.mem_cons, List.not_mem_nil, or_false] at hfield
      rcases hfield with rfl | rfl | rfl
      · exact h _ (by simp [Value.numbers])
      · exact h _ (by simp [Value.numbers])
      · exact h _ (by simp [Value.numbers])

mutual
theorem legible_ofNestedValue (nested : Nested Value) (h : ∀ x ∈ nested.numbers, double x) :
    (ofNestedValue nested).Legible double single := by
  match nested with
  | .leaf value =>
      rw [ofNestedValue_leaf]
      exact legible_ofValue value fun x hx => h x (by simpa [Nested.numbers, Nested.leaves,
        Nested.pushLeaves] using hx)
  | .list children =>
      rw [ofNestedValue_list, Legible]
      refine legibleAll_ofNestedValue children fun x hx => h x ?_
      rwa [Nested.numbers_list]

theorem legibleAll_ofNestedValue (children : List (Nested Value))
    (h : ∀ x ∈ children.flatMap Nested.numbers, double x) :
    LegibleAll double single (children.map ofNestedValue) := by
  match children with
  | [] => exact trivial
  | child :: rest =>
      rw [List.flatMap_cons] at h
      exact ⟨legible_ofNestedValue child fun x hx => h x (List.mem_append_left _ hx),
        legibleAll_ofNestedValue rest fun x hx => h x (List.mem_append_right _ hx)⟩
end

end Tree

namespace Flags

theorem bits_lt (flags : Flags) : flags.bits < 256 := by
  obtain ⟨flatten, simplify, graft⟩ := flags
  cases flatten <;> cases simplify <;> cases graft <;> decide

theorem ofBits_bits (flags : Flags) : ofBits flags.bits = flags := by
  obtain ⟨flatten, simplify, graft⟩ := flags
  cases flatten <;> cases simplify <;> cases graft <;> rfl

end Flags

theorem Direction.ofName?_name (direction : Direction) :
    ofName? direction.name = some direction := by
  cases direction <;> rfl

end Dataflow
