import Dataflow.Template
import Mathlib.Data.List.Nodup

namespace Dataflow.Template

-- The ports of a template at one end.
def side (template : Template) : Direction → List PortSpec
  | .input => template.inputs
  | .output => template.outputs

-- Units that address existing ports only, each computing an output of its own that is
-- not among those seen before.
def Sane (inputs outputs : Nat) (seen : List Nat) (units : List EvalUnit) : Prop :=
  (∀ unit ∈ units, unit.output < outputs ∧ unit.output ∉ seen ∧ ∀ i ∈ unit.inputs, i < inputs) ∧
    (units.map (·.output)).Nodup

theorem firstFault_eq_none_iff (inputs outputs : Nat) (seen : List Nat) (units : List EvalUnit) :
    firstFault inputs outputs seen units = none ↔ Sane inputs outputs seen units := by
  induction units generalizing seen with
  | nil => simp [firstFault, Sane]
  | cons unit rest ih =>
      simp only [firstFault]
      split
      · next h =>
        simp only [reduceCtorEq, false_iff]
        intro hs
        exact absurd (hs.1 unit (by simp)).1 (Nat.not_lt.mpr h)
      · next hout =>
        split
        · next h =>
          simp only [reduceCtorEq, false_iff]
          intro hs
          exact (hs.1 unit (by simp)).2.1 h
        · next hseen =>
          cases hf : unit.inputs.find? fun input => inputs ≤ input with
          | some input =>
              simp only [reduceCtorEq, false_iff]
              intro hs
              have hle : inputs ≤ input := by simpa using List.find?_some hf
              have hlt := (hs.1 unit (by simp)).2.2 input (List.mem_of_find?_eq_some hf)
              omega
          | none =>
              have hin : ∀ i ∈ unit.inputs, i < inputs := by
                simpa using List.find?_eq_none.mp hf
              simp only [ih]
              simp only [Sane, List.mem_cons, forall_eq_or_imp, List.map_cons, List.nodup_cons,
                List.mem_map, not_exists, not_and, not_or]
              constructor
              · rintro ⟨hall, hn⟩
                refine ⟨⟨⟨Nat.lt_of_not_le hout, hseen, hin⟩, ?_⟩, ?_, hn⟩
                · intro u hu
                  exact ⟨(hall u hu).1, (hall u hu).2.1.2, (hall u hu).2.2⟩
                · intro u hu he
                  exact (hall u hu).2.1.1 he
              · rintro ⟨⟨-, hall⟩, hne, hn⟩
                refine ⟨?_, hn⟩
                intro u hu
                exact ⟨(hall u hu).1, ⟨hne u hu, (hall u hu).2.1⟩, (hall u hu).2.2⟩

theorem fault?_eq_none_iff (template : Template) :
    template.fault? = none ↔
      (∀ unit ∈ template.units, unit.output < template.outputs.length ∧
        ∀ i ∈ unit.inputs, i < template.inputs.length) ∧
      (template.units.map (·.output)).Nodup := by
  rw [fault?, firstFault_eq_none_iff]
  simp [Sane]

end Dataflow.Template
