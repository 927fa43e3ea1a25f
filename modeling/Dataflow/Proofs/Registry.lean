import Dataflow.Proofs.Properties
import Dataflow.Proofs.Template
import Dataflow.Registry

namespace Dataflow

-- What a port has from the beginning and keeps: its name, its type and its default.
def PortSpec.look (spec : PortSpec) : String × ValueType × Option (Nested Value) :=
  (spec.name, spec.type, spec.default)

namespace Template

def Unflagged (template : Template) : Prop :=
  ∀ direction, ∀ spec ∈ template.side direction, spec.flags = .none

-- Templates of nodes whose ports look the same, and which compute the same.
structure Kindred (a b : Template) : Prop where
  tag : a.tag = b.tag
  units : a.units = b.units
  looks : ∀ direction, (a.side direction).map (·.look) = (b.side direction).map (·.look)

end Template

namespace Catalogue

-- A kind whose nodes differ in their properties only.
structure Uniform (type : NodeType) (base : Template) : Prop where
  builds : ∀ given, type.build given =
    .ok { base with tag := type.metadata.id, properties := given }
  unflagged : base.Unflagged
  sound : base.fault? = none

theorem Uniform.of_describe {id name category description : String} {base : Template}
    (hproperties : base.properties = .empty) (hunflagged : base.Unflagged)
    (hsound : base.fault? = none) :
    Uniform (.describe id name category description fun _ => .ok base) base where
  builds given := by
    show Except.ok (base.configured id given) = _
    rw [Template.configured, hproperties]
    congr 2
    exact Properties.ofList_entries given
  unflagged := hunflagged
  sound := hsound

-- All built-in kinds but one are of that sort.
theorem eq_group_or_uniform {type : NodeType} (h : type ∈ all) :
    type = group ∨ ∃ base, Uniform type base := by
  have hnumbers : ∀ (f : Float → Float → Except EvalError Float) (operation : String)
      (default : Float) (name category description : String), ∃ base, Uniform
        (.describe operation name category description (binary operation default f)) base :=
    fun f operation default _ _ _ => ⟨_, .of_describe rfl (by
      intro direction
      cases direction <;> simp [Template.side, PortSpec.number, PortSpec.plain]) rfl⟩
  simp only [all, List.mem_cons, List.not_mem_nil, or_false] at h
  rcases h with rfl | rfl | rfl | rfl | rfl | rfl | rfl | rfl | rfl | rfl
  case inr.inr.inr.inr.inr.inr.inr.inr.inr => exact .inl rfl
  case inr.inr.inl | inr.inr.inr.inl | inr.inr.inr.inr.inl | inr.inr.inr.inr.inr.inl =>
    exact .inr (hnumbers _ _ _ _ _ _)
  all_goals
    refine .inr ⟨_, .of_describe rfl ?_ rfl⟩
    intro direction
    cases direction <;> simp [Template.side, PortSpec.number, PortSpec.plain]

-- The properties that a group has of itself.
def groupCounts (inputs outputs : Nat) : Properties :=
  .ofList
    [("inputs", .leaf (.int (Int64.ofNat inputs))), ("outputs", .leaf (.int (Int64.ofNat outputs)))]

-- The one kind whose ports depend on its properties.
def groupOf (inputs outputs : Nat) (given : Properties) : Template where
  tag := "group"
  inputs := numberedPorts "in" inputs
  outputs := numberedPorts "out" outputs
  units := []
  properties := (groupCounts inputs outputs).insertAll given.entries

theorem build_group_eq_ok_iff {given : Properties} {template : Template} :
    group.build given = .ok template ↔ ∃ inputs outputs, portCount given "inputs" = .ok inputs ∧
      portCount given "outputs" = .ok outputs ∧ template = groupOf inputs outputs given := by
  have hbuild : group.build given = (groupTemplate given).map (·.configured "group" given) := rfl
  rw [hbuild, groupTemplate]
  cases portCount given "inputs" with
  | error e => simp [bind, Except.bind, Except.map]
  | ok inputs =>
      cases portCount given "outputs" with
      | error e => simp [bind, Except.bind, Except.map]
      | ok outputs =>
          constructor
          · intro h
            exact ⟨inputs, outputs, rfl, rfl, (Except.ok.inj h).symm⟩
          · rintro ⟨_, _, hinputs, houtputs, rfl⟩
            obtain rfl := Except.ok.inj hinputs
            obtain rfl := Except.ok.inj houtputs
            rfl

theorem unflagged_groupOf (inputs outputs : Nat) (given : Properties) :
    (groupOf inputs outputs given).Unflagged := by
  intro direction spec hspec
  cases direction <;>
    · simp only [Template.side, groupOf, numberedPorts, List.mem_map] at hspec
      obtain ⟨i, -, rfl⟩ := hspec
      rfl

theorem find?_groupCounts (inputs outputs : Nat) (key : String) :
    (groupCounts inputs outputs).find? key =
      if key = "inputs" then some (.leaf (.int (Int64.ofNat inputs)))
      else if key = "outputs" then some (.leaf (.int (Int64.ofNat outputs))) else none := by
  rw [groupCounts, Properties.ofList, Properties.find?_insertAll _ (by simp)]
  by_cases hin : key = "inputs"
  · simp [hin]
  · by_cases hout : key = "outputs"
    · simp [hout]
    · simp [hin, hout, Ne.symm hin, Ne.symm hout, Properties.empty, Properties.find?]

theorem isSome_find?_groupCounts (inputs outputs : Nat) (key : String) :
    ((groupCounts inputs outputs).find? key).isSome =
      decide (key = "inputs" ∨ key = "outputs") := by
  rw [find?_groupCounts]
  by_cases hin : key = "inputs"
  · simp [hin]
  · by_cases hout : key = "outputs" <;> simp [hin, hout]

-- A group has as many ports as its properties say, also where the number was not given.
theorem portCount_insertAll {base given : Properties} {key : String} {count : Nat}
    (h : portCount given key = .ok count)
    (hbase : base.find? key = some (.leaf (.int (Int64.ofNat count)))) :
    portCount (base.insertAll given.entries) key = .ok count := by
  rw [portCount, Properties.find?_insertAll_entries, hbase]
  rw [portCount] at h
  cases hgiven : given.find? key with
  | some value =>
      rw [hgiven] at h
      exact h
  | none =>
      rw [hgiven] at h
      obtain rfl := Except.ok.inj h
      rfl

theorem portCount_groupOf {inputs outputs : Nat} {given : Properties}
    (hinputs : portCount given "inputs" = .ok inputs)
    (houtputs : portCount given "outputs" = .ok outputs) :
    portCount (groupOf inputs outputs given).properties "inputs" = .ok inputs ∧
      portCount (groupOf inputs outputs given).properties "outputs" = .ok outputs :=
  ⟨portCount_insertAll hinputs (by simp [find?_groupCounts]),
    portCount_insertAll houtputs (by simp [find?_groupCounts])⟩

theorem length_groupOf (inputs outputs : Nat) (given : Properties) :
    (groupOf inputs outputs given).inputs.length = inputs ∧
      (groupOf inputs outputs given).outputs.length = outputs := by
  simp [groupOf, numberedPorts]

end Catalogue

namespace Registry

theorem types_foldl_register {types : List NodeType} (registry : Registry)
    (hlower : ∀ type ∈ types, Text.lowerCase type.metadata.id = type.metadata.id)
    (hn : (registry.types.map (·.1) ++ types.map (·.metadata.id)).Nodup) :
    (types.foldl (fun registry type => registry.register type.metadata.id type) registry).types =
      registry.types ++ types.map fun type => (type.metadata.id, type) := by
  induction types generalizing registry with
  | nil => simp
  | cons type rest ih =>
      have hnew : (registry.register type.metadata.id type).types =
          registry.types ++ [(type.metadata.id, type)] := by
        simp only [register, hlower type List.mem_cons_self]
        congr 1
        rw [List.filter_eq_self]
        intro entry hentry
        have hne := (List.nodup_append.mp hn).2.2 entry.1 (List.mem_map_of_mem hentry)
          type.metadata.id (by simp)
        simpa using hne
      rw [List.foldl_cons, ih _ (fun t ht => hlower t (List.mem_cons_of_mem _ ht)), hnew]
      · simp
      · rw [hnew]
        simpa using hn

theorem lowerCase_id {type : NodeType} (h : type ∈ Catalogue.all) :
    Text.lowerCase type.metadata.id = type.metadata.id := by
  have hall : ∀ type ∈ Catalogue.all, Text.lowerCase type.metadata.id = type.metadata.id := by
    decide
  exact hall type h

theorem ids_nodup : (Catalogue.all.map (·.metadata.id)).Nodup := by
  decide

theorem types_core : core.types = Catalogue.all.map fun type => (type.metadata.id, type) :=
  types_foldl_register empty (fun _ => lowerCase_id) ids_nodup

theorem find?_core_eq_some_iff {tag : String} {type : NodeType} :
    core.find? tag = some type ↔
      type ∈ Catalogue.all ∧ type.metadata.id = Text.lowerCase tag := by
  rw [find?, types_core, List.find?_map, Option.map_map, Option.map_eq_some_iff]
  constructor
  · rintro ⟨found, hfound, rfl⟩
    exact ⟨List.mem_of_find?_eq_some hfound, by simpa using List.find?_some hfound⟩
  · rintro ⟨hmem, hid⟩
    refine ⟨type, ?_, rfl⟩
    cases hfound : Catalogue.all.find? ((fun entry => decide (entry.1 = Text.lowerCase tag)) ∘
      fun type : NodeType => (type.metadata.id, type)) with
    | none => simpa [hid] using List.find?_eq_none.mp hfound type hmem
    | some found =>
        have heq : found.metadata.id = type.metadata.id := by
          rw [hid]
          simpa using List.find?_some hfound
        rw [List.inj_on_of_nodup_map ids_nodup (List.mem_of_find?_eq_some hfound) hmem heq]

theorem create_core_eq_ok_iff {tag : String} {given : Properties} {template : Template} :
    core.create tag given = .ok template ↔ ∃ type ∈ Catalogue.all,
      type.metadata.id = Text.lowerCase tag ∧ ∃ built, type.build given = .ok built ∧
        template = { built with tag := Text.lowerCase tag } := by
  rw [create]
  cases hfind : core.find? tag with
  | none =>
      constructor
      · intro h
        cases h
      · rintro ⟨type, hmem, hid, -⟩
        rw [find?_core_eq_some_iff.mpr ⟨hmem, hid⟩] at hfind
        cases hfind
  | some type =>
      obtain ⟨hmem, hid⟩ := find?_core_eq_some_iff.mp hfind
      simp only
      have honly : ∀ other ∈ Catalogue.all, other.metadata.id = Text.lowerCase tag → other = type :=
        fun other ho hid' => Option.some.inj
          ((find?_core_eq_some_iff.mpr ⟨ho, hid'⟩).symm.trans hfind)
      constructor
      · intro h
        cases hbuilt : type.build given with
        | error e =>
            rw [hbuilt] at h
            cases h
        | ok built =>
            rw [hbuilt] at h
            exact ⟨type, hmem, hid, built, hbuilt, (Except.ok.inj h).symm⟩
      · rintro ⟨other, ho, hid', built, hbuilt, rfl⟩
        rw [honly other ho hid'] at hbuilt
        rw [hbuilt]
        rfl

variable {tag : String} {given now : Properties} {template again : Template}

-- What is made is a group, or what its kind makes of any properties.
theorem cases_of_create (h : core.create tag given = .ok template) :
    (∃ inputs outputs,
      template = { Catalogue.groupOf inputs outputs given with tag := Text.lowerCase tag }) ∨
    ∃ type base, Catalogue.Uniform type base ∧
      template = { base with tag := Text.lowerCase tag, properties := given } := by
  obtain ⟨type, hmem, -, built, hbuilt, rfl⟩ := create_core_eq_ok_iff.mp h
  rcases Catalogue.eq_group_or_uniform hmem with rfl | ⟨base, hbase⟩
  · obtain ⟨inputs, outputs, -, -, rfl⟩ := Catalogue.build_group_eq_ok_iff.mp hbuilt
    exact .inl ⟨inputs, outputs, rfl⟩
  · obtain rfl := Except.ok.inj ((hbase.builds given).symm.trans hbuilt)
    exact .inr ⟨type, base, hbase, rfl⟩

theorem sound_of_create (h : core.create tag given = .ok template) : template.fault? = none := by
  rcases cases_of_create h with ⟨inputs, outputs, rfl⟩ | ⟨type, base, hbase, rfl⟩
  · rfl
  · exact hbase.sound

theorem unflagged_of_create (h : core.create tag given = .ok template) : template.Unflagged := by
  rcases cases_of_create h with ⟨inputs, outputs, rfl⟩ | ⟨type, base, hbase, rfl⟩
  · exact Catalogue.unflagged_groupOf inputs outputs given
  · exact hbase.unflagged

-- The tag of a template names the kind that it came from.
theorem kind_of_create (h : core.create tag given = .ok template) :
    ∃ type ∈ Catalogue.all, type.metadata.id = template.tag ∧
      Text.lowerCase template.tag = template.tag ∧
      ∃ built, type.build given = .ok built ∧ template = { built with tag := template.tag } := by
  obtain ⟨type, hmem, hid, built, hbuilt, rfl⟩ := create_core_eq_ok_iff.mp h
  exact ⟨type, hmem, hid, hid ▸ lowerCase_id hmem, built, hbuilt, rfl⟩

-- Templates made under the tag of another come from the same kind.
theorem kind_of_create_again (h : core.create tag given = .ok template)
    (h' : core.create template.tag now = .ok again) : again.tag = template.tag ∧
      ∃ type ∈ Catalogue.all, type.metadata.id = template.tag ∧
      (∃ built, type.build given = .ok built ∧ template = { built with tag := template.tag }) ∧
      ∃ built, type.build now = .ok built ∧ again = { built with tag := template.tag } := by
  obtain ⟨type, hmem, hid, hlower, hfirst⟩ := kind_of_create h
  obtain ⟨other, hmem', hid', built, hbuilt, rfl⟩ := create_core_eq_ok_iff.mp h'
  rw [hlower] at hid'
  obtain rfl := List.inj_on_of_nodup_map ids_nodup hmem hmem' (hid.trans hid'.symm)
  exact ⟨hlower, type, hmem, hid, hfirst, built, hbuilt, by rw [hlower]⟩

-- Made again from properties under the same keys at least, a template has just these.
theorem properties_of_create_again (h : core.create tag given = .ok template)
    (hkeys : ∀ key, (template.properties.find? key).isSome → (now.find? key).isSome)
    (h' : core.create template.tag now = .ok again) : again.properties = now := by
  obtain ⟨-, type, hmem, -, ⟨built, hbuilt, heq⟩, built', hbuilt', rfl⟩ :=
    kind_of_create_again h h'
  rcases Catalogue.eq_group_or_uniform hmem with rfl | ⟨base, hbase⟩
  · obtain ⟨inputs, outputs, -, -, rfl⟩ := Catalogue.build_group_eq_ok_iff.mp hbuilt
    obtain ⟨inputs', outputs', -, -, rfl⟩ := Catalogue.build_group_eq_ok_iff.mp hbuilt'
    refine Properties.insertAll_eq _ _ fun key hkey => hkeys key ?_
    rw [Catalogue.isSome_find?_groupCounts, ← Catalogue.isSome_find?_groupCounts inputs outputs]
      at hkey
    rw [heq]
    show (((Catalogue.groupCounts inputs outputs).insertAll given.entries).find? key).isSome = true
    rw [Properties.find?_insertAll_entries, Option.isSome_or, hkey, Bool.or_true]
  · obtain rfl := Except.ok.inj ((hbase.builds now).symm.trans hbuilt')
    rfl

-- A template can be made again, and with the same ports, unless it is that of a group
-- whose properties do not give the number of its ports any more.
theorem exists_create_again (h : core.create tag given = .ok template)
    (hcounts : template.tag = "group" →
      Catalogue.portCount now "inputs" = .ok template.inputs.length ∧
        Catalogue.portCount now "outputs" = .ok template.outputs.length) :
    ∃ again, core.create template.tag now = .ok again ∧ again.Kindred template := by
  obtain ⟨type, hmem, hid, hlower, built, hbuilt, heq⟩ := kind_of_create h
  have hagain : ∀ {other : Template}, type.build now = .ok other →
      core.create template.tag now = .ok { other with tag := template.tag } := fun hother =>
    create_core_eq_ok_iff.mpr ⟨type, hmem, hlower.symm ▸ hid, _, hother, by rw [hlower]⟩
  rcases Catalogue.eq_group_or_uniform hmem with rfl | ⟨base, hbase⟩
  · obtain ⟨inputs, outputs, -, -, rfl⟩ := Catalogue.build_group_eq_ok_iff.mp hbuilt
    obtain ⟨hin, hout⟩ := Catalogue.length_groupOf inputs outputs given
    rw [show template.inputs.length = inputs from heq ▸ hin,
      show template.outputs.length = outputs from heq ▸ hout] at hcounts
    obtain ⟨hinputs, houtputs⟩ := hcounts hid.symm
    refine ⟨_, hagain (Catalogue.build_group_eq_ok_iff.mpr ⟨_, _, hinputs, houtputs, rfl⟩), ?_⟩
    rw [heq]
    exact ⟨rfl, rfl, fun direction => by cases direction <;> rfl⟩
  · obtain rfl := Except.ok.inj ((hbase.builds given).symm.trans hbuilt)
    refine ⟨_, hagain (hbase.builds now), ?_⟩
    rw [heq]
    exact ⟨rfl, rfl, fun direction => by cases direction <;> rfl⟩

-- The properties of a group that was just made give the number of its ports.
theorem counts_of_create (h : core.create tag given = .ok template)
    (hgroup : template.tag = "group") :
    Catalogue.portCount template.properties "inputs" = .ok template.inputs.length ∧
      Catalogue.portCount template.properties "outputs" = .ok template.outputs.length := by
  obtain ⟨type, hmem, hid, -, built, hbuilt, heq⟩ := kind_of_create h
  obtain rfl : type = Catalogue.group :=
    List.inj_on_of_nodup_map ids_nodup hmem (by simp [Catalogue.all]) (hid.trans hgroup)
  obtain ⟨inputs, outputs, hinputs, houtputs, rfl⟩ := Catalogue.build_group_eq_ok_iff.mp hbuilt
  obtain ⟨hin, hout⟩ := Catalogue.length_groupOf inputs outputs given
  rw [heq, hin, hout]
  exact Catalogue.portCount_groupOf hinputs houtputs

end Registry

end Dataflow
