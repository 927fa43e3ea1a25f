import Dataflow.Proofs.Document.Nested
import Dataflow.Snapshot

namespace Dataflow

namespace Tree

mutual
-- How many lists and maps stand inside one another. Keys do not count.
def depth : Tree → Nat
  | seq items => 1 + deepest items
  | map fields => 1 + deepestField fields
  | _ => 0

def deepest : List Tree → Nat
  | [] => 0
  | item :: rest => max (depth item) (deepest rest)

def deepestField : List (Tree × Tree) → Nat
  | [] => 0
  | (_, value) :: rest => max (depth value) (deepestField rest)
end

variable {double : Float → Prop} {single : Float32 → Prop}

mutual
-- What documents can hold: whole numbers of 64 bits, texts for keys, and those numbers
-- of either width that satisfy the tests.
def Legible (double : Float → Prop) (single : Float32 → Prop) : Tree → Prop
  | int i => -2 ^ 63 ≤ i ∧ i < 2 ^ 64
  | float x => double x
  | .single x => single x
  | seq items => LegibleAll double single items
  | map fields => LegibleFields double single fields
  | _ => True

def LegibleAll (double : Float → Prop) (single : Float32 → Prop) : List Tree → Prop
  | [] => True
  | item :: rest => Legible double single item ∧ LegibleAll double single rest

def LegibleFields (double : Float → Prop) (single : Float32 → Prop) :
    List (Tree × Tree) → Prop
  | [] => True
  | (key, value) :: rest =>
      (∃ s, key = text s) ∧ Legible double single value ∧ LegibleFields double single rest
end

theorem legibleAll_iff (items : List Tree) :
    LegibleAll double single items ↔ ∀ item ∈ items, item.Legible double single := by
  induction items with
  | nil => simp [LegibleAll]
  | cons item rest ih => simp [LegibleAll, ih]

theorem legible_record_iff (fields : List (String × Tree)) :
    (record fields).Legible double single ↔
      ∀ field ∈ fields, field.2.Legible double single := by
  rw [record, Legible]
  induction fields with
  | nil => simp [LegibleFields]
  | cons field rest ih => simp [LegibleFields, ih]

end Tree

namespace Source

theorem required_some {place α : Type} (read : place → Reading α) (at_ : place) :
    required read (some at_) = read at_ := rfl

theorem orElse_some {place α : Type} (absent : α) (read : place → Reading α) (at_ : place) :
    orElse absent read (some at_) = read at_ := rfl

variable {place : Type} [Source place] {α : Type}

-- The places where trees stand as they were written: `at_ n tree` is one with `n`
-- levels to go. Each reader that asks for what is there is answered with it.
structure Shows (double : Float → Prop) (single : Float32 → Prop)
    (at_ : Nat → Tree → place) : Prop where
  tree : ∀ n t, Tree.Legible double (fun _ => False) t →
    Source.tree (at_ n t) = if t.depth ≤ n then pure t else Reading.refuse
  text : ∀ n s, Source.text (at_ n (.text s)) = pure s
  variant : ∀ n s, Source.variant (at_ n (.text s)) = pure s
  present : ∀ n s, Source.optional (at_ n (.text s)) = pure (some (at_ n (.text s)))
  natural : ∀ n k : Nat, k < 2 ^ 64 → Source.natural (at_ n (.int k)) = pure k
  single : ∀ n x, single x → Source.single (at_ n (.single x)) = pure x
  items : ∀ n ts, Source.items (at_ (n + 1) (.seq ts)) = pure (ts.map (at_ n))
  entries : ∀ n fs, Source.entries (at_ (n + 1) (.record fs)) =
    pure (fs.map fun field => (field.1, at_ n field.2))
  fields : ∀ n names fs, (fs.map (·.1)).Nodup →
    Source.fields names (at_ (n + 1) (.record fs)) =
      pure (names.map fun name => (fs.lookup name).map (at_ n))

-- Readers that take each thing for itself or refuse it do so for all of them together.
theorem mapM_guarded {β : Type} {read : β → Reading α} {write : α → β} (allowed : α → Prop)
    [DecidablePred allowed] (xs : List α)
    (h : ∀ x ∈ xs, read (write x) = if allowed x then pure x else Reading.refuse) :
    (xs.map write).mapM read =
      if ∀ x ∈ xs, allowed x then pure xs else Reading.refuse := by
  induction xs with
  | nil => simp
  | cons x rest ih =>
      have hx := h x List.mem_cons_self
      have hrest := ih fun y hy => h y (List.mem_cons_of_mem x hy)
      rw [List.map_cons, List.mapM_cons, hx, hrest]
      by_cases hax : allowed x
      · by_cases har : ∀ y ∈ rest, allowed y
        · rw [if_pos hax, if_pos har, if_pos (List.forall_mem_cons.mpr ⟨hax, har⟩)]
          simp only [pure_bind]
        · rw [if_pos hax, if_neg har, if_neg fun hall => har (List.forall_mem_cons.mp hall).2]
          rfl
      · rw [if_neg hax, if_neg fun hall => hax (List.forall_mem_cons.mp hall).1]
        rfl

theorem filter_name_of_nodup {β : Type} (found : List (String × β))
    (h : (found.map (·.1)).Nodup) (name : String) :
    (found.filter fun entry => entry.1 = name) =
      ((found.lookup name).map fun value => (name, value)).toList := by
  induction found with
  | nil => rfl
  | cons entry rest ih =>
      obtain ⟨key, value⟩ := entry
      rw [List.map_cons, List.nodup_cons] at h
      by_cases hkey : key = name
      · subst hkey
        have hnone : (rest.filter fun entry => entry.1 = key) = [] := by
          refine List.filter_eq_nil_iff.mpr fun other ho heq => h.1 ?_
          exact List.mem_map.mpr ⟨other, ho, of_decide_eq_true heq⟩
        rw [List.filter_cons_of_pos (by simp), hnone, List.lookup_cons_self]
        rfl
      · have hbeq : (name == key) = false := beq_eq_false_iff_ne.mpr (Ne.symm hkey)
        rw [List.filter_cons_of_neg (by simpa using hkey), ih h.2, List.lookup_cons, hbeq]

theorem lookup_map {β γ : Type} (g : β → γ) (found : List (String × β)) (name : String) :
    (found.map fun entry => (entry.1, g entry.2)).lookup name = (found.lookup name).map g := by
  induction found with
  | nil => rfl
  | cons entry rest ih =>
      rw [List.map_cons, List.lookup_cons, List.lookup_cons, ih]
      cases name == entry.1 <;> rfl

-- Among fields of different names at most one has the name that is looked for.
theorem filter_name {β : Type} (g : Tree → β) {fields : List (String × Tree)}
    (h : (fields.map (·.1)).Nodup) (name : String) :
    ((fields.map fun field => (field.1, g field.2)).filter fun entry => entry.1 = name) =
      (((fields.lookup name).map g).map fun value => (name, value)).toList := by
  rw [← lookup_map]
  refine filter_name_of_nodup _ ?_ name
  rwa [List.map_map]

variable {double : Float → Prop} {single : Float32 → Prop} {at_ : Nat → Tree → place}

theorem list_shown (hs : Shows double single at_) {read : place → Reading α} {write : α → Tree}
    (allowed : α → Prop) [DecidablePred allowed] {n : Nat} (xs : List α)
    (h : ∀ x ∈ xs, read (at_ n (write x)) = if allowed x then pure x else Reading.refuse) :
    list read (at_ (n + 1) (.seq (xs.map write))) =
      if ∀ x ∈ xs, allowed x then pure xs else Reading.refuse := by
  rw [list, hs.items, pure_bind, List.map_map]
  exact mapM_guarded allowed xs h

-- The same where nothing is refused.
theorem list_all_shown (hs : Shows double single at_) {read : place → Reading α}
    {write : α → Tree} {n : Nat} (xs : List α) (h : ∀ x ∈ xs, read (at_ n (write x)) = pure x) :
    list read (at_ (n + 1) (.seq (xs.map write))) = pure xs := by
  rw [list_shown hs (fun _ => True) xs fun x hx => (h x hx).trans (if_pos trivial).symm]
  exact if_pos fun _ _ => trivial

end Source

end Dataflow
