import Dataflow.Forest
import Dataflow.Proofs.Arena
import Mathlib.Data.List.Forall2
import Mathlib.Data.List.Perm.Subperm
import Mathlib.Logic.Relation
import Mathlib.Order.RelClasses

namespace Dataflow.Forest

open Relation

universe u

variable {α : Type u} {forest : Forest α}

-- The first item stands directly below the second.
def Under (forest : Forest α) (a b : ItemId) : Prop :=
  forest.parent? a = some b

-- Parents and children know each other, nothing is listed twice, and the ways down end.
structure Tidy (forest : Forest α) : Prop where
  listed : ∀ {a b}, a ∈ forest.children b ↔ forest.Under a b
  once : ∀ b, (forest.children b).Nodup
  founded : WellFounded forest.Under

theorem Tidy.empty : (empty : Forest α).Tidy where
  listed := ⟨fun h => absurd h List.not_mem_nil, fun h => nomatch h⟩
  once _ := List.nodup_nil
  founded := ⟨fun a => .intro a fun _ h => nomatch h⟩

theorem contains_eq (id : ItemId) : forest.contains id = (forest.get? id).isSome := by
  rw [Bool.eq_iff_iff, contains, Arena.contains_iff, get?, Option.isSome_map,
    Option.isSome_iff_exists]

theorem ne_fresh {a : ItemId} (h : forest.contains a = true) : a ≠ forest.items.fresh := by
  obtain ⟨item, ha⟩ := (Arena.contains_iff _ _).mp h
  exact Arena.ne_fresh_of_find? _ ha

theorem mem_ids_of_children {a b : ItemId} (h : a ∈ forest.children b) :
    b ∈ forest.items.ids := by
  rw [Arena.mem_ids_iff]
  cases hb : forest.items.find? b with
  | none => simp [children, hb] at h
  | some item => exact ⟨item, rfl⟩

theorem mem_ids_of_parent {a b : ItemId} (h : forest.parent? a = some b) :
    a ∈ forest.items.ids := by
  rw [Arena.mem_ids_iff]
  obtain ⟨item, ha, -⟩ := Option.bind_eq_some_iff.mp h
  exact ⟨item, ha⟩

theorem length_le_size {items : List ItemId} (hn : items.Nodup)
    (h : items ⊆ forest.items.ids) : items.length ≤ forest.size := by
  rw [size, ← Arena.length_ids]
  exact (List.Nodup.subperm hn h).length_le

namespace Tidy

variable (ht : forest.Tidy)

include ht

theorem irrefl (a : ItemId) : ¬ TransGen forest.Under a a :=
  fun h => ht.founded.transGen.asymmetric a a h h

theorem mem_ids_of_above {a b : ItemId} (h : TransGen forest.Under a b) :
    b ∈ forest.items.ids := by
  obtain ⟨c, -, hcb⟩ := TransGen.tail'_iff.mp h
  exact mem_ids_of_children (ht.listed.mpr hcb)

end Tidy

theorem mem_ids_of_below {a b : ItemId} (h : TransGen forest.Under a b) :
    a ∈ forest.items.ids := by
  obtain ⟨c, hac, -⟩ := TransGen.head'_iff.mp h
  exact mem_ids_of_parent hac

section Climb

-- The whole way up from an item.
inductive Climbs (forest : Forest α) : ItemId → List ItemId → Prop where
  | top {a : ItemId} (h : forest.parent? a = none) : Climbs forest a []
  | step {a b : ItemId} {rest : List ItemId} (h : forest.parent? a = some b)
      (hrest : Climbs forest b rest) : Climbs forest a (b :: rest)

theorem Climbs.mem_iff {a b : ItemId} {above : List ItemId} (h : Climbs forest a above) :
    b ∈ above ↔ TransGen forest.Under a b := by
  induction h with
  | top h =>
      refine ⟨fun hb => absurd hb List.not_mem_nil, fun hab => ?_⟩
      obtain ⟨c, hac, -⟩ := TransGen.head'_iff.mp hab
      exact absurd (h.symm.trans hac) (by simp)
  | @step a c rest h _ ih =>
      rw [List.mem_cons, ih]
      constructor
      · rintro (rfl | hcb)
        · exact .single h
        · exact .head h hcb
      · intro hab
        obtain ⟨d, had, hdb⟩ := TransGen.head'_iff.mp hab
        obtain rfl : c = d := Option.some.inj (h.symm.trans had)
        exact reflTransGen_iff_eq_or_transGen.mp hdb

theorem climbs_or_full (forest : Forest α) (fuel : Nat) (a : ItemId) :
    Climbs forest a (forest.climb fuel a) ∨ (forest.climb fuel a).length = fuel := by
  induction fuel generalizing a with
  | zero => exact .inr rfl
  | succ fuel ih =>
      rw [climb]
      split
      · next b h => exact (ih b).imp (.step h) (congrArg Nat.succ)
      · next h => exact .inl (.top h)

theorem above_of_mem_climb {fuel : Nat} {a b : ItemId} (h : b ∈ forest.climb fuel a) :
    TransGen forest.Under a b := by
  induction fuel generalizing a with
  | zero => cases h
  | succ fuel ih =>
      rw [climb] at h
      split at h
      · next c hac =>
        rcases List.mem_cons.mp h with rfl | h
        · exact .single hac
        · exact .head hac (ih h)
      · cases h

theorem Tidy.nodup_climb (ht : forest.Tidy) (fuel : Nat) (a : ItemId) :
    (a :: forest.climb fuel a).Nodup := by
  induction fuel generalizing a with
  | zero => exact List.nodup_singleton a
  | succ fuel ih =>
      refine List.nodup_cons.mpr ⟨fun h => ht.irrefl a (above_of_mem_climb h), ?_⟩
      rw [climb]
      split
      · next b h => exact ih b
      · exact List.nodup_nil

-- No way up is cut short: its items are all different.
theorem Tidy.climbs_ancestors (ht : forest.Tidy) (a : ItemId) :
    Climbs forest a (forest.ancestors a) := by
  rcases climbs_or_full forest forest.size a with h | hfull
  · exact h
  · cases ha : forest.parent? a with
    | none =>
        rw [ancestors]
        cases hsize : forest.size with
        | zero => exact .top ha
        | succ fuel =>
            rw [climb, ha]
            exact .top ha
    | some b =>
        have hids : a :: forest.climb forest.size a ⊆ forest.items.ids := by
          intro c hc
          rcases List.mem_cons.mp hc with rfl | hc
          · exact mem_ids_of_parent ha
          · exact ht.mem_ids_of_above (above_of_mem_climb hc)
        have hlength := length_le_size (ht.nodup_climb forest.size a) hids
        rw [List.length_cons, hfull] at hlength
        exact absurd hlength (Nat.not_succ_le_self _)

theorem Tidy.mem_ancestors_iff (ht : forest.Tidy) {a b : ItemId} :
    b ∈ forest.ancestors a ↔ TransGen forest.Under a b :=
  (ht.climbs_ancestors a).mem_iff

theorem Tidy.isAncestor_iff (ht : forest.Tidy) {a b : ItemId} :
    forest.isAncestor a b = true ↔ TransGen forest.Under b a := by
  rw [isAncestor, List.contains_iff_mem, ht.mem_ancestors_iff]

-- No way up goes on for ever.
theorem Tidy.founded_above (ht : forest.Tidy) : WellFounded fun b a => forest.Under a b := by
  refine ⟨fun a => ?_⟩
  have h := ht.climbs_ancestors a
  generalize forest.ancestors a = above at h
  induction h with
  | @top a h => exact .intro a fun b hab => absurd (h.symm.trans hab) (by simp)
  | @step a b rest h _ ih =>
      refine .intro a fun c hac => ?_
      obtain rfl : b = c := Option.some.inj (h.symm.trans hac)
      exact ih

-- Every way up ends at an item without a parent.
theorem Tidy.exists_top (ht : forest.Tidy) (a : ItemId) :
    ∃ top, ReflTransGen forest.Under a top ∧ forest.parent? top = none := by
  have h := ht.climbs_ancestors a
  generalize forest.ancestors a = above at h
  induction h with
  | top h => exact ⟨_, .refl, h⟩
  | step h _ ih =>
      obtain ⟨top, hup, htop⟩ := ih
      exact ⟨top, .head h hup, htop⟩

end Climb

section Walk

-- The whole walk over the items on a stack and everything below them.
inductive Walks (forest : Forest α) : List ItemId → List ItemId → Prop where
  | done : Walks forest [] []
  | step {a : ItemId} {stack rest : List ItemId}
      (h : Walks forest (forest.children a ++ stack) rest) :
      Walks forest (a :: stack) (a :: rest)

namespace Walks

variable {stack stack' walked walked' : List ItemId}

theorem append (h : Walks forest stack walked) (h' : Walks forest stack' walked') :
    Walks forest (stack ++ stack') (walked ++ walked') := by
  induction h with
  | done => exact h'
  | step _ ih =>
      rw [List.append_assoc] at ih
      exact .step ih

theorem unique (h : Walks forest stack walked) (h' : Walks forest stack walked') :
    walked = walked' := by
  induction h generalizing walked' with
  | done =>
      cases h'
      rfl
  | step _ ih =>
      cases h' with
      | step h' => rw [ih h']

theorem walk_eq (h : Walks forest stack walked) {fuel : Nat} (hfuel : walked.length ≤ fuel) :
    forest.walk fuel stack = walked := by
  induction h generalizing fuel with
  | done => cases fuel <;> rfl
  | step _ ih =>
      cases fuel with
      | zero => cases hfuel
      | succ fuel => rw [walk, ih (Nat.le_of_succ_le_succ hfuel)]

theorem congr {forest' : Forest α} (h : Walks forest stack walked)
    (hsame : ∀ a ∈ walked, forest'.children a = forest.children a) :
    Walks forest' stack walked := by
  induction h with
  | done => exact .done
  | @step a stack rest _ ih =>
      obtain ⟨hfirst, hrest⟩ := List.forall_mem_cons.mp hsame
      apply Walks.step
      rw [hfirst]
      exact ih hrest

end Walks

-- Items in order, each of them followed by all that stands below it, listed in the same way.
inductive Listing (forest : Forest α) : List ItemId → List ItemId → Prop where
  | nil : Listing forest [] []
  | cons {a : ItemId} {rest below others : List ItemId}
      (hbelow : Listing forest (forest.children a) below) (hothers : Listing forest rest others) :
      Listing forest (a :: rest) (a :: (below ++ others))

-- A walk with a stack meets the items in this order.
theorem Listing.walks {items listing : List ItemId} (h : forest.Listing items listing) :
    Walks forest items listing := by
  induction h with
  | nil => exact .done
  | cons _ _ ihbelow ihothers => exact .step (ihbelow.append ihothers)

theorem exists_listing_of_mem {items : List ItemId}
    (h : ∀ a ∈ items, ∃ below, forest.Listing (forest.children a) below) :
    ∃ listing, forest.Listing items listing := by
  induction items with
  | nil => exact ⟨[], .nil⟩
  | cons a rest ih =>
      obtain ⟨hfirst, hrest⟩ := List.forall_mem_cons.mp h
      obtain ⟨below, hbelow⟩ := hfirst
      obtain ⟨others, hothers⟩ := ih hrest
      exact ⟨_, .cons hbelow hothers⟩

namespace Tidy

variable (ht : forest.Tidy)

include ht

theorem exists_listing (a : ItemId) :
    ∃ below, forest.Listing (forest.children a) below := by
  induction a using ht.founded.induction with
  | _ a ih => exact exists_listing_of_mem fun b hb => ih b (ht.listed.mp hb)

theorem mem_walks_iff {stack walked : List ItemId} (h : Walks forest stack walked) {b : ItemId} :
    b ∈ walked ↔ ∃ a ∈ stack, ReflTransGen forest.Under b a := by
  induction h with
  | done => simp
  | @step a stack rest _ ih =>
      rw [List.mem_cons, ih]
      constructor
      · rintro (rfl | ⟨c, hc, hbc⟩)
        · exact ⟨b, List.mem_cons_self, .refl⟩
        · rcases List.mem_append.mp hc with hc | hc
          · exact ⟨a, List.mem_cons_self, hbc.tail (ht.listed.mp hc)⟩
          · exact ⟨c, List.mem_cons_of_mem _ hc, hbc⟩
      · rintro ⟨c, hc, hbc⟩
        rcases List.mem_cons.mp hc with rfl | hc
        · rcases ReflTransGen.cases_tail hbc with rfl | ⟨d, hbd, hdc⟩
          · exact .inl rfl
          · exact .inr ⟨d, List.mem_append_left _ (ht.listed.mpr hdc), hbd⟩
        · exact .inr ⟨c, List.mem_append_right _ hc, hbc⟩

-- One of two siblings that have something below them in common would stand below the
-- other, and so below itself.
theorem apart_children (a : ItemId) : (forest.children a).Pairwise fun b c =>
    ∀ d, ReflTransGen forest.Under d b → ¬ ReflTransGen forest.Under d c := by
  have hbelow : ∀ {x y : ItemId}, forest.Under x a → forest.Under y a →
      ReflTransGen forest.Under x y → x = y := by
    intro x y hx hy hxy
    rcases ReflTransGen.cases_head hxy with heq | ⟨z, hxz, hzy⟩
    · exact heq
    · obtain rfl : a = z := Option.some.inj (hx.symm.trans hxz)
      exact absurd (TransGen.tail' hzy hy) (ht.irrefl a)
  refine (ht.once a).imp_of_mem fun {b c} hb hc hne d hdb hdc => ?_
  have hb := ht.listed.mp hb
  have hc := ht.listed.mp hc
  rcases ReflTransGen.total_of_right_unique
    (fun _ _ _ h h' => Option.some.inj (h.symm.trans h')) hdb hdc with h | h
  · exact hne (hbelow hb hc h)
  · exact hne (hbelow hc hb h).symm

-- Nothing on the stack and nothing that comes onto it stands below another item there.
theorem apart_step {a : ItemId} {stack : List ItemId}
    (hapart : (a :: stack).Pairwise fun b c => ∀ d, ReflTransGen forest.Under d b →
      ¬ ReflTransGen forest.Under d c) :
    (forest.children a ++ stack).Pairwise fun b c => ∀ d, ReflTransGen forest.Under d b →
      ¬ ReflTransGen forest.Under d c := by
  obtain ⟨hfirst, hstack⟩ := List.pairwise_cons.mp hapart
  refine List.pairwise_append.mpr ⟨ht.apart_children a, hstack, ?_⟩
  intro b hb c hc d hdb hdc
  exact hfirst c hc d (hdb.tail (ht.listed.mp hb)) hdc

-- Nothing is met twice where no two items on the stack have anything below them in common.
theorem nodup_walks {stack walked : List ItemId} (h : Walks forest stack walked)
    (hapart : stack.Pairwise fun a b => ∀ c, ReflTransGen forest.Under c a →
      ¬ ReflTransGen forest.Under c b) : walked.Nodup := by
  induction h with
  | done => exact List.nodup_nil
  | @step a stack rest h ih =>
      have hfirst := (List.pairwise_cons.mp hapart).1
      refine List.nodup_cons.mpr ⟨fun ha => ?_, ih (ht.apart_step hapart)⟩
      obtain ⟨b, hb, hab⟩ := (ht.mem_walks_iff h).mp ha
      rcases List.mem_append.mp hb with hb | hb
      · exact ht.irrefl a (TransGen.tail' hab (ht.listed.mp hb))
      · exact hfirst b hb a .refl hab

-- Nothing is met after what stands below it.
theorem ordered_walks {stack walked : List ItemId} (h : Walks forest stack walked)
    (hapart : stack.Pairwise fun a b => ∀ c, ReflTransGen forest.Under c a →
      ¬ ReflTransGen forest.Under c b) :
    walked.Pairwise fun a b => ¬ TransGen forest.Under a b := by
  induction h with
  | done => exact .nil
  | @step a stack rest h ih =>
      have hfirst := (List.pairwise_cons.mp hapart).1
      refine List.pairwise_cons.mpr ⟨fun b hb hab => ?_, ih (ht.apart_step hapart)⟩
      obtain ⟨c, hc, hbc⟩ := (ht.mem_walks_iff h).mp hb
      have hac := hab.trans_left hbc
      rcases List.mem_append.mp hc with hc | hc
      · exact ht.irrefl a (hac.tail (ht.listed.mp hc))
      · exact hfirst c hc a .refl hac.to_reflTransGen

-- No walk below an item is cut short.
theorem walks_descendants (a : ItemId) :
    Walks forest (forest.children a) (forest.descendants a) := by
  obtain ⟨below, hbelow⟩ := ht.exists_listing a
  have h := hbelow.walks
  have hids : below ⊆ forest.items.ids := by
    intro b hb
    obtain ⟨c, hc, hbc⟩ := (ht.mem_walks_iff h).mp hb
    exact mem_ids_of_below (TransGen.tail' hbc (ht.listed.mp hc))
  have hlength := length_le_size (ht.nodup_walks h (ht.apart_children a)) hids
  rw [descendants, h.walk_eq hlength]
  exact h

-- Those items met that stand directly below an item are its children, in order; besides
-- there may be some on the stack.
theorem filter_walks {stack walked : List ItemId} (h : Walks forest stack walked)
    (hapart : stack.Pairwise fun a b => ∀ c, ReflTransGen forest.Under c a →
      ¬ ReflTransGen forest.Under c b) (a : ItemId) :
    (walked.filter fun b => forest.parent? b = some a) =
      (stack.filter fun b => forest.parent? b = some a) ++
        if a ∈ walked then forest.children a else [] := by
  induction h with
  | done => rfl
  | @step b stack rest h ih =>
      have hfirst := (List.pairwise_cons.mp hapart).1
      have hchild : ∀ c ∈ forest.children b, forest.parent? c = some b := fun c hc =>
        ht.listed.mp hc
      have hnodup := ht.nodup_walks (.step h) hapart
      rw [List.filter_cons, List.filter_cons, ih (ht.apart_step hapart), List.filter_append]
      by_cases hab : a = b
      · subst hab
        have hself : forest.parent? a ≠ some a := fun hself => ht.irrefl a (.single hself)
        have hall : (forest.children a).filter (fun c => forest.parent? c = some a) =
            forest.children a := List.filter_eq_self.mpr fun c hc => by simp [hchild c hc]
        have hnone : stack.filter (fun c => forest.parent? c = some a) = [] := by
          refine List.filter_eq_nil_iff.mpr fun c hc hca => ?_
          rw [decide_eq_true_eq] at hca
          exact hfirst c hc c (.single hca) .refl
        simp [hself, hall, hnone, (List.nodup_cons.mp hnodup).1]
      · have hnone : (forest.children b).filter (fun c => forest.parent? c = some a) = [] := by
          refine List.filter_eq_nil_iff.mpr fun c hc hca => ?_
          rw [hchild c hc, decide_eq_true_eq] at hca
          exact hab (Option.some.inj hca).symm
        rw [hnone, List.nil_append]
        simp only [List.mem_cons, hab, false_or]
        split_ifs <;> rfl

theorem mem_descendants_iff {a b : ItemId} :
    b ∈ forest.descendants a ↔ TransGen forest.Under b a := by
  rw [ht.mem_walks_iff (ht.walks_descendants a), TransGen.tail'_iff]
  simp only [ht.listed, and_comm]

theorem mem_cons_descendants_iff {a b : ItemId} :
    b ∈ a :: forest.descendants a ↔ ReflTransGen forest.Under b a := by
  rw [List.mem_cons, ht.mem_descendants_iff, reflTransGen_iff_eq_or_transGen, eq_comm]

-- The one listing of what stands below an item is what a walk answers.
theorem listing_iff {a : ItemId} {listing : List ItemId} :
    forest.Listing (forest.children a) listing ↔ listing = forest.descendants a := by
  have hwalks : ∀ listing, forest.Listing (forest.children a) listing →
      listing = forest.descendants a := fun _ h => h.walks.unique (ht.walks_descendants a)
  refine ⟨hwalks listing, ?_⟩
  rintro rfl
  obtain ⟨below, hbelow⟩ := ht.exists_listing a
  rwa [← hwalks below hbelow]

theorem ordered_descendants (a : ItemId) :
    (forest.descendants a).Pairwise fun b c => ¬ TransGen forest.Under b c :=
  ht.ordered_walks (ht.walks_descendants a) (ht.apart_children a)

theorem nodup_descendants (a : ItemId) : (forest.descendants a).Nodup :=
  ht.nodup_walks (ht.walks_descendants a) (ht.apart_children a)

-- The children of an item, or of any item below it, are met in order.
theorem children_eq_filter {a b : ItemId} (h : ReflTransGen forest.Under b a) :
    forest.children b = (forest.descendants a).filter fun c => forest.parent? c = some b := by
  have hchild : ∀ c ∈ forest.children a, forest.parent? c = some a := fun c hc => ht.listed.mp hc
  rw [ht.filter_walks (ht.walks_descendants a) (ht.apart_children a) b]
  rcases reflTransGen_iff_eq_or_transGen.mp h with rfl | h
  · rw [if_neg (mt ht.mem_descendants_iff.mp (ht.irrefl a)), List.append_nil]
    exact (List.filter_eq_self.mpr fun c hc => by simp [hchild c hc]).symm
  · have hnone : (forest.children a).filter (fun c => forest.parent? c = some b) = [] := by
      refine List.filter_eq_nil_iff.mpr fun c hc hcb => ?_
      rw [hchild c hc, decide_eq_true_eq] at hcb
      exact ht.irrefl a (Option.some.inj hcb ▸ h)
    rw [if_pos (ht.mem_descendants_iff.mpr h), hnone, List.nil_append]

end Tidy

-- Walks over forests in which the children of corresponding items correspond.
theorem Walks.exists_forall₂ {β : Type u} {forest' : Forest β} {R : ItemId → ItemId → Prop}
    (hR : ∀ {a b}, R a b → List.Forall₂ R (forest.children a) (forest'.children b))
    {stack stack' walked : List ItemId} (h : Walks forest stack walked)
    (hstack : List.Forall₂ R stack stack') :
    ∃ walked', Walks forest' stack' walked' ∧ List.Forall₂ R walked walked' := by
  induction h generalizing stack' with
  | done =>
      cases hstack
      exact ⟨[], .done, .nil⟩
  | step _ ih =>
      cases hstack with
      | cons hab hrest =>
          obtain ⟨walked', hwalked, hforall⟩ := ih (List.rel_append (hR hab) hrest)
          exact ⟨_, .step hwalked, .cons hab hforall⟩

-- What a test leaves of a walk is the walk over what it leaves of a forest, where it refuses
-- all that stands below what it refuses.
theorem Walks.filter {β : Type u} {forest' : Forest β} {test : ItemId → Bool}
    (hkept : ∀ {a}, test a = true → forest'.children a = (forest.children a).filter test)
    (hcut : ∀ {a c}, test a = false → c ∈ forest.children a → test c = false)
    {stack walked : List ItemId} (h : Walks forest stack walked) :
    Walks forest' (stack.filter test) (walked.filter test) := by
  induction h with
  | done => exact .done
  | @step a stack rest h ih =>
      rw [List.filter_append] at ih
      by_cases ha : test a = true
      · rw [List.filter_cons_of_pos ha, List.filter_cons_of_pos ha]
        apply Walks.step
        rwa [hkept ha]
      · have hnone : (forest.children a).filter test = [] := by
          refine List.filter_eq_nil_iff.mpr fun c hc => ?_
          rw [hcut (Bool.not_eq_true _ ▸ ha) hc]
          exact Bool.false_ne_true
        rw [hnone, List.nil_append] at ih
        rwa [List.filter_cons_of_neg ha, List.filter_cons_of_neg ha]

theorem Tidy.forall₂_descendants {β : Type u} {forest' : Forest β} (ht : forest.Tidy)
    (ht' : forest'.Tidy) {R : ItemId → ItemId → Prop}
    (hR : ∀ {a b}, R a b → List.Forall₂ R (forest.children a) (forest'.children b)) {a b : ItemId}
    (h : List.Forall₂ R (forest.children a) (forest'.children b)) :
    List.Forall₂ R (forest.descendants a) (forest'.descendants b) := by
  obtain ⟨walked, hwalked, hforall⟩ := (ht.walks_descendants a).exists_forall₂ hR h
  rwa [(ht'.walks_descendants b).unique hwalked]

end Walk

section Insert

variable (forest : Forest α) (data : α)

theorem get?_insert (a : ItemId) :
    (forest.insert data).2.get? a =
      if a = forest.items.fresh then some data else forest.get? a := by
  simp only [insert, get?, Arena.find?_insert]
  split <;> rfl

theorem parent?_insert (a : ItemId) : (forest.insert data).2.parent? a = forest.parent? a := by
  simp only [insert, parent?, Arena.find?_insert]
  split
  · next h => rw [h, Arena.find?_fresh]; rfl
  · rfl

theorem children_insert (a : ItemId) :
    (forest.insert data).2.children a = forest.children a := by
  simp only [insert, children, Arena.find?_insert]
  split
  · next h => rw [h, Arena.find?_fresh]; rfl
  · rfl

theorem under_insert : (forest.insert data).2.Under = forest.Under := by
  funext a b
  rw [Under, parent?_insert, Under]

variable {forest}

theorem Tidy.insert (ht : forest.Tidy) : (forest.insert data).2.Tidy where
  listed := by
    intro a b
    rw [children_insert, under_insert]
    exact ht.listed
  once b := by
    rw [children_insert]
    exact ht.once b
  founded := under_insert forest data ▸ ht.founded

end Insert

section Attach

-- An item put among the children of another, at a row or at their end.
structure Placed (forest : Forest α) (parent : ItemId) (row : Nat) (child : ItemId)
    (other : Forest α) : Prop where
  data : ∀ a, other.get? a = forest.get? a
  above : ∀ a, other.parent? a = if a = child then some parent else forest.parent? a
  below : ∀ a, other.children a =
    if a = parent then (forest.children a).insertIdx (min row (forest.childCount a)) child
    else forest.children a

-- An item put at the end of the children of another.
structure Attached (forest : Forest α) (parent child : ItemId) (other : Forest α) : Prop where
  data : ∀ a, other.get? a = forest.get? a
  above : ∀ a, other.parent? a = if a = child then some parent else forest.parent? a
  below : ∀ a, other.children a =
    if a = parent then forest.children a ++ [child] else forest.children a

-- An item taken off its parent, if it has one.
structure Detached (forest : Forest α) (child : ItemId) (other : Forest α) : Prop where
  data : ∀ a, other.get? a = forest.get? a
  above : ∀ a, other.parent? a = if a = child then none else forest.parent? a
  below : ∀ a, other.children a = (forest.children a).erase child

variable {parent child : ItemId} {row : Nat} {other : Forest α}

theorem Placed.perm (h : Placed forest parent row child other) :
    (other.children parent).Perm (child :: forest.children parent) := by
  rw [h.below, if_pos rfl]
  exact List.perm_insertIdx child _ (Nat.min_le_right _ _)

theorem Placed.below_of_ne (h : Placed forest parent row child other) {a : ItemId}
    (ha : a ≠ parent) : other.children a = forest.children a := by
  rw [h.below, if_neg ha]

theorem attached_iff_placed : Attached forest parent child other ↔
    Placed forest parent (forest.childCount parent) child other := by
  have hend : ∀ a, (if a = parent then
        (forest.children a).insertIdx (min (forest.childCount parent) (forest.childCount a)) child
      else forest.children a) =
      if a = parent then forest.children a ++ [child] else forest.children a := by
    intro a
    split
    · next ha => rw [ha, Nat.min_self, childCount, List.insertIdx_length_self]
    · rfl
  constructor
  · rintro ⟨hdata, habove, hbelow⟩
    exact ⟨hdata, habove, fun a => (hbelow a).trans (hend a).symm⟩
  · rintro ⟨hdata, habove, hbelow⟩
    exact ⟨hdata, habove, fun a => (hbelow a).trans (hend a)⟩

theorem insertChild?_eq_none_iff : forest.insertChild? parent row child = none ↔
    parent = child ∨ forest.isAncestor child parent = true ∨
      forest.contains parent = false ∨ forest.contains child = false := by
  rw [insertChild?, ite_eq_left_iff]
  simp only [Bool.or_eq_true, decide_eq_true_eq, Bool.not_eq_true', reduceCtorEq, imp_false,
    not_not]
  tauto

theorem insertChild?_eq_some (h : forest.insertChild? parent row child = some other) :
    parent ≠ child ∧ forest.isAncestor child parent = false ∧
      Placed forest parent row child other := by
  have hfit := mt insertChild?_eq_none_iff.mpr (h ▸ Option.some_ne_none other)
  simp only [not_or, Bool.not_eq_true, Bool.not_eq_false] at hfit
  obtain ⟨hne, hup, hparent, hchild⟩ := hfit
  rw [insertChild?, if_neg (by simp [hne, hup, hparent, hchild])] at h
  obtain ⟨foundParent, hparent⟩ := (Arena.contains_iff _ _).mp hparent
  obtain ⟨foundChild, hchild⟩ := (Arena.contains_iff _ _).mp hchild
  obtain rfl := Option.some.inj h
  refine ⟨hne, hup, fun a => ?_, fun a => ?_, fun a => ?_⟩
  · simp only [get?, Arena.find?_modify, Option.map_map]
    congr 1
    funext item
    simp only [Function.comp]
    split_ifs <;> rfl
  · by_cases ha : a = child
    · subst ha
      simp [parent?, Arena.find?_modify, hchild]
    · simp only [parent?, Arena.find?_modify, Option.map_map, ha, if_false]
      cases forest.items.find? a with
      | none => rfl
      | some item =>
          simp only [Option.map_some, Function.comp, Option.bind_some]
          split_ifs <;> rfl
  · by_cases ha : a = parent
    · subst ha
      simp [children, childCount, Arena.find?_modify, hparent, hne]
    · simp only [children, Arena.find?_modify, Option.map_map, ha, if_false]
      congr 2
      funext item
      simp only [Function.comp]
      split_ifs <;> rfl

theorem appendChild?_eq_some (h : forest.appendChild? parent child = some other) :
    parent ≠ child ∧ forest.isAncestor child parent = false ∧
      Attached forest parent child other := by
  obtain ⟨hne, hup, hplaced⟩ := insertChild?_eq_some h
  exact ⟨hne, hup, attached_iff_placed.mpr hplaced⟩

theorem exists_appendChild? (hne : parent ≠ child) (hparent : forest.contains parent = true)
    (hchild : forest.contains child = true) (hup : forest.isAncestor child parent = false) :
    ∃ other, forest.appendChild? parent child = some other := by
  refine Option.ne_none_iff_exists'.mp (mt insertChild?_eq_none_iff.mp ?_)
  simp [hne, hparent, hchild, hup]

-- An item that cannot go under another: the same, one above it, or one of them unknown.
def Unfit (forest : Forest α) (parent child : ItemId) : Prop :=
  ReflTransGen forest.Under parent child ∨
    forest.contains parent = false ∨ forest.contains child = false

theorem Tidy.insertChild?_refused_iff (ht : forest.Tidy) :
    forest.insertChild? parent row child = none ↔ forest.Unfit parent child := by
  rw [insertChild?_eq_none_iff, ht.isAncestor_iff, Unfit, reflTransGen_iff_eq_or_transGen,
    or_assoc, eq_comm]

theorem Tidy.place (ht : forest.Tidy) (hloose : forest.parent? child = none)
    (hup : ¬ ReflTransGen forest.Under parent child) (h : Placed forest parent row child other) :
    other.Tidy := by
  have hunder : ∀ a b, other.Under a b ↔ a = child ∧ b = parent ∨ forest.Under a b := by
    intro a b
    rw [Under, h.above]
    by_cases ha : a = child
    · subst ha
      simp [Under, hloose, eq_comm]
    · simp [ha, Under]
  have hunlisted : ∀ b, child ∉ forest.children b := by
    intro b hb
    exact absurd (hloose.symm.trans (ht.listed.mp hb)) (by simp)
  constructor
  case listed =>
    intro a b
    rw [hunder, ← ht.listed]
    by_cases hb : b = parent
    · rw [hb, h.perm.mem_iff, List.mem_cons, and_iff_left rfl]
    · rw [h.below_of_ne hb, or_iff_right fun h => hb h.2]
  case once =>
    intro b
    by_cases hb : b = parent
    · rw [hb]
      exact h.perm.nodup_iff.mpr (List.nodup_cons.mpr ⟨hunlisted parent, ht.once parent⟩)
    · rw [h.below_of_ne hb]
      exact ht.once b
  case founded =>
    -- below the child nothing has changed, as its new parent is not there
    have hchild : ∀ a, ReflTransGen forest.Under a child → Acc other.Under a := by
      intro a
      induction a using ht.founded.induction with
      | _ a ih =>
          refine fun ha => .intro a fun b hb => ?_
          rcases (hunder b a).mp hb with ⟨rfl, rfl⟩ | hb
          · exact absurd ha hup
          · exact ih b hb (.head hb ha)
    refine ⟨fun a => ?_⟩
    induction a using ht.founded.induction with
    | _ a ih =>
        refine .intro a fun b hb => ?_
        rcases (hunder b a).mp hb with ⟨rfl, -⟩ | hb
        · exact hchild b .refl
        · exact ih b hb

theorem Tidy.attach (ht : forest.Tidy) (hloose : forest.parent? child = none)
    (hup : ¬ ReflTransGen forest.Under parent child) (h : Attached forest parent child other) :
    other.Tidy :=
  ht.place hloose hup (attached_iff_placed.mp h)

theorem Detached.under_iff (h : Detached forest child other) {a b : ItemId} :
    other.Under a b ↔ a ≠ child ∧ forest.Under a b := by
  rw [Under, h.above]
  by_cases ha : a = child <;> simp [ha, Under]

-- The same stands below an item that was taken off its parent: no way up to it begins
-- there.
theorem Tidy.below_detached_iff (ht : forest.Tidy) (h : Detached forest child other) {a : ItemId} :
    ReflTransGen other.Under a child ↔ ReflTransGen forest.Under a child := by
  refine ⟨ReflTransGen.mono (fun b c hbc => (h.under_iff.mp hbc).2) _ _, fun hat => ?_⟩
  induction hat using ReflTransGen.head_induction_on with
  | refl => exact .refl
  | @head b c hbc hct ih =>
      refine .head (h.under_iff.mpr ⟨?_, hbc⟩) ih
      rintro rfl
      exact ht.irrefl b (TransGen.head' hbc hct)

theorem Tidy.detach (ht : forest.Tidy) (h : Detached forest child other) : other.Tidy := by
  constructor
  case listed =>
    intro a b
    rw [h.under_iff, h.below, (ht.once b).mem_erase_iff, ht.listed]
  case once =>
    intro b
    rw [h.below]
    exact (ht.once b).erase child
  case founded => exact Subrelation.wf (fun hab => (h.under_iff.mp hab).2) ht.founded

-- Every child has its row, and stands there.
theorem Tidy.exists_row (ht : forest.Tidy) (h : forest.parent? child = some parent) :
    ∃ row, forest.row? child = some row ∧ forest.child? parent row = some child := by
  have hmem : child ∈ forest.children parent := ht.listed.mpr h
  rw [row?, h, Option.bind_some]
  cases hrow : (forest.children parent).findIdx? (· = child) with
  | none => simpa using List.findIdx?_eq_none_iff.mp hrow child hmem
  | some row =>
      obtain ⟨hlt, heq, -⟩ := List.findIdx?_eq_some_iff_getElem.mp hrow
      refine ⟨row, rfl, ?_⟩
      rw [child?, List.getElem?_eq_getElem hlt]
      simpa using heq

theorem Tidy.removeChild?_eq_some (ht : forest.Tidy)
    (h : forest.removeChild? parent row = some other) :
    ∃ child, forest.child? parent row = some child ∧ Detached forest child other := by
  obtain ⟨child, hchild, rfl⟩ := Option.map_eq_some_iff.mp h
  obtain ⟨hlt, hat⟩ := List.getElem?_eq_some_iff.mp hchild
  have hmem : child ∈ forest.children parent := hat ▸ List.getElem_mem hlt
  have hne : parent ≠ child := by
    rintro rfl
    exact ht.irrefl parent (.single (ht.listed.mp hmem))
  have herase : (forest.children parent).erase child = (forest.children parent).eraseIdx row :=
    hat ▸ (ht.once parent).erase_getElem row hlt
  obtain ⟨found, hfound⟩ := (Arena.mem_ids_iff _ _).mp (mem_ids_of_children hmem)
  refine ⟨child, hchild, fun a => ?_, fun a => ?_, fun a => ?_⟩
  · simp only [get?, Arena.find?_modify, Option.map_map]
    congr 1
    funext item
    simp only [Function.comp]
    split_ifs <;> rfl
  · simp only [parent?, Arena.find?_modify, Option.map_map]
    cases forest.items.find? a with
    | none => simp
    | some item =>
        simp only [Option.map_some, Function.comp, Option.bind_some]
        split_ifs <;> rfl
  · by_cases ha : a = parent
    · subst ha
      rw [herase]
      simp [children, Arena.find?_modify, hfound, hne]
    · have hnot : child ∉ forest.children a := fun hc =>
        ha (Option.some.inj ((ht.listed.mp hc).symm.trans (ht.listed.mp hmem)))
      rw [List.erase_of_not_mem hnot]
      simp only [children, Arena.find?_modify, Option.map_map, ha, if_false]
      congr 2
      funext item
      simp only [Function.comp]
      split_ifs <;> rfl

theorem Tidy.detached (ht : forest.Tidy) (child : ItemId) :
    Detached forest child ((forest.detach? child).getD forest) := by
  cases hp : forest.parent? child with
  | none =>
      simp only [detach?, hp, Option.getD_none]
      refine ⟨fun _ => rfl, fun a => ?_, fun a => (List.erase_of_not_mem fun hc => ?_).symm⟩
      · split
        · next ha => rw [ha, hp]
        · rfl
      · exact absurd (hp.symm.trans (ht.listed.mp hc)) (by simp)
  | some parent =>
      obtain ⟨row, hrow, hchild⟩ := ht.exists_row hp
      cases h : forest.removeChild? parent row with
      | none => simp [removeChild?, hchild] at h
      | some other =>
          simp only [detach?, hp, hrow, h, Option.getD_some]
          obtain ⟨child', hchild', hdetached⟩ := ht.removeChild?_eq_some h
          obtain rfl := Option.some.inj (hchild.symm.trans hchild')
          exact hdetached

end Attach

section Take

-- Items kept or dropped together with their parents.
theorem Tidy.keep (ht : forest.Tidy) (test : ItemId → Bool)
    (htest : ∀ {a b}, forest.Under a b → test a = test b) :
    (⟨forest.items.keep test⟩ : Forest α).Tidy := by
  have hunder : ∀ a b, (⟨forest.items.keep test⟩ : Forest α).Under a b ↔
      test a = true ∧ forest.Under a b := by
    intro a b
    simp only [Under, parent?, Arena.find?_keep]
    split <;> simp [*]
  have hchildren : ∀ a, (⟨forest.items.keep test⟩ : Forest α).children a =
      if test a then forest.children a else [] := by
    intro a
    simp only [children, Arena.find?_keep]
    split <;> simp [*]
  constructor
  case listed =>
    intro a b
    rw [hunder, hchildren]
    constructor
    · intro h
      split at h
      · next hb => exact ⟨(htest (ht.listed.mp h)).trans hb, ht.listed.mp h⟩
      · cases h
    · rintro ⟨ha, h⟩
      rw [if_pos ((htest h).symm.trans ha)]
      exact ht.listed.mpr h
  case once =>
    intro a
    rw [hchildren]
    split
    · exact ht.once a
    · exact List.nodup_nil
  case founded => exact Subrelation.wf (fun hab => ((hunder _ _).mp hab).2) ht.founded

-- An item and everything below it gone, the rest as it was.
structure Pruned (forest : Forest α) (top : ItemId) (other : Forest α) : Prop where
  data : ∀ {a}, ¬ ReflTransGen forest.Under a top → other.get? a = forest.get? a
  above : ∀ {a}, ¬ ReflTransGen forest.Under a top → other.parent? a = forest.parent? a
  gone : ∀ {a}, ReflTransGen forest.Under a top → other.get? a = none

-- What is left stands where it stood.
theorem Pruned.under {top a b : ItemId} {other : Forest α} (h : Pruned forest top other)
    (hab : other.Under a b) : forest.Under a b := by
  rw [Under, ← h.above, hab]
  intro hat
  obtain ⟨item, hitem⟩ := (Arena.mem_ids_iff _ _).mp (mem_ids_of_parent hab)
  have hgone := h.gone hat
  rw [get?, hitem] at hgone
  cases hgone

-- What is taken with an item is what stands below it.
theorem Tidy.mem_taken_iff (ht : forest.Tidy) {top a : ItemId} {loose : Forest α}
    (h : Detached forest top loose) :
    a ∈ top :: loose.descendants top ↔ ReflTransGen forest.Under a top := by
  rw [(ht.detach h).mem_cons_descendants_iff, ht.below_detached_iff h]

theorem Tidy.take (ht : forest.Tidy) {top : ItemId} (h : forest.contains top = true) :
    (forest.take top).2.Tidy ∧ Pruned forest top (forest.take top).2 := by
  have hloose := ht.detached top
  have htidy := ht.detach hloose
  rw [Forest.take, if_pos h]
  generalize (forest.detach? top).getD forest = loose at hloose htidy
  have hkeep : ∀ a, (!(top :: loose.descendants top).contains a) = true ↔
      ¬ ReflTransGen forest.Under a top := by
    intro a
    rw [Bool.not_eq_true', ← Bool.not_eq_true, List.contains_iff_mem, ht.mem_taken_iff hloose]
  constructor
  · refine htidy.keep _ fun {a b} hab => ?_
    obtain ⟨hne, hab⟩ := hloose.under_iff.mp hab
    rw [Bool.eq_iff_iff, hkeep, hkeep, not_iff_not]
    refine ⟨fun hat => ?_, fun hbt => .head hab hbt⟩
    rcases ReflTransGen.cases_head hat with heq | ⟨c, hac, hct⟩
    · exact absurd heq hne
    · obtain rfl : b = c := Option.some.inj (hab.symm.trans hac)
      exact hct
  · constructor
    case data =>
      intro a ha
      rw [← hkeep] at ha
      rw [get?, Arena.find?_keep, if_pos ha]
      exact hloose.data a
    case above =>
      intro a ha
      have hne : a ≠ top := by
        rintro rfl
        exact ha .refl
      rw [← hkeep] at ha
      rw [parent?, Arena.find?_keep, if_pos ha]
      exact (hloose.above a).trans (if_neg hne)
    case gone =>
      intro a ha
      have hout := mt (hkeep a).mp (not_not.mpr ha)
      rw [get?, Arena.find?_keep, if_neg hout]
      rfl

section Left

variable (ht : forest.Tidy) {top : ItemId} (h : forest.contains top = true)

include ht h

-- What is left has the children that it had, without the item that was taken.
theorem Tidy.children_take_eq_erase {a : ItemId} (ha : ¬ ReflTransGen forest.Under a top) :
    (forest.take top).2.children a = (forest.children a).erase top := by
  have hloose := ht.detached top
  rw [Forest.take, if_pos h]
  generalize (forest.detach? top).getD forest = loose at hloose
  have hleft : (!(top :: loose.descendants top).contains a) = true := by
    rw [Bool.not_eq_true', ← Bool.not_eq_true, List.contains_iff_mem, ht.mem_taken_iff hloose]
    exact ha
  rw [children, Arena.find?_keep, if_pos hleft]
  exact hloose.below a

variable {test : ItemId → Bool} (htest : ∀ a, test a = true ↔ ¬ ReflTransGen forest.Under a top)

include htest

theorem Tidy.children_take {a : ItemId} (ha : test a = true) :
    (forest.take top).2.children a = (forest.children a).filter test := by
  rw [ht.children_take_eq_erase h ((htest a).mp ha), (ht.once a).erase_eq_filter]
  refine List.filter_congr fun c hc => ?_
  -- a child of what is left was taken for itself, not for what it stood below
  rw [Bool.eq_iff_iff, htest, bne_iff_ne, not_iff_not]
  constructor
  · rintro rfl
    exact .refl
  · intro hct
    rcases ReflTransGen.cases_head hct with heq | ⟨b, hcb, hbt⟩
    · exact heq
    · obtain rfl : a = b := Option.some.inj ((ht.listed.mp hc).symm.trans hcb)
      exact absurd hbt ((htest a).mp ha)

theorem Tidy.descendants_take {a : ItemId} (ha : test a = true) :
    (forest.take top).2.descendants a = (forest.descendants a).filter test := by
  have hwalks := (ht.walks_descendants a).filter (fun hb => ht.children_take h htest hb)
    fun {b c} hb hc => by
      rw [← Bool.not_eq_true, htest, not_not] at hb ⊢
      exact .head (ht.listed.mp hc) hb
  rw [← ht.children_take h htest ha] at hwalks
  exact ((ht.take h).1.walks_descendants a).unique hwalks

end Left

end Take

end Dataflow.Forest
