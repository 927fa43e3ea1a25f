import Dataflow.Proofs.Ragged.Canonical
import Mathlib.Data.List.Induction

namespace Dataflow

section Noted

variable {ε α β : Type}

-- A function that first writes down what it is called with.
def noted (f : α → Except ε β) (item : α) : ExceptT ε (StateM (List α)) β := do
  modify (· ++ [item])
  liftM (f item)

variable {f : α → Except ε β} {item : α}

theorem run_noted_error {e : ε} (h : f item = .error e) (rest calls : List α) :
    ((item :: rest).mapM (noted f)).run.run calls = (.error e, calls ++ [item]) := by
  have hitem : (noted f item).run.run calls = (f item, calls ++ [item]) := rfl
  rw [List.mapM_cons, ExceptT.run_bind, StateT.run_bind, hitem, h]
  rfl

theorem run_noted_ok {result : β} (h : f item = .ok result) (rest calls : List α) :
    ((item :: rest).mapM (noted f)).run.run calls =
      (((rest.mapM (noted f)).run.run (calls ++ [item])).1.map (result :: ·),
        ((rest.mapM (noted f)).run.run (calls ++ [item])).2) := by
  have hitem : (noted f item).run.run calls = (f item, calls ++ [item]) := rfl
  rw [List.mapM_cons, ExceptT.run_bind, StateT.run_bind, hitem, h]
  change ((rest.mapM (noted f) >>= fun others => pure (result :: others)).run).run
    (calls ++ [item]) = _
  rw [ExceptT.run_bind, StateT.run_bind]
  rcases (rest.mapM (noted f)).run.run (calls ++ [item]) with ⟨outcome, called⟩
  cases outcome <;> rfl

theorem mapM_cons_error {e : ε} (h : f item = .error e) (rest : List α) :
    (item :: rest).mapM f = .error e := by
  rw [List.mapM_cons, h]
  rfl

theorem mapM_cons_ok {result : β} (h : f item = .ok result) (rest : List α) :
    (item :: rest).mapM f = (rest.mapM f).map (result :: ·) := by
  rw [List.mapM_cons, h]
  cases rest.mapM f <;> rfl

-- A traversal calls its function on the items in order. Either there is a result for each
-- of them, or the first item without one is the last that is called for.
theorem mapM_noted (f : α → Except ε β) (items calls : List α) :
    (∃ results, items.mapM f = .ok results ∧
      (items.mapM (noted f)).run.run calls = (.ok results, calls ++ items)) ∨
    ∃ before item after e, items = before ++ item :: after ∧
      (∀ earlier ∈ before, ∃ result, f earlier = .ok result) ∧ f item = .error e ∧
      items.mapM f = .error e ∧
      (items.mapM (noted f)).run.run calls = (.error e, calls ++ before ++ [item]) := by
  induction items generalizing calls with
  | nil => exact .inl ⟨[], rfl, by rw [List.append_nil]; rfl⟩
  | cons item rest ih =>
      cases hitem : f item with
      | error e =>
          refine .inr ⟨[], item, rest, e, rfl, by simp, hitem, mapM_cons_error hitem rest, ?_⟩
          rw [run_noted_error hitem, List.append_nil]
      | ok result =>
          rw [mapM_cons_ok hitem, run_noted_ok hitem]
          rcases ih (calls ++ [item]) with ⟨results, hok, hcalls⟩ |
            ⟨before, bad, after, e, rfl, hbefore, hbad, herror, hcalls⟩
          · exact .inl ⟨result :: results, by rw [hok]; rfl, by rw [hcalls]; simp [Except.map]⟩
          · refine .inr ⟨item :: before, bad, after, e, rfl, ?_, hbad, by rw [herror]; rfl, ?_⟩
            · exact List.forall_mem_cons.mpr ⟨⟨result, hitem⟩, hbefore⟩
            · rw [hcalls]
              simp [Except.map]

end Noted

namespace Broadcast

-- The greatest length of the operands is `n`.
structure IsLongest (operands : List Ragged) (n : Nat) : Prop where
  attained : ∃ operand ∈ operands, operand.size = n
  bound : ∀ operand ∈ operands, operand.size ≤ n

-- An operand that has a value for each of `n` rows, of its own or the same in all of them.
def Fits (n : Nat) (operand : Ragged) : Prop :=
  operand.size = 1 ∨ operand.size = n

-- Among the operands of length `n`, the first of those that are nested deepest.
def Leads (operands : List Ragged) (n : Nat) (lead : Ragged) : Prop :=
  ∃ before after, operands = before ++ lead :: after ∧ lead.size = n ∧
    (∀ operand ∈ before, operand.size = n → operand.depth < lead.depth) ∧
    ∀ operand ∈ after, operand.size = n → operand.depth ≤ lead.depth

section Lengths

theorem IsLongest.unique {operands : List Ragged} {n m : Nat} (h : IsLongest operands n)
    (h' : IsLongest operands m) : n = m := by
  obtain ⟨long, hlong, hn⟩ := h.attained
  obtain ⟨other, hother, hm⟩ := h'.attained
  have hle := h'.bound long hlong
  have hge := h.bound other hother
  omega

theorem le_foldl_size (operands : List Ragged) (most : Nat) :
    most ≤ operands.foldl (fun most operand => max most operand.size) most ∧
      ∀ operand ∈ operands,
        operand.size ≤ operands.foldl (fun most operand => max most operand.size) most := by
  induction operands generalizing most with
  | nil => simp
  | cons operand rest ih =>
      obtain ⟨hmost, hrest⟩ := ih (max most operand.size)
      rw [List.foldl_cons]
      refine ⟨by omega, List.forall_mem_cons.mpr ⟨by omega, hrest⟩⟩

theorem isLongest_longest {operands : List Ragged} (hne : operands ≠ []) :
    IsLongest operands (longest operands) :=
  ⟨exists_size_eq_longest hne, (le_foldl_size operands 0).2⟩

theorem IsLongest.eq_longest {operands : List Ragged} {n : Nat} (h : IsLongest operands n) :
    longest operands = n := by
  obtain ⟨operand, hmem, -⟩ := h.attained
  exact (isLongest_longest (List.ne_nil_of_mem hmem)).unique h

-- The walk over the operands keeps the first of those that are nested deepest.
theorem exists_of_foldl_deeper {operands : List Ragged} (hne : operands ≠ []) :
    ∃ before lead after, operands.foldl deeper none = some lead ∧
      operands = before ++ lead :: after ∧ (∀ operand ∈ before, operand.depth < lead.depth) ∧
      ∀ operand ∈ after, operand.depth ≤ lead.depth := by
  induction operands using List.reverseRecOn with
  | nil => exact absurd rfl hne
  | append_singleton init last ih =>
      rw [List.foldl_append, List.foldl_cons, List.foldl_nil]
      by_cases hinit : init = []
      · subst hinit
        exact ⟨[], last, [], rfl, rfl, by simp, by simp⟩
      obtain ⟨before, lead, after, hlead, rfl, hbefore, hafter⟩ := ih hinit
      rw [hlead, deeper]
      by_cases hdepth : lead.depth < last.depth
      · refine ⟨before ++ lead :: after, last, [], if_pos hdepth, rfl, ?_, by simp⟩
        intro operand hmem
        rcases List.mem_append.mp hmem with hmem | hmem
        · exact Nat.lt_trans (hbefore operand hmem) hdepth
        rcases List.mem_cons.mp hmem with rfl | hmem
        · exact hdepth
        · exact Nat.lt_of_le_of_lt (hafter operand hmem) hdepth
      · refine ⟨before, lead, after ++ [last], if_neg hdepth, by simp, hbefore, ?_⟩
        intro operand hmem
        rcases List.mem_append.mp hmem with hmem | hmem
        · exact hafter operand hmem
        · obtain rfl := List.mem_singleton.mp hmem
          omega

theorem exists_leads {operands : List Ragged} {n : Nat} (h : IsLongest operands n) :
    ∃ lead, leading n operands = some lead ∧ Leads operands n lead := by
  obtain ⟨long, hlong, hsize⟩ := h.attained
  have hfull : long ∈ operands.filter fun operand => operand.size = n := by simp [hlong, hsize]
  obtain ⟨before, lead, after, hlead, heq, hbefore, hafter⟩ :=
    exists_of_foldl_deeper (List.ne_nil_of_mem hfull)
  -- what the filter leaves out on either side has another length
  obtain ⟨first, others, rfl, rfl, hothers⟩ := List.filter_eq_append_iff.mp heq
  obtain ⟨between, last, rfl, hbetween, hn, rfl⟩ := List.filter_eq_cons_iff.mp hothers
  refine ⟨lead, hlead, first ++ between, last, by simp, by simpa using hn, ?_, ?_⟩
  · intro operand hmem hop
    rcases List.mem_append.mp hmem with hmem | hmem
    · exact hbefore operand (by simp [hmem, hop])
    · exact absurd (by simp [hop]) (hbetween operand hmem)
  · intro operand hmem hop
    exact hafter operand (by simp [hmem, hop])

end Lengths

section Operands

variable {operands : List Ragged} {n : Nat}

theorem any_isEmpty_iff :
    operands.any Ragged.isEmpty = true ↔ ∃ operand ∈ operands, operand.size = 0 := by
  simp [Ragged.isEmpty, Ragged.size]

theorem decide_unfit_iff {operand : Ragged} :
    decide (operand.size ≠ n ∧ operand.size ≠ 1) = true ↔ ¬Fits n operand := by
  rw [decide_eq_true_iff]
  unfold Fits
  omega

theorem ofOperands_empty (hempty : ∃ operand ∈ operands, operand.size = 0) :
    ofOperands operands = .error (.degenerate .emptyOperand) := by
  obtain ⟨operand, hmem, -⟩ := id hempty
  have hne : ¬operands.isEmpty = true := by simpa using List.ne_nil_of_mem hmem
  rw [ofOperands, if_neg hne, if_pos (any_isEmpty_iff.mpr hempty)]

-- Past the first two checks, what is left depends on the first operand that does not fit.
theorem ofOperands_eq (hn : IsLongest operands n)
    (hfull : ∀ operand ∈ operands, operand.size ≠ 0) :
    ofOperands operands =
      match operands.find? fun operand => operand.size ≠ n ∧ operand.size ≠ 1 with
      | some bad => .error (.shapeMismatch n bad.size)
      | none => .ok ⟨operands, n, ((leading n operands).map (·.shape)).getD (.leaf 0)⟩ := by
  obtain ⟨operand, hmem, -⟩ := hn.attained
  have hne : ¬operands.isEmpty = true := by simpa using List.ne_nil_of_mem hmem
  have hany : ¬operands.any Ragged.isEmpty = true := by
    intro h
    obtain ⟨operand, hmem, hzero⟩ := any_isEmpty_iff.mp h
    exact hfull operand hmem hzero
  obtain rfl := hn.eq_longest
  rw [ofOperands, if_neg hne]
  exact if_neg hany

theorem ofOperands_mismatch {before after : List Ragged} {bad : Ragged}
    (hn : IsLongest operands n) (hfull : ∀ operand ∈ operands, operand.size ≠ 0)
    (hsplit : operands = before ++ bad :: after) (hbefore : ∀ operand ∈ before, Fits n operand)
    (hbad : ¬Fits n bad) : ofOperands operands = .error (.shapeMismatch n bad.size) := by
  have hfind : (operands.find? fun operand => operand.size ≠ n ∧ operand.size ≠ 1) =
      some bad := by
    refine List.find?_eq_some_iff_append.mpr ⟨?_, before, after, hsplit, fun operand hmem => ?_⟩
    · exact decide_unfit_iff.mpr hbad
    · rw [Bool.not_eq_true', ← Bool.not_eq_true, decide_unfit_iff]
      exact not_not_intro (hbefore operand hmem)
  rw [ofOperands_eq hn hfull, hfind]

theorem ofOperands_fits (hn : IsLongest operands n)
    (hfull : ∀ operand ∈ operands, operand.size ≠ 0)
    (hfits : ∀ operand ∈ operands, Fits n operand) : ∃ lead, Leads operands n lead ∧
      ofOperands operands = .ok ⟨operands, n, lead.shape⟩ := by
  obtain ⟨lead, hlead, hleads⟩ := exists_leads hn
  have hfind : (operands.find? fun operand => operand.size ≠ n ∧ operand.size ≠ 1) = none := by
    exact List.find?_eq_none.mpr fun operand hmem h =>
      decide_unfit_iff.mp h (hfits operand hmem)
  refine ⟨lead, hleads, ?_⟩
  rw [ofOperands_eq hn hfull, hfind, hlead]
  rfl

theorem exists_first_unfit (h : ¬∀ operand ∈ operands, Fits n operand) :
    ∃ before bad after, operands = before ++ bad :: after ∧
      (∀ operand ∈ before, Fits n operand) ∧ ¬Fits n bad := by
  induction operands with
  | nil => simp at h
  | cons operand rest ih =>
      by_cases hfit : Fits n operand
      · have hrest : ¬∀ operand ∈ rest, Fits n operand := fun hall =>
          h (List.forall_mem_cons.mpr ⟨hfit, hall⟩)
        obtain ⟨before, bad, after, rfl, hbefore, hbad⟩ := ih hrest
        exact ⟨operand :: before, bad, after, rfl, List.forall_mem_cons.mpr ⟨hfit, hbefore⟩, hbad⟩
      · exact ⟨[], operand, rest, rfl, by simp, hfit⟩

-- Operands are matched just if there are some, none of them is empty and all of them fit.
theorem ofOperands_eq_ok {broadcast : Broadcast} (h : ofOperands operands = .ok broadcast) :
    ∃ n lead, IsLongest operands n ∧ (∀ operand ∈ operands, operand.size ≠ 0) ∧
      (∀ operand ∈ operands, Fits n operand) ∧ Leads operands n lead ∧
      broadcast = ⟨operands, n, lead.shape⟩ := by
  have hne : operands ≠ [] := by
    intro hnil
    subst hnil
    cases h
  have hn := isLongest_longest hne
  have hfull : ∀ operand ∈ operands, operand.size ≠ 0 := by
    intro operand hmem hzero
    rw [ofOperands_empty ⟨operand, hmem, hzero⟩] at h
    cases h
  have hfits : ∀ operand ∈ operands, Fits (longest operands) operand := by
    by_contra hunfit
    obtain ⟨before, bad, after, hsplit, hbefore, hbad⟩ := exists_first_unfit hunfit
    rw [ofOperands_mismatch hn hfull hsplit hbefore hbad] at h
    cases h
  obtain ⟨lead, hleads, hok⟩ := ofOperands_fits hn hfull hfits
  exact ⟨_, lead, hn, hfull, hfits, hleads, Except.ok.inj (h.symm.trans hok)⟩

end Operands

section Rows

variable {operands : List Ragged} {broadcast : Broadcast}

-- What an operand has for row `i` out of `n`: its only value or its `i`-th.
def Supplies (n i : Nat) (operand : Ragged) (value : Value) : Prop :=
  operand.flat = [value] ∨ operand.size = n ∧ operand.flat[i]? = some value

theorem exists_valueIn {n i : Nat} (hi : i < n) {operand : Ragged} (hfit : Fits n operand) :
    ∃ value, valueIn operand.flat.toArray i = some value ∧ Supplies n i operand value := by
  unfold valueIn Supplies
  by_cases hone : operand.flat.length = 1
  · obtain ⟨value, hvalue⟩ := List.length_eq_one_iff.mp hone
    exact ⟨value, by simp [hvalue], .inl hvalue⟩
  · have hsize : operand.size = n := hfit.resolve_left hone
    have hlt : i < operand.flat.length := by rwa [← hsize] at hi
    refine ⟨operand.flat[i], ?_, .inr ⟨hsize, List.getElem?_eq_getElem hlt⟩⟩
    simp [hone, hlt]

-- No operand is passed over.
theorem supplied {n i : Nat} (hi : i < n) (hfits : ∀ operand ∈ operands, Fits n operand) :
    List.Forall₂ (Supplies n i) operands
      ((operands.map fun operand => operand.flat.toArray).filterMap fun column =>
        valueIn column i) := by
  induction operands with
  | nil => exact .nil
  | cons operand rest ih =>
      obtain ⟨hfit, hrest⟩ := List.forall_mem_cons.mp hfits
      obtain ⟨value, hvalue, hsupplies⟩ := exists_valueIn hi hfit
      simp only [List.map_cons, List.filterMap_cons, hvalue]
      exact .cons hsupplies (ih hrest)

theorem length_rows (broadcast : Broadcast) : broadcast.rows.length = broadcast.length := by
  simp [rows]

theorem row_supplied (hfits : ∀ operand ∈ broadcast.operands, Fits broadcast.length operand)
    {i : Nat} (hi : i < broadcast.length) : ∃ row, broadcast.rows[i]? = some row ∧
      List.Forall₂ (Supplies broadcast.length i) broadcast.operands row := by
  refine ⟨_, ?_, supplied hi hfits⟩
  simp [rows, hi]

end Rows

section Map

-- The work on the rows with whatever else the row function does besides failing.
def mapIn {m : Type → Type} [Monad m] [MonadLiftT (Except EvalError) m] (broadcast : Broadcast)
    (f : Nat → List Value → m Value) : m Ragged := do
  let results ← broadcast.rows.zipIdx.mapM fun (row, i) => f i row
  liftM (Ragged.ofParts results broadcast.shape)

theorem mapIn_eq_map (broadcast : Broadcast) (f : Nat → List Value → Except EvalError Value) :
    broadcast.mapIn f = broadcast.map f := rfl

-- A row function that writes down the rows that it is called with and their numbers.
def recorded (f : Nat → List Value → Except EvalError Value) (i : Nat) (row : List Value) :
    ExceptT EvalError (StateM (List (List Value × Nat))) Value :=
  noted (fun (row, i) => f i row) (row, i)

-- How the rows are worked on: the first of them that fails is the last one taken up, and
-- its error is the answer. Where none does, the results stand in the chosen nesting.
inductive Worked (broadcast : Broadcast) (f : Nat → List Value → Except EvalError Value) :
    Except EvalError Ragged → List (List Value × Nat) → Prop where
  | done {value : Ragged} : value.shape = broadcast.shape →
      List.Forall₂ (fun (row, i) result => f i row = .ok result) broadcast.rows.zipIdx
        value.flat → Worked broadcast f (.ok value) broadcast.rows.zipIdx
  | failed {before after : List (List Value × Nat)} {row : List Value} {i : Nat}
      {e : EvalError} : broadcast.rows.zipIdx = before ++ (row, i) :: after →
      (∀ call ∈ before, ∃ result, f call.2 call.1 = .ok result) → f i row = .error e →
        Worked broadcast f (.error e) (before ++ [(row, i)])

variable {broadcast : Broadcast} (f : Nat → List Value → Except EvalError Value)

theorem run_mapIn {outcome : Except EvalError (List Value)} {calls : List (List Value × Nat)}
    (h : (broadcast.rows.zipIdx.mapM (noted fun (row, i) => f i row)).run.run [] =
      (outcome, calls)) :
    (broadcast.mapIn (recorded f)).run.run [] =
      (outcome.bind (Ragged.ofParts · broadcast.shape), calls) := by
  have hitems : (broadcast.rows.zipIdx.mapM fun (row, i) => recorded f i row) =
      broadcast.rows.zipIdx.mapM (noted fun (row, i) => f i row) := rfl
  rw [mapIn, ExceptT.run_bind, StateT.run_bind, hitems, h]
  cases outcome <;> rfl

theorem worked (hshape : broadcast.shape.leaves = List.range broadcast.length) :
    ∃ calls, (broadcast.mapIn (recorded f)).run.run [] = (broadcast.map f, calls) ∧
      Worked broadcast f (broadcast.map f) calls := by
  rcases mapM_noted (fun (row, i) => f i row) broadcast.rows.zipIdx [] with
    ⟨results, hok, hcalls⟩ | ⟨before, ⟨row, i⟩, after, e, hsplit, hbefore, hbad, herror, hcalls⟩
  · have hleaves : broadcast.shape.leaves = List.range results.length := by
      rw [hshape, length_of_eachRow hok]
    have hparts := Ragged.ofParts_of_leaves hleaves
    have hmap : broadcast.map f = .ok ⟨results, broadcast.shape⟩ := by
      rw [map, eachRow, hok]
      exact hparts
    rw [run_mapIn f hcalls, hmap]
    exact ⟨_, congrArg (·, _) hparts, .done rfl (forall₂_of_mapM hok)⟩
  · have hmap : broadcast.map f = .error e := by
      rw [map, eachRow, herror]
      rfl
    rw [run_mapIn f hcalls, hmap]
    exact ⟨_, rfl, .failed hsplit hbefore hbad⟩

end Map

-- What operands are matched to: rows of the greatest length, with a value of each operand
-- in each of them, and the nesting of the operand that leads.
structure Matched (operands : List Ragged) (broadcast : Broadcast) : Prop where
  same : broadcast.operands = operands
  length : IsLongest operands broadcast.length
  shape : ∃ lead, Leads operands broadcast.length lead ∧ broadcast.shape = lead.shape
  rows : broadcast.rows.length = broadcast.length
  row : ∀ i < broadcast.length, ∃ row, broadcast.rows[i]? = some row ∧
    List.Forall₂ (Supplies broadcast.length i) operands row
  map : ∀ f, broadcast.mapIn f = broadcast.map f ∧
    ∃ calls, (broadcast.mapIn (recorded f)).run.run [] = (broadcast.map f, calls) ∧
      Worked broadcast f (broadcast.map f) calls

section Matched

variable {operands : List Ragged} (hc : ∀ operand ∈ operands, operand.Canonical)

include hc

theorem matched_of_ofOperands {broadcast : Broadcast} (h : ofOperands operands = .ok broadcast) :
    Matched operands broadcast := by
  obtain ⟨n, lead, hn, -, hfits, hlead, rfl⟩ := ofOperands_eq_ok h
  exact
    { same := rfl
      length := hn
      shape := ⟨lead, hlead, rfl⟩
      rows := length_rows _
      row := fun i hi => row_supplied hfits hi
      map := fun f => ⟨mapIn_eq_map _ f, worked f (leaves_shape hc h)⟩ }

-- Operands are matched just if there are some, none of them is empty and each has a value
-- for every row of the longest. What stands in the way otherwise is named, the first
-- operand that does not fit where it is the lengths.
theorem operands_matched_exactly :
    ((∃ broadcast, ofOperands operands = .ok broadcast) ↔
      operands ≠ [] ∧ (∀ operand ∈ operands, operand.size ≠ 0) ∧
        ∃ n, IsLongest operands n ∧ ∀ operand ∈ operands, Fits n operand) ∧
    (operands = [] → ofOperands operands = .error (.degenerate .noOperand)) ∧
    ((∃ operand ∈ operands, operand.size = 0) →
      ofOperands operands = .error (.degenerate .emptyOperand)) ∧
    (∀ n before bad after, (∀ operand ∈ operands, operand.size ≠ 0) → IsLongest operands n →
      operands = before ++ bad :: after → (∀ operand ∈ before, Fits n operand) → ¬Fits n bad →
        ofOperands operands = .error (.shapeMismatch n bad.size)) ∧
    ∀ broadcast, ofOperands operands = .ok broadcast → Matched operands broadcast := by
  refine ⟨⟨?_, ?_⟩, ?_, ofOperands_empty, ?_, fun broadcast => matched_of_ofOperands hc⟩
  · rintro ⟨broadcast, h⟩
    obtain ⟨n, lead, hn, hfull, hfits, -, -⟩ := ofOperands_eq_ok h
    obtain ⟨operand, hmem, -⟩ := hn.attained
    exact ⟨List.ne_nil_of_mem hmem, hfull, n, hn, hfits⟩
  · rintro ⟨-, hfull, n, hn, hfits⟩
    obtain ⟨lead, -, hok⟩ := ofOperands_fits hn hfull hfits
    exact ⟨_, hok⟩
  · intro hnil
    subst hnil
    rfl
  · intro n before bad after hfull hn hsplit hbefore hbad
    exact ofOperands_mismatch hn hfull hsplit hbefore hbad

end Matched

-- Two rows, nested as the third operand is: the second one is nested deeper, but it has a
-- single value for both rows.
private def staggered : List Ragged :=
  [.ofList [.text "a", .text "b"], ⟨[.null], .list [.list [.list [.leaf 0]]]⟩,
    ⟨[.text "c", .text "d"], .list [.list [.leaf 0], .list [.leaf 1]]⟩]

theorem staggered_matched : (∀ operand ∈ staggered, operand.Canonical) ∧
    ∃ broadcast, ofOperands staggered = .ok broadcast ∧ Matched staggered broadcast := by
  have hc : ∀ operand ∈ staggered, operand.Canonical := by decide
  exact ⟨hc, _, rfl, (operands_matched_exactly hc).2.2.2.2 _ rfl⟩

end Broadcast

end Dataflow
