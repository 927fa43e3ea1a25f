import Dataflow.Proofs.Yaml.Text

namespace Dataflow.Yaml

-- What may follow a margin: the end of the text, or a character that is neither skipped
-- nor the start of something that is.
def Begins (rest : List Char) : Prop :=
  ∀ c ∈ rest.head?, isBlank c = false ∧ isBreak c = false ∧ c ≠ '#' ∧ c ≠ '\ufeff'

namespace Cursor

variable {cursor : Cursor}

theorem skip_skip (a b : Nat) : (cursor.skip a).skip b = cursor.skip (a + b) := by
  simp only [skip, List.drop_drop, Nat.add_assoc]

theorem skip_zero : cursor.skip 0 = cursor := rfl

theorem rest_skip_append {taken rest : List Char} (h : cursor.rest = taken ++ rest) :
    (cursor.skip taken.length).rest = rest := by
  rw [skip, h, List.drop_left]

theorem rest_skip_one {c : Char} {rest : List Char} (h : cursor.rest = c :: rest) :
    (cursor.skip 1).rest = rest := by
  rw [skip, h, List.drop_one, List.tail_cons]

theorem rest_nextLine {c : Char} {rest : List Char} (h : cursor.rest = c :: rest) :
    (cursor.nextLine 1).rest = rest := by
  rw [nextLine, h, List.drop_one, List.tail_cons]

theorem atDocumentMarker_of_column (h : cursor.column ≠ 0) : cursor.atDocumentMarker = false := by
  simp only [atDocumentMarker, atMarker, h, decide_false, Bool.false_and, Bool.or_self]

-- The place after characters of one line or of several.
def past (cursor : Cursor) : List Char → Cursor
  | [] => cursor
  | c :: rest => (if isBreak c then cursor.nextLine 1 else cursor.skip 1).past rest

theorem past_append (a b : List Char) : cursor.past (a ++ b) = (cursor.past a).past b := by
  induction a generalizing cursor with
  | nil => rfl
  | cons c rest ih => exact ih

theorem rest_past {taken rest : List Char} (h : cursor.rest = taken ++ rest) :
    (cursor.past taken).rest = rest := by
  induction taken generalizing cursor with
  | nil => exact h
  | cons c taken ih =>
      refine ih ?_
      split
      · exact rest_nextLine h
      · exact rest_skip_one h

theorem line_le_past (taken : List Char) : cursor.line ≤ (cursor.past taken).line := by
  induction taken generalizing cursor with
  | nil => exact Nat.le_refl _
  | cons c taken ih =>
      refine Nat.le_trans ?_ ih
      split
      · exact Nat.le_succ _
      · exact Nat.le_refl _

theorem past_of_line {taken : List Char} (h : ∀ c ∈ taken, isBreak c = false) :
    cursor.past taken = cursor.skip taken.length := by
  induction taken generalizing cursor with
  | nil => rfl
  | cons c taken ih =>
      obtain ⟨hc, htaken⟩ := List.forall_mem_cons.mp h
      rw [past, hc, if_neg Bool.false_ne_true, ih htaken, skip_skip, List.length_cons,
        Nat.add_comm]

theorem past_spaces (count : Nat) : cursor.past (spaces count) = cursor.skip count := by
  have h := @past_of_line cursor (spaces count) fun c hc => by
    rw [List.eq_of_mem_replicate hc]
    rfl
  rwa [spaces, List.length_replicate] at h

-- The line breaks that are kept as they are.
theorem takeBreak_feed {c : Char} {rest : List Char} (h : cursor.rest = c :: rest)
    (hc : c = '\n' ∨ c = '\u2028' ∨ c = '\u2029') :
    cursor.takeBreak = ([c], cursor.nextLine 1) := by
  rcases hc with rfl | rfl | rfl <;> simp [takeBreak, h, isBreak]

end Cursor

-- Blanks added to a gap.
def Gap.addSpaces (gap : Gap) (count : Nat) : Gap :=
  if gap.broken then gap else { gap with blanks := spaces count ++ gap.blanks }

theorem scanGap_space {margin fuel : Nat} {gap : Gap} {cursor : Cursor} {rest : List Char}
    (hrest : cursor.rest = ' ' :: rest) :
    scanGap margin (fuel + 1) gap cursor =
      scanGap margin fuel (gap.addBlank ' ') (cursor.skip 1) := by
  rw [scanGap, hrest]
  simp [isBlank]

-- A line break is taken as a whole.
theorem scanGap_feed {margin fuel : Nat} {gap : Gap} {cursor : Cursor} {c : Char}
    {rest : List Char} (hrest : cursor.rest = c :: rest)
    (hc : c = '\n' ∨ c = '\u2028' ∨ c = '\u2029') :
    scanGap margin (fuel + 1) gap cursor =
      scanGap margin fuel (gap.addBreak [c]) (cursor.nextLine 1) := by
  have hkind : isBlank c = false ∧ isBreak c = true := by
    rcases hc with rfl | rfl | rfl <;> exact ⟨rfl, rfl⟩
  rw [scanGap, Cursor.takeBreak_feed hrest hc, hrest]
  simp only [hkind.1, hkind.2, Bool.false_eq_true, if_false, if_true]

theorem scanGap_spaces {margin : Nat} (count : Nat) {fuel : Nat} {gap : Gap} {cursor : Cursor}
    {rest : List Char} (hrest : cursor.rest = spaces count ++ rest) (hfuel : count < fuel) :
    scanGap margin fuel gap cursor =
      scanGap margin (fuel - count) (gap.addSpaces count) (cursor.skip count) := by
  induction count generalizing fuel gap cursor with
  | zero =>
      have hgap : gap.addSpaces 0 = gap := by
        rw [Gap.addSpaces]
        split <;> rfl
      rw [hgap]
      rfl
  | succ count ih =>
      obtain ⟨fuel, rfl⟩ : ∃ n, fuel = n + 1 := ⟨fuel - 1, by omega⟩
      have hgap : (gap.addBlank ' ').addSpaces count = gap.addSpaces (count + 1) := by
        obtain ⟨broken, blanks, firstBreak, otherBreaks⟩ := gap
        cases broken with
        | true => rfl
        | false => simp [Gap.addSpaces, Gap.addBlank, spaces, List.replicate_succ']
      have hcons : cursor.rest = ' ' :: (spaces count ++ rest) := hrest
      have hnext : (cursor.skip 1).rest = spaces count ++ rest :=
        Cursor.rest_skip_one hcons
      rw [scanGap_space hcons, ih hnext (by omega), hgap, Cursor.skip_skip, Nat.add_sub_add_right,
        Nat.add_comm 1 count]

theorem scanGap_stop {margin fuel : Nat} {gap : Gap} {cursor : Cursor}
    (h : ∀ c ∈ cursor.rest.head?, isBlank c = false ∧ isBreak c = false) :
    scanGap margin (fuel + 1) gap cursor = some (gap, cursor) := by
  rw [scanGap]
  split
  · rfl
  · rename_i c rest heq
    obtain ⟨hblank, hbreak⟩ := h c (by rw [heq]; rfl)
    rw [hblank, hbreak]
    rfl

-- To the beginning of the next line, over its margin.
theorem scanGap_line {margin fuel : Nat} {cursor : Cursor} {count : Nat} {rest : List Char}
    (hrest : cursor.rest = '\n' :: (spaces count ++ rest)) (h : Begins rest)
    (hfuel : cursor.rest.length < fuel) :
    scanGap margin fuel Gap.none cursor =
      some (⟨true, [], ['\n'], []⟩, ⟨rest, cursor.index + (1 + count), cursor.line + 1, count⟩) := by
  obtain ⟨fuel, rfl⟩ : ∃ n, fuel = n + 1 := ⟨fuel - 1, by omega⟩
  have hlength : count < fuel := by
    rw [hrest, List.length_cons, List.length_append, spaces, List.length_replicate] at hfuel
    omega
  have hnext : (cursor.nextLine 1).rest = spaces count ++ rest :=
    Cursor.rest_nextLine hrest
  have hstep : scanGap margin (fuel + 1) Gap.none cursor =
      scanGap margin fuel ⟨true, [], ['\n'], []⟩ (cursor.nextLine 1) :=
    scanGap_feed hrest (.inl rfl)
  have hskip : ((cursor.nextLine 1).skip count) =
      ⟨rest, cursor.index + (1 + count), cursor.line + 1, count⟩ := by
    rw [Cursor.skip, hnext, spaces, List.drop_left' (List.length_replicate)]
    simp only [Cursor.nextLine, Nat.zero_add, Nat.add_assoc]
  obtain ⟨left, hleft⟩ : ∃ n, fuel - count = n + 1 := ⟨fuel - count - 1, by omega⟩
  rw [hstep, scanGap_spaces count hnext hlength, hleft, hskip]
  exact scanGap_stop fun c hc => ⟨(h c hc).1, (h c hc).2.1⟩

end Dataflow.Yaml
