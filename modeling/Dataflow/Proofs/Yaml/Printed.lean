import Dataflow.Proofs.Yaml.Text

namespace Dataflow.Yaml

-- What is put on a sheet in one style, its lines being broken or not.
section Scalars

variable {margin : Nat}

theorem wantedStyle_ne_folded (cs : List Char) : wantedStyle cs ≠ .folded := by
  rw [wantedStyle]
  split
  · exact nofun
  · split <;> exact nofun

-- What speaks for a style where it is chosen.
theorem chosenStyle_spec (traits : Traits) (simpleKey : Bool) (cs : List Char) :
    (chosenStyle traits simpleKey cs = .plain →
      wantedStyle cs = .plain ∧ traits.plainAllowed = true) ∧
    (chosenStyle traits simpleKey cs = .singleQuoted →
      wantedStyle cs ≠ .literal ∧ traits.singleAllowed = true) ∧
    (chosenStyle traits simpleKey cs = .literal →
      wantedStyle cs = .literal ∧ traits.blockAllowed = true ∧ simpleKey = false) ∧
    chosenStyle traits simpleKey cs ≠ .folded := by
  obtain ⟨multiline, plainAllowed, singleAllowed, blockAllowed⟩ := traits
  have hwanted := wantedStyle_ne_folded cs
  simp only [chosenStyle]
  generalize wantedStyle cs = wanted at hwanted
  generalize cs.isEmpty = empty
  revert multiline plainAllowed singleAllowed blockAllowed simpleKey empty
  cases wanted with
  | folded => exact absurd rfl hwanted
  | plain => decide
  | singleQuoted => decide
  | doubleQuoted => decide
  | literal => decide

theorem resolve_of_plain {cs : List Char} (h : wantedStyle cs = .plain) : resolve cs = .text := by
  rw [wantedStyle] at h
  split at h
  · cases h
  · split at h
    · cases h
    · rename_i hor
      exact Decidable.not_not.mp fun hne => hor (by simp [hne])

theorem ne_nil_of_plain {cs : List Char} (h : wantedStyle cs = .plain) : cs ≠ [] := by
  rintro rfl
  cases h

private theorem chars_margin_if (hm : 0 < margin) {afterBreak : Bool} {sheet : Sheet}
    (h : afterBreak = true → sheet.fresh = true ∧ sheet.column = 0) :
    (if afterBreak then sheet.margin margin else sheet).chars =
      (if afterBreak then spaces margin else []).reverse ++ sheet.chars := by
  cases afterBreak with
  | false => rfl
  | true =>
      rw [if_pos rfl, if_pos rfl, Sheet.margin_of_broken (h rfl).1 (h rfl).2 hm, spaces,
        List.reverse_replicate]

theorem chars_putSingle (hm : 0 < margin) (cs : List Char) (afterBreak : Bool) (sheet : Sheet)
    (h : afterBreak = true → sheet.fresh = true ∧ sheet.column = 0) :
    (putSingle margin afterBreak sheet cs).chars =
      (singleInside margin afterBreak cs).reverse ++ sheet.chars := by
  induction cs generalizing afterBreak sheet with
  | nil => exact chars_margin_if hm h
  | cons c rest ih =>
      have hstart := chars_margin_if hm h
      rw [putSingle, singleInside]
      split
      · rw [ih true _ fun _ => ⟨rfl, rfl⟩, List.reverse_append, List.reverse_cons,
          List.append_assoc, List.append_assoc]
        cases hbreak : !afterBreak && decide (c = '\n') with
        | false => rfl
        | true => rfl
      · generalize (if afterBreak then sheet.margin margin else sheet) = start at hstart
        rw [ih false _ (by simp), List.reverse_append, List.reverse_append, List.append_assoc,
          List.append_assoc, ← hstart]
        by_cases hquote : c = '\''
        · subst hquote
          rfl
        · simp only [hquote, if_false]
          split <;> rfl

theorem closes_putLines (hm : 0 < margin) (cs : List Char) (afterBreak : Bool) (sheet : Sheet)
    (hs : sheet.spaced = true) (hf : sheet.fresh = afterBreak)
    (hc : afterBreak = true → sheet.column = 0) :
    (putLines margin afterBreak sheet cs).Closes
      ((blockLines margin afterBreak cs ++
        if (cs.getLast?.map isBreak).getD afterBreak then [] else ['\n']).reverse ++
          sheet.chars) := by
  induction cs generalizing afterBreak sheet with
  | nil =>
      cases afterBreak with
      | false => exact Sheet.closes_of_not_fresh hf
      | true => exact Sheet.closes_of_broken hf hs (hc rfl)
  | cons c rest ih =>
      have hlast : ((c :: rest).getLast?.map isBreak).getD afterBreak =
          (rest.getLast?.map isBreak).getD (isBreak c) := by
        cases rest with
        | nil => rfl
        | cons d rest => rw [List.getLast?_cons_cons, List.getLast?_eq_some_getLast (by simp)]; rfl
      rw [hlast, putLines, blockLines]
      cases hbreak : isBreak c with
      | true =>
          have hrest := ih true { sheet.putBreak c with fresh := true } hs rfl fun _ => rfl
          simp only [if_true, List.cons_append, List.reverse_cons, List.append_assoc]
          exact hrest
      | false =>
          have hstart : (if afterBreak then sheet.margin margin else sheet).chars =
                (if afterBreak then spaces margin else []).reverse ++ sheet.chars ∧
              (if afterBreak then sheet.margin margin else sheet).spaced = true := by
            refine ⟨chars_margin_if hm fun h => ⟨hf.trans h, hc h⟩, ?_⟩
            cases afterBreak with
            | false => exact hs
            | true => rfl
          obtain ⟨hchars, hspaced⟩ := hstart
          have hrest := ih false
            { (if afterBreak then sheet.margin margin else sheet).put c with fresh := false }
            hspaced rfl (by simp)
          simp only [Bool.false_eq_true, if_false, List.append_assoc, List.cons_append,
            List.reverse_append, List.reverse_cons] at hrest ⊢
          rw [← hchars]
          exact hrest

-- A text that follows a mark, up to the next line.
theorem putText_closes (hm : 0 < margin) {sheet : Sheet} (hs : sheet.spaced = false)
    (cs : List Char) :
    (putText margin false sheet cs).Closes
      ((styledChars margin (chosenStyle (traits cs) false cs) cs ++
        lineEnd (chosenStyle (traits cs) false cs) cs).reverse ++ ' ' :: sheet.chars) := by
  obtain ⟨hplain, -, -, hfolded⟩ := chosenStyle_spec (traits cs) false cs
  rw [putText]
  cases hstyle : chosenStyle (traits cs) false cs with
  | folded => exact absurd hstyle hfolded
  | plain =>
      have hne : cs.isEmpty = false :=
        List.isEmpty_eq_false_iff.mpr (ne_nil_of_plain (hplain hstyle).1)
      refine Sheet.closes_line rfl ?_
      simp only [hs, hne, Bool.not_false, Bool.and_self, if_true, Sheet.putAll_eq, Sheet.put,
        Sheet.close, styledChars]
  | singleQuoted =>
      have hinside := chars_putSingle hm cs false (sheet.mark "'" true false false) (by simp)
      refine Sheet.closes_line rfl ?_
      simp only [Sheet.close, Sheet.chars_mark, hinside, Sheet.chars_mark_of_not_spaced hs,
        styledChars, List.reverse_cons, List.reverse_append, List.append_assoc]
      rfl
  | doubleQuoted =>
      refine Sheet.closes_line rfl ?_
      simp only [Sheet.close, Sheet.chars_mark, Sheet.putAll_eq, Sheet.chars_mark_of_not_spaced hs,
        styledChars, List.reverse_cons, List.reverse_append, List.append_assoc]
      rfl
  | literal =>
      have hlines := closes_putLines hm cs true
        { ((sheet.mark "|" true false false).mark (blockHints cs) false false false).putBreak '\n' with
          spaced := true
          fresh := true } rfl rfl fun _ => rfl
      have hend : lineEnd .literal cs =
          if (cs.getLast?.map isBreak).getD true then [] else ['\n'] := by
        rw [lineEnd]
        cases cs.getLast? <;> rfl
      rw [hend, styledChars]
      refine cast (congrArg _ ?_) hlines
      simp only [Sheet.putBreak, Sheet.chars_mark, Sheet.chars_mark_of_not_spaced hs,
        List.reverse_cons, List.reverse_append, List.append_assoc, List.cons_append]
      rfl

-- A key on one line, put where a line begins.
theorem putText_key (hm : 0 < margin) {sheet : Sheet} (hs : sheet.spaced = true) (cs : List Char) :
    (putText margin true sheet cs).chars =
        (styledChars margin (chosenStyle (traits cs) true cs) cs).reverse ++ sheet.chars ∧
      (putText margin true sheet cs).spaced = false ∧
      (putText margin true sheet cs).fresh = false := by
  obtain ⟨-, -, hliteral, hfolded⟩ := chosenStyle_spec (traits cs) true cs
  rw [putText]
  cases hstyle : chosenStyle (traits cs) true cs with
  | folded => exact absurd hstyle hfolded
  | literal => cases (hliteral hstyle).2.2
  | plain =>
      refine ⟨?_, rfl, rfl⟩
      simp only [hs, Bool.not_true, Bool.false_and, Bool.false_eq_true, if_false, Sheet.putAll_eq,
        Sheet.close, styledChars]
  | singleQuoted =>
      have hinside := chars_putSingle hm cs false (sheet.mark "'" true false false) (by simp)
      rw [Sheet.mark_of_spaced hs] at hinside
      refine ⟨?_, rfl, rfl⟩
      simp only [Sheet.close, Sheet.chars_mark, Sheet.mark_of_spaced hs, hinside, styledChars,
        List.reverse_cons, List.reverse_append, List.append_assoc]
      rfl
  | doubleQuoted =>
      refine ⟨?_, rfl, rfl⟩
      simp only [Sheet.close, Sheet.chars_mark, Sheet.putAll_eq, Sheet.mark_of_spaced hs,
        styledChars, List.reverse_cons, List.reverse_append, List.append_assoc]
      rfl

end Scalars

section Leaves

variable {sheet : Sheet}

theorem putWord_closes (hs : sheet.spaced = false) (word : String) :
    (putWord sheet word).Closes ((word.toList ++ ['\n']).reverse ++ ' ' :: sheet.chars) := by
  refine Sheet.closes_line rfl ?_
  simp only [putWord, hs, Bool.false_eq_true, if_false, Sheet.close, Sheet.putAll_eq, Sheet.put]

theorem putWord_key (hs : sheet.spaced = true) (word : String) :
    (putWord sheet word).chars = word.toList.reverse ++ sheet.chars ∧
      (putWord sheet word).spaced = false ∧ (putWord sheet word).fresh = false := by
  refine ⟨?_, rfl, rfl⟩
  simp only [putWord, hs, if_true, Sheet.close, Sheet.putAll_eq]

theorem putLeaf_closes (hs : sheet.spaced = false) (margin : Nat) (tree : Tree) :
    (putLeaf (some margin) false sheet tree).Closes
      ((leafLine margin tree).reverse ++ ' ' :: sheet.chars) := by
  cases tree with
  | null => exact putWord_closes hs _
  | bool truth => exact putWord_closes hs _
  | int i => exact putWord_closes hs _
  | float x => exact putWord_closes hs _
  | single x => exact putWord_closes hs _
  | text s => exact putText_closes (Nat.succ_pos _) hs _
  | seq items =>
      refine Sheet.closes_line (Bool.and_false _) ?_
      simp only [putLeaf, Sheet.chars_mark, Sheet.chars_mark_of_not_spaced hs]
      rfl
  | map fields =>
      refine Sheet.closes_line (Bool.and_false _) ?_
      simp only [putLeaf, Sheet.chars_mark, Sheet.chars_mark_of_not_spaced hs]
      rfl

theorem putLeaf_closes_line (hs : sheet.spaced = false) (margin : Nat) (tree : Tree) :
    (putLeaf (some margin) false sheet tree).Closes
      ((' ' :: leafLine margin tree).reverse ++ sheet.chars) := by
  rw [List.reverse_cons, List.append_assoc, List.singleton_append]
  exact putLeaf_closes hs margin tree

theorem putLeaf_key (hs : sheet.spaced = true) (margin : Nat) (tree : Tree) :
    (putLeaf (some margin) true sheet tree).chars =
        (leafChars margin true tree).reverse ++ sheet.chars ∧
      (putLeaf (some margin) true sheet tree).spaced = false ∧
      (putLeaf (some margin) true sheet tree).fresh = false := by
  cases tree with
  | null => exact putWord_key hs _
  | bool truth => exact putWord_key hs _
  | int i => exact putWord_key hs _
  | float x => exact putWord_key hs _
  | single x => exact putWord_key hs _
  | text s => exact putText_key (Nat.succ_pos _) hs _
  | seq items =>
      refine ⟨?_, rfl, Bool.and_false _⟩
      simp only [putLeaf, Sheet.chars_mark, Sheet.mark_of_spaced hs]
      rfl
  | map fields =>
      refine ⟨?_, rfl, Bool.and_false _⟩
      simp only [putLeaf, Sheet.chars_mark, Sheet.mark_of_spaced hs]
      rfl

end Leaves

section Trees

variable {sheet : Sheet} {margin : Nat}

-- A sheet on which a mark has just been put at the margin.
structure Marked (sheet : Sheet) (margin : Nat) : Prop where
  column : sheet.column = margin + 1
  spaced : sheet.spaced = false
  fresh : sheet.fresh = true

-- One field, its value being put as it should wherever it comes to stand.
theorem putField_closes {chars : List Char} (h : sheet.margin margin = ⟨chars, margin, true, true⟩)
    (key value : Tree)
    (hnear : ∀ sheet : Sheet, sheet.spaced = false → sheet.fresh = false →
      (putTree (some margin) true sheet value).Closes
        ((afterKey margin value).reverse ++ sheet.chars))
    (hfar : ∀ sheet : Sheet, Marked sheet margin →
      (putTree (some margin) true sheet value).Closes
        ((afterMark margin value).reverse ++ sheet.chars)) :
    (putTree (some margin) true (putKey margin sheet key) value).Closes
      ((fieldChars margin key (afterKey margin value) (afterMark margin value)).reverse ++
        chars) := by
  rw [putKey, h, fieldChars]
  split
  · obtain ⟨hchars, -, hf⟩ := @putLeaf_key ⟨chars, margin, true, true⟩ rfl margin key
    have hvalue := hnear ((putLeaf (some margin) true ⟨chars, margin, true, true⟩ key).mark ":"
      false false false) rfl (Bool.and_false _)
    rw [Sheet.chars_mark, hchars] at hvalue
    refine cast (congrArg _ ?_) hvalue
    simp only [List.reverse_append, List.reverse_cons, List.append_assoc]
    rfl
  · have hmark : (⟨chars, margin, true, true⟩ : Sheet).mark "?" true false true =
        ⟨'?' :: chars, margin + 1, false, true⟩ := Sheet.mark_of_spaced rfl _ _ _ _
    have hmargin := @putLeaf_closes ⟨'?' :: chars, margin + 1, false, true⟩ rfl margin key
      margin
    have hcolon : ∀ chars, (⟨chars, margin, true, true⟩ : Sheet).mark ":" true false true =
        ⟨':' :: chars, margin + 1, false, true⟩ :=
      fun chars => Sheet.mark_of_spaced rfl _ _ _ _
    simp only [hmark, hmargin, hcolon]
    have hvalue := hfar ⟨':' :: (spaces margin ++ ((leafLine margin key).reverse ++
      ' ' :: '?' :: chars)), margin + 1, false, true⟩ ⟨rfl, rfl, rfl⟩
    refine cast (congrArg _ ?_) hvalue
    simp only [List.reverse_append, List.reverse_cons, List.append_assoc, spaces,
      List.reverse_replicate, List.cons_append, List.nil_append]

-- One item, its hyphen being put where a line or a margin begins.
theorem putItem_closes {chars : List Char} (h : sheet.margin margin = ⟨chars, margin, true, true⟩)
    (item : Tree)
    (hitem : ∀ sheet : Sheet, Marked sheet margin →
      (putTree (some margin) false sheet item).Closes
        ((afterMark margin item).reverse ++ sheet.chars)) :
    (putTree (some margin) false ((sheet.margin margin).mark "-" true false true) item).Closes
      (('-' :: afterMark margin item).reverse ++ chars) := by
  have hmark : (⟨chars, margin, true, true⟩ : Sheet).mark "-" true false true =
      ⟨'-' :: chars, margin + 1, false, true⟩ := Sheet.mark_of_spaced rfl _ _ _ _
  rw [h, hmark, List.reverse_cons, List.append_assoc]
  exact hitem ⟨'-' :: chars, margin + 1, false, true⟩ ⟨rfl, rfl, rfl⟩

mutual
theorem putTree_marked (tree : Tree) {sheet : Sheet} {margin : Nat} (h : Marked sheet margin)
    (asValue : Bool) :
    (putTree (some margin) asValue sheet tree).Closes
      ((afterMark margin tree).reverse ++ sheet.chars) := by
  have hmargin := Sheet.margin_afterMark h.fresh h.column
  have hleaf := putLeaf_closes_line h.spaced margin
  match tree with
  | .seq (item :: rest) =>
      have hitem := putItem_closes hmargin item fun sheet hm => putTree_marked item hm false
      have hrest := putItems_closes (margin + 2) rest hitem
      have hinner : (if asValue && !sheet.fresh then margin else deeper (some margin)) =
          margin + 2 := by
        rw [h.fresh, Bool.not_true, Bool.and_false]
        rfl
      simp only [putTree, Option.getD_some, hinner, putItems, afterMark]
      refine cast (congrArg _ ?_) hrest
      simp only [List.reverse_cons, List.reverse_append, List.append_assoc, List.cons_append,
        List.nil_append]
  | .map ((key, value) :: rest) =>
      have hfield := putField_closes hmargin key value
        (fun sheet hs hf => putTree_afterKey value hs hf (margin + 2))
        (fun sheet hm => putTree_marked value hm true)
      have hrest := putFields_closes (margin + 2) rest hfield
      simp only [putTree, deeper, putFields, afterMark]
      refine cast (congrArg _ ?_) hrest
      simp only [List.reverse_cons, List.reverse_append, List.append_assoc, List.cons_append,
        List.nil_append]
  | .null => exact hleaf .null
  | .bool truth => exact hleaf (.bool truth)
  | .int i => exact hleaf (.int i)
  | .float x => exact hleaf (.float x)
  | .single x => exact hleaf (.single x)
  | .text s => exact hleaf (.text s)
  | .seq [] => exact hleaf (.seq [])
  | .map [] => exact hleaf (.map [])

theorem putTree_afterKey (tree : Tree) {sheet : Sheet} (hs : sheet.spaced = false)
    (hf : sheet.fresh = false) (margin : Nat) :
    (putTree (some margin) true sheet tree).Closes
      ((afterKey margin tree).reverse ++ sheet.chars) := by
  have hbreak := Sheet.closes_of_not_fresh hf
  have hleaf := putLeaf_closes_line hs margin
  match tree with
  | .seq (item :: rest) =>
      have hitems := putItems_closes margin (item :: rest) hbreak
      have hinner : (if true && !sheet.fresh then margin else deeper (some margin)) = margin := by
        rw [hf]
        rfl
      simp only [putTree, Option.getD_some, hinner, afterKey, List.reverse_cons,
        List.append_assoc, List.singleton_append]
      exact hitems
  | .map (field :: rest) =>
      have hfields := putFields_closes (margin + 2) (field :: rest) hbreak
      simp only [putTree, deeper, afterKey, List.reverse_cons, List.append_assoc,
        List.singleton_append]
      exact hfields
  | .null => exact hleaf .null
  | .bool truth => exact hleaf (.bool truth)
  | .int i => exact hleaf (.int i)
  | .float x => exact hleaf (.float x)
  | .single x => exact hleaf (.single x)
  | .text s => exact hleaf (.text s)
  | .seq [] => exact hleaf (.seq [])
  | .map [] => exact hleaf (.map [])

theorem putItems_closes {sheet : Sheet} {chars : List Char} (margin : Nat) (items : List Tree)
    (h : sheet.Closes chars) :
    (putItems margin sheet items).Closes ((itemLines margin items).reverse ++ chars) := by
  match items with
  | [] => exact h
  | item :: rest =>
      have hitem := putItem_closes (h margin) item fun sheet hm => putTree_marked item hm false
      have hrest := putItems_closes margin rest hitem
      rw [putItems, itemLines]
      refine cast (congrArg _ ?_) hrest
      simp only [List.reverse_cons, List.reverse_append, List.append_assoc, List.cons_append,
        List.nil_append, spaces, List.reverse_replicate]

theorem putFields_closes {sheet : Sheet} {chars : List Char} (margin : Nat)
    (fields : List (Tree × Tree)) (h : sheet.Closes chars) :
    (putFields margin sheet fields).Closes ((fieldLines margin fields).reverse ++ chars) := by
  match fields with
  | [] => exact h
  | (key, value) :: rest =>
      have hfield := putField_closes (h margin) key value
        (fun sheet hs hf => putTree_afterKey value hs hf margin)
        (fun sheet hm => putTree_marked value hm true)
      have hrest := putFields_closes margin rest hfield
      rw [putFields, fieldLines]
      refine cast (congrArg _ ?_) hrest
      simp only [List.reverse_append, List.append_assoc, spaces, List.reverse_replicate]
end

-- A mapping is written line by line, and nothing stands before or after the lines.
theorem print_map (field : Tree × Tree) (rest : List (Tree × Tree)) :
    print (.map (field :: rest)) = String.ofList (fieldLines 0 (field :: rest)) := by
  have hblank : Sheet.blank.Closes [] := Sheet.closes_of_broken rfl rfl rfl
  have hfields := putFields_closes 0 (field :: rest) hblank
  have hmargin := hfields 0
  rw [print, putTree, deeper, hmargin]
  simp only [spaces, List.replicate_zero, List.nil_append, List.append_nil, List.reverse_reverse]

end Trees

end Dataflow.Yaml
