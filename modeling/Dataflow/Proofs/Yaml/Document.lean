import Dataflow.Proofs.Yaml.Composed

namespace Dataflow.Yaml

section Chars

variable {c : Char} {cs : List Char}

theorem isTextChar_of_isPlainChar (h : isPlainChar c = true) : isTextChar c = true := by
  have hvalid := (isValid_toNat c).2
  simp only [isPlainChar, isTextChar, Bool.or_eq_true, Bool.and_eq_true, decide_eq_true_eq] at h ⊢
  omega

theorem isTextChar_of_isNumeralChar (h : isNumeralChar c = true) : isTextChar c = true := by
  have hval : c.toNat = c.val.toNat := rfl
  simp only [isNumeralChar, Char.isAlphanum, Char.isAlpha, Char.isUpper, Char.isLower, Char.isDigit,
    Bool.or_eq_true, Bool.and_eq_true, decide_eq_true_eq, ge_iff_le, UInt32.le_iff_toNat_le] at h
  simp only [isTextChar, Bool.or_eq_true, Bool.and_eq_true, decide_eq_true_eq, hval]
  rcases h with ((((h | h) | h) | rfl) | rfl) | rfl
  · have hlow : 'A'.val.toNat = 65 := rfl
    have hhigh : 'Z'.val.toNat = 90 := rfl
    omega
  · have hlow : 'a'.val.toNat = 97 := rfl
    have hhigh : 'z'.val.toNat = 122 := rfl
    omega
  · have hlow : '0'.val.toNat = 48 := rfl
    have hhigh : '9'.val.toNat = 57 := rfl
    omega
  · decide
  · decide
  · decide

theorem all_spaces (count : Nat) : (spaces count).all isTextChar = true :=
  List.all_eq_true.mpr fun c hc => by
    rw [List.eq_of_mem_replicate hc]
    rfl

theorem all_escaped (c : Char) : (escaped c).all isTextChar = true := by
  have hhex : ∀ width n, (paddedHex width n).all isTextChar = true := by
    intro width n
    obtain ⟨digits, heq, hlt, -, -, -⟩ := exists_digits (by decide : 1 < 16) n
    have hall : ∀ k < 16, isTextChar k.digitChar.toUpper = true := by decide
    rw [paddedHex, Text.hexDigits, heq]
    simp only [List.map_map, List.all_append, Bool.and_eq_true, List.all_eq_true, List.mem_map]
    refine ⟨fun c hc => ?_, ?_⟩
    · rw [List.eq_of_mem_replicate hc]
      rfl
    · rintro c ⟨k, hk, rfl⟩
      exact hall k (hlt k hk)
  rw [escaped]
  cases hletter : escapeLetter? c with
  | some letter =>
      have hall : isTextChar letter = true := by
        rw [escapeLetter?.eq_def] at hletter
        split at hletter <;> cases hletter <;> decide
      simp [hall]
      decide
  | none =>
      simp only []
      split
      · simp [hhex]
        decide
      · split
        · simp [hhex]
          decide
        · simp [hhex]
          decide

theorem all_doubleQuotedChar (c : Char) : (doubleQuotedChar c).all isTextChar = true := by
  rw [doubleQuotedChar]
  split
  · exact all_escaped c
  · rename_i hnot
    simp only [Bool.or_eq_true, Bool.not_eq_true', not_or, Bool.not_eq_false] at hnot
    simp [isTextChar_of_isPlainChar hnot.1.1.1]

theorem all_singleInside (h : ∀ c ∈ cs, isPlainChar c = true) (margin : Nat) (afterBreak : Bool) :
    (singleInside margin afterBreak cs).all isTextChar = true := by
  induction cs generalizing afterBreak with
  | nil => cases afterBreak <;> simp [singleInside, all_spaces]
  | cons c rest ih =>
      obtain ⟨hc, hrest⟩ := List.forall_mem_cons.mp h
      have hchar := isTextChar_of_isPlainChar hc
      rw [singleInside]
      split
      · rw [List.all_append, List.all_cons, hchar, ih hrest]
        split <;> rfl
      · rw [List.all_append, List.all_append, ih hrest]
        have hquote : (if c = '\'' then ['\'', '\''] else [c]).all isTextChar = true := by
          split
          · decide
          · simp [hchar]
        rw [hquote]
        cases afterBreak <;> simp [all_spaces]

theorem all_blockLines (h : ∀ c ∈ cs, isPlainChar c = true) (margin : Nat) (afterBreak : Bool) :
    (blockLines margin afterBreak cs).all isTextChar = true := by
  induction cs generalizing afterBreak with
  | nil => rfl
  | cons c rest ih =>
      obtain ⟨hc, hrest⟩ := List.forall_mem_cons.mp h
      have hchar := isTextChar_of_isPlainChar hc
      rw [blockLines]
      split
      · rw [List.all_cons, hchar, ih hrest]
        rfl
      · rw [List.all_append, List.all_cons, hchar, ih hrest]
        cases afterBreak <;> simp [all_spaces]

theorem all_blockHints (cs : List Char) : (blockHints cs).toList.all isTextChar = true := by
  have hdigit : (if cs.head?.any fun c => c = ' ' || isBreak c then "2" else "") = "2" ∨
      (if cs.head?.any fun c => c = ' ' || isBreak c then "2" else "") = "" := by
    split
    · exact .inl rfl
    · exact .inr rfl
  rw [blockHints.eq_def]
  rcases hdigit with hdigit | hdigit <;> rw [hdigit]
  all_goals
    split
    · decide
    · split
      · decide
      · split <;> decide

theorem all_lineEnd (style : Style) (cs : List Char) : (lineEnd style cs).all isTextChar = true := by
  rw [lineEnd.eq_def]
  split
  · split <;> decide
  · split <;> decide
  · decide

theorem all_numeral (h : ∀ c ∈ cs, isNumeralChar c = true) : cs.all isTextChar = true :=
  List.all_eq_true.mpr fun c hc => isTextChar_of_isNumeralChar (h c hc)

theorem all_styledChars (margin : Nat) (simpleKey : Bool) (cs : List Char) :
    (styledChars margin (chosenStyle (traits cs) simpleKey cs) cs).all isTextChar = true := by
  obtain ⟨hplain, hsingle, hblock, -⟩ := chosenStyle_spec (traits cs) simpleKey cs
  have hlines : ∀ cs : List Char, (∀ c ∈ cs, isPlainChar c = true) →
      ('|' :: ((blockHints cs).toList ++ '\n' :: blockLines margin true cs)).all isTextChar =
        true := by
    intro cs hchars
    rw [List.all_cons, List.all_append, all_blockHints, List.all_cons, all_blockLines hchars]
    decide
  cases hstyle : chosenStyle (traits cs) simpleKey cs with
  | plain =>
      obtain ⟨hwanted, hallowed⟩ := hplain hstyle
      obtain ⟨-, -, hchars⟩ := words_of_plainAllowed (ne_nil_of_plain hwanted) hallowed
      exact List.all_eq_true.mpr fun c hc => isTextChar_of_isPlainChar (hchars c hc).1
  | singleQuoted =>
      rw [styledChars, List.all_cons, List.all_append,
        all_singleInside (isPlainChar_of_mem (.inl (hsingle hstyle).2))]
      decide
  | doubleQuoted =>
      have hinside : (cs.flatMap doubleQuotedChar).all isTextChar = true := by
        rw [List.all_flatMap]
        exact List.all_eq_true.mpr fun c _ => all_doubleQuotedChar c
      rw [styledChars, List.all_cons, List.all_append, hinside]
      decide
  | literal =>
      obtain ⟨hwanted, hallowed, -⟩ := hblock hstyle
      exact hlines cs (isPlainChar_of_mem (.inr hallowed))
  | folded => exact absurd hstyle (chosenStyle_spec (traits cs) simpleKey cs).2.2.2

end Chars

section Trees

theorem all_leafChars (margin : Nat) (simpleKey : Bool) (tree : Tree) :
    (leafChars margin simpleKey tree).all isTextChar = true := by
  match tree with
  | .null => exact (by decide : "null".toList.all isTextChar = true)
  | .bool true => exact (by decide : "true".toList.all isTextChar = true)
  | .bool false => exact (by decide : "false".toList.all isTextChar = true)
  | .int i =>
      have hdigits : (Nat.toDigits 10 i.natAbs).all isTextChar = true := all_numeral fun c hc => by
        have hdigit := Nat.isDigit_of_mem_toDigits (by decide) (by decide) hc
        simp only [isNumeralChar, Char.isAlphanum, hdigit, Bool.or_true, Bool.true_or]
      rw [leafChars, toList_toString_int]
      split
      · rw [List.all_cons, hdigits]
        rfl
      · exact hdigits
  | .float x => exact all_numeral fun _ => isNumeralChar_of_mem_writeFloat
  | .single x => exact all_numeral fun _ => isNumeralChar_of_mem_writeFloat32
  | .text s => exact all_styledChars _ _ _
  | .seq _ => exact (by decide : ['[', ']'].all isTextChar = true)
  | .map _ => exact (by decide : ['\x7b', '\x7d'].all isTextChar = true)

theorem all_leafLine (margin : Nat) (tree : Tree) :
    (leafLine margin tree).all isTextChar = true := by
  have hline : (leafChars margin false tree ++ ['\n']).all isTextChar = true := by
    rw [List.all_append, all_leafChars]
    decide
  match tree with
  | .text s => rw [leafLine, List.all_append, all_leafChars, all_lineEnd, Bool.and_self]
  | .null | .bool _ | .int _ | .float _ | .single _ | .seq _ | .map _ => exact hline

theorem all_fieldChars (margin : Nat) (key : Tree) {near far : List Char}
    (hnear : near.all isTextChar = true) (hfar : far.all isTextChar = true) :
    (fieldChars margin key near far).all isTextChar = true := by
  rw [fieldChars]
  split
  · rw [List.all_append, all_leafChars, List.all_cons, hnear]
    decide
  · rw [List.all_cons, List.all_cons, List.all_append, all_leafLine, List.all_append, all_spaces,
      List.all_cons, hfar]
    decide

mutual
theorem all_afterMark (margin : Nat) (tree : Tree) :
    (afterMark margin tree).all isTextChar = true := by
  match tree with
  | .seq (item :: rest) =>
      rw [afterMark, List.all_cons, List.all_cons, List.all_append, all_afterMark, all_itemLines]
      decide
  | .map ((key, value) :: rest) =>
      have hfield := all_fieldChars (margin + 2) key (all_afterKey (margin + 2) value)
        (all_afterMark (margin + 2) value)
      rw [afterMark, List.all_cons, List.all_append, hfield, all_fieldLines]
      decide
  | .null | .bool _ | .int _ | .float _ | .single _ | .text _ | .seq [] | .map [] =>
      exact all_leafLine margin _

theorem all_afterKey (margin : Nat) (tree : Tree) :
    (afterKey margin tree).all isTextChar = true := by
  match tree with
  | .seq (item :: rest) => exact all_itemLines margin (item :: rest)
  | .map (field :: rest) => exact all_fieldLines (margin + 2) (field :: rest)
  | .null | .bool _ | .int _ | .float _ | .single _ | .text _ | .seq [] | .map [] =>
      exact all_leafLine margin _

theorem all_itemLines (margin : Nat) (items : List Tree) :
    (itemLines margin items).all isTextChar = true := by
  match items with
  | [] => rfl
  | item :: rest =>
      rw [itemLines, List.all_append, all_spaces, List.all_cons, List.all_append, all_afterMark,
        all_itemLines]
      decide

theorem all_fieldLines (margin : Nat) (fields : List (Tree × Tree)) :
    (fieldLines margin fields).all isTextChar = true := by
  match fields with
  | [] => rfl
  | (key, value) :: rest =>
      have hfield := all_fieldChars margin key (all_afterKey margin value)
        (all_afterMark margin value)
      rw [fieldLines, List.all_append, all_spaces, List.all_append, hfield, all_fieldLines]
      rfl
end

end Trees

-- What is found in a mapping that was written.
theorem tokens?_print (field : Tree × Tree) (rest : List (Tree × Tree))
    (h : (Tree.map (field :: rest)).Legible ReadsBack SingleReadsBack) :
    tokens? (print (.map (field :: rest))).toList =
      some (treeTokens false (.map (field :: rest))) := by
  have hall := all_fieldLines 0 (field :: rest)
  have hne := List.cons_ne_nil field rest
  have hlines : fieldLines 0 (field :: rest) = Scan.fieldsText 0 (field :: rest) ++ [] := by
    rw [Scan.fieldLines_cons, List.append_nil]
    rfl
  have hbegins := Scan.begins_fieldsText h hne 0 []
  have hhead : (fieldLines 0 (field :: rest)).head? ≠ some '\ufeff' := by
    rw [hlines]
    exact fun heq => (hbegins '\ufeff' heq).2.2.2 rfl
  rw [print_map, String.toList_ofList, tokens?, if_neg hhead, if_pos hall]
  have hyields : (Scan.start (fieldLines 0 (field :: rest))).Yields
      (treeTokens false (.map (field :: rest))) := by
    refine @Scan.yields_fields (field :: rest) h hne [] [0] [] [.blockMappingStart] _ _ [] 0 0 rfl
      (.opened rfl) hlines nofun (Nat.le_refl _) fun stop hstop _ => ?_
    have hend := @Scan.yields_end ((fieldTokens (field :: rest)).reverse ++ [.blockMappingStart]) true
      stop hstop
    rw [List.reverse_append, List.reverse_reverse] at hend
    rw [treeTokens]
    exact hend
  exact hyields _ (Nat.lt_succ_self _)

-- The document that a written mapping is.
theorem document?_print (field : Tree × Tree) (rest : List (Tree × Tree))
    (h : (Tree.map (field :: rest)).Legible ReadsBack SingleReadsBack) :
    ∃ document, document? (print (.map (field :: rest))) = some document ∧
      document.root = some (nodeOf (.map (field :: rest))) := by
  refine ⟨⟨_, .empty, eventCount (nodeOf (.map (field :: rest)))⟩, ?_, rfl⟩
  have hnode := @composeNode_tree (.map (field :: rest)) false standingShorthands .block
    (4 * (treeTokens false (.map (field :: rest))).length + 4) .empty [] (by simp) (by simp) (by omega)
  rw [List.append_nil] at hnode
  rw [document?, tokens?_print field rest h]
  show compose? (treeTokens false (.map (field :: rest))) = _
  rw [treeTokens] at hnode ⊢
  simp only [compose?, takeDirectives, List.nil_append, Option.bind_eq_bind, Option.bind_some,
    if_true, hnode, List.all_nil, Option.pure_def]

end Dataflow.Yaml
