import Dataflow.Proofs.Document.Shown
import Dataflow.Proofs.Yaml.Leaves

namespace Dataflow

def Tree.isLeaf : Tree → Bool
  | .seq items => items.isEmpty
  | .map fields => fields.isEmpty
  | _ => true

namespace Yaml

-- A key as it is found.
def keyToken (key : Tree) : Token :=
  match key with
  | .text s => .scalar (chosenStyle (traits s.toList) (isSimpleKey key) s.toList) s.toList
  | _ => .scalar .plain []

-- What is found of a tree without parts.
def leafTokens : Tree → List Token
  | .text s => [.scalar (chosenStyle (traits s.toList) false s.toList) s.toList]
  | .seq _ => [.flowSequenceStart, .flowSequenceEnd]
  | .map _ => [.flowMappingStart, .flowMappingEnd]
  | leaf => [.scalar .plain (leafChars 0 false leaf)]

mutual
-- What is found of a tree, with the ends of the blocks in it. After a key on one line
-- a list is no block of its own.
def treeTokens (afterKey : Bool) : Tree → List Token
  | .seq (item :: rest) =>
      if afterKey then itemTokens (item :: rest)
      else .blockSequenceStart :: (itemTokens (item :: rest) ++ [.blockEnd])
  | .map (field :: rest) => .blockMappingStart :: (fieldTokens (field :: rest) ++ [.blockEnd])
  | leaf => leafTokens leaf

def itemTokens : List Tree → List Token
  | [] => []
  | item :: rest => .blockEntry :: (treeTokens false item ++ itemTokens rest)

def fieldTokens : List (Tree × Tree) → List Token
  | [] => []
  | (key, value) :: rest =>
      .key :: keyToken key :: .value :: (treeTokens (isSimpleKey key) value ++ fieldTokens rest)
end

namespace Scan

variable {indents : List Nat} {tokens found : List Token} {keyAllowed : Bool} {cursor : Cursor}
  {rest : List Char} {margin count : Nat}

theorem plainText_word : PlainText "null".toList ∧ PlainText "true".toList ∧
    PlainText "false".toList := by
  refine ⟨?_, ?_, ?_⟩ <;>
    exact plainText_of_numeral (by decide) (forall_mem_of_all (by decide)) (by decide) (by decide)
      (by decide)

theorem yields_of_leaf {tree : Tree} (hlegible : tree.Legible ReadsBack SingleReadsBack)
    (hleaf : tree.isLeaf = true) (hinside : Inside indents margin cursor)
    (hrest : cursor.rest = leafLine margin tree ++ (spaces count ++ rest)) (hbegins : Begins rest)
    (hcount : count ≤ margin)
    (hyields : ∀ stop : Cursor, stop.rest = rest → stop.column = count →
      (settled indents ((leafTokens tree).reverse ++ tokens) true stop).Yields found) :
    (settled indents tokens keyAllowed cursor).Yields found := by
  have hplain : ∀ {cs : List Char}, PlainText cs → leafLine margin tree = cs ++ ['\n'] →
      leafTokens tree = [.scalar .plain cs] →
      (settled indents tokens keyAllowed cursor).Yields found := by
    intro cs hcs hline htokens
    rw [hline, List.append_assoc] at hrest
    rw [htokens] at hyields
    exact yields_of_plainLine hcs hinside hrest hbegins hcount hyields
  obtain ⟨hnull, htrue, hfalse⟩ := plainText_word
  match tree with
  | .null => exact hplain hnull rfl rfl
  | .bool true => exact hplain htrue rfl rfl
  | .bool false => exact hplain hfalse rfl rfl
  | .int i => exact hplain (resolve_toString hlegible.1 hlegible.2).1 rfl rfl
  | .float x => exact hplain (plainText_writeFloat hlegible) rfl rfl
  | .single x => exact hplain (plainText_writeFloat32 hlegible) rfl rfl
  | .text s =>
      rw [leafLine, leafChars, List.append_assoc] at hrest
      exact yields_of_text s.toList hinside hrest hbegins hcount hyields
  | .seq [] => exact yields_of_hollow .square hinside hrest hbegins hyields
  | .map [] => exact yields_of_hollow .curly hinside hrest hbegins hyields
  | .seq (item :: rest) => cases hleaf
  | .map (field :: rest) => cases hleaf

-- The items and the fields of a block without the margin before the first.
def itemsText (margin : Nat) : List Tree → List Char
  | [] => []
  | item :: rest => '-' :: (afterMark margin item ++ itemLines margin rest)

def fieldsText (margin : Nat) : List (Tree × Tree) → List Char
  | [] => []
  | (key, value) :: rest =>
      fieldChars margin key (afterKey margin value) (afterMark margin value) ++
        fieldLines margin rest

theorem itemLines_cons (margin : Nat) (item : Tree) (rest : List Tree) :
    itemLines margin (item :: rest) = spaces margin ++ itemsText margin (item :: rest) := by
  rw [itemLines, itemsText]

theorem fieldLines_cons (margin : Nat) (field : Tree × Tree) (rest : List (Tree × Tree)) :
    fieldLines margin (field :: rest) = spaces margin ++ fieldsText margin (field :: rest) := by
  rw [fieldLines, fieldsText]

theorem afterMark_cons (margin : Nat) (tree : Tree) :
    ∃ more, afterMark margin tree = ' ' :: more := by
  cases tree with
  | seq items => cases items <;> exact ⟨_, rfl⟩
  | map fields => cases fields <;> exact ⟨_, rfl⟩
  | _ => exact ⟨_, rfl⟩

theorem afterMark_of_leaf (margin : Nat) {tree : Tree} (h : tree.isLeaf = true) :
    afterMark margin tree = ' ' :: leafLine margin tree ∧
      afterKey margin tree = ' ' :: leafLine margin tree ∧
      ∀ afterKey, treeTokens afterKey tree = leafTokens tree := by
  match tree with
  | .seq (item :: rest) => cases h
  | .map ((key, value) :: rest) => cases h
  | .null | .bool _ | .int _ | .float _ | .single _ | .text _ | .seq [] | .map [] =>
      exact ⟨rfl, rfl, fun _ => rfl⟩

theorem begins_styledChars (margin : Nat) (simpleKey : Bool) (cs after : List Char) :
    Begins (styledChars margin (chosenStyle (traits cs) simpleKey cs) cs ++ after) := by
  obtain ⟨hplain, -, -, -⟩ := chosenStyle_spec (traits cs) simpleKey cs
  cases hstyle : chosenStyle (traits cs) simpleKey cs with
  | plain => exact (plainText_of_style (hplain hstyle).1 (hplain hstyle).2).begins after
  | singleQuoted => exact begins_of_mark (by decide) _
  | doubleQuoted => exact begins_of_mark (by decide) _
  | literal => exact begins_of_mark (by decide) _
  | folded => exact begins_of_mark (by decide) _

theorem begins_leafLine {tree : Tree} (hlegible : tree.Legible ReadsBack SingleReadsBack)
    (hleaf : tree.isLeaf = true) (margin : Nat) (after : List Char) :
    Begins (leafLine margin tree ++ after) := by
  obtain ⟨hnull, htrue, hfalse⟩ := plainText_word
  have hplain : ∀ {cs : List Char}, PlainText cs → Begins ((cs ++ ['\n']) ++ after) :=
    fun hcs => (List.append_assoc _ _ _).symm ▸ hcs.begins _
  match tree with
  | .null => exact hplain hnull
  | .bool true => exact hplain htrue
  | .bool false => exact hplain hfalse
  | .int i => exact hplain (resolve_toString hlegible.1 hlegible.2).1
  | .float x => exact hplain (plainText_writeFloat hlegible)
  | .single x => exact hplain (plainText_writeFloat32 hlegible)
  | .text s =>
      rw [leafLine, List.append_assoc]
      exact begins_styledChars _ _ _ _
  | .seq [] => exact begins_of_mark (by decide) _
  | .map [] => exact begins_of_mark (by decide) _
  | .seq (item :: rest) => cases hleaf
  | .map (field :: rest) => cases hleaf

theorem begins_fieldsText {fields : List (Tree × Tree)}
    (h : Tree.LegibleFields ReadsBack SingleReadsBack fields) (hne : fields ≠ []) (margin : Nat)
    (after : List Char) : Begins (fieldsText margin fields ++ after) := by
  match fields with
  | [] => exact absurd rfl hne
  | (key, value) :: rest =>
      obtain ⟨⟨s, rfl⟩, -, -⟩ := h
      rw [fieldsText, fieldChars]
      split
      · rw [leafChars, List.append_assoc, List.append_assoc]
        exact begins_styledChars _ _ _ _
      · exact begins_of_mark (by decide) _

-- A leaf after a mark or a colon and one blank.
theorem yields_of_spacedLeaf {tree : Tree} (hlegible : tree.Legible ReadsBack SingleReadsBack)
    (hleaf : tree.isLeaf = true) (hindents : indents.head? = some margin)
    (hcolumn : margin < cursor.column)
    (hrest : cursor.rest = ' ' :: leafLine margin tree ++ (spaces count ++ rest))
    (hbegins : Begins rest) (hcount : count ≤ margin)
    (hyields : ∀ stop : Cursor, stop.rest = rest → stop.column = count →
      (settled indents ((leafTokens tree).reverse ++ tokens) true stop).Yields found) :
    (settled indents tokens keyAllowed cursor).Yields found := by
  have hrest : cursor.rest = spaces 1 ++ (leafLine margin tree ++ (spaces count ++ rest)) := hrest
  have hnext : (cursor.skip 1).rest = leafLine margin tree ++ (spaces count ++ rest) := by
    rw [← Cursor.past_spaces, Cursor.rest_past hrest]
  refine yields_of_spaces hrest (begins_leafLine hlegible hleaf margin _) ?_
  exact yields_of_leaf hlegible hleaf ⟨hindents, Nat.lt_succ_of_lt hcolumn⟩ hnext hbegins hcount
    hyields

mutual
-- A tree after a mark at the margin.
theorem yields_afterMark (tree : Tree) (h : tree.Legible ReadsBack SingleReadsBack)
    {indents : List Nat} {tokens found : List Token} {cursor : Cursor} {rest : List Char}
    {margin count : Nat} (hindents : indents.head? = some margin)
    (hcolumn : cursor.column = margin + 1)
    (hrest : cursor.rest = afterMark margin tree ++ (spaces count ++ rest))
    (hbegins : Begins rest) (hcount : count ≤ margin)
    (hyields : ∀ stop : Cursor, stop.rest = rest → stop.column = count →
      (settled indents ((treeTokens false tree).reverse ++ tokens) true stop).Yields found) :
    (settled indents tokens true cursor).Yields found := by
  have hdeeper : indents.head?.all (· < margin + 2) = true := by
    rw [hindents, Option.all_some, decide_eq_true_eq]
    omega
  have hskip : (cursor.skip 1).column = margin + 2 := by
    rw [Cursor.skip, hcolumn]
  by_cases hleaf : tree.isLeaf = true
  · obtain ⟨hmark, -, htokens⟩ := afterMark_of_leaf margin hleaf
    rw [hmark] at hrest
    rw [htokens] at hyields
    exact yields_of_spacedLeaf h hleaf hindents (by omega) hrest hbegins hcount hyields
  · match tree, h with
    | .seq (item :: more), h =>
        have hrest : cursor.rest =
            spaces 1 ++ (itemsText (margin + 2) (item :: more) ++ (spaces count ++ rest)) := hrest
        have hnext : (cursor.skip 1).rest =
            itemsText (margin + 2) (item :: more) ++ (spaces count ++ rest) := by
          rw [← Cursor.past_spaces, Cursor.rest_past hrest]
        refine yields_of_spaces hrest (begins_of_mark (by decide) _) ?_
        refine yields_items (item :: more) h (List.cons_ne_nil _ _) hskip (.opened hdeeper) hnext
          hbegins (by omega) fun stop hstop hstopColumn => ?_
        refine yields_of_blockEnd (hstop ▸ hbegins) (by omega) ?_
        have hdone := hyields stop hstop hstopColumn
        rw [treeTokens, if_neg Bool.false_ne_true, List.reverse_cons, List.reverse_append,
          List.append_assoc, List.append_assoc] at hdone
        exact hdone
    | .map ((key, value) :: more), h =>
        have hrest : cursor.rest =
            spaces 1 ++ (fieldsText (margin + 2) ((key, value) :: more) ++ (spaces count ++ rest)) :=
          hrest
        have hnext : (cursor.skip 1).rest =
            fieldsText (margin + 2) ((key, value) :: more) ++ (spaces count ++ rest) := by
          rw [← Cursor.past_spaces, Cursor.rest_past hrest]
        refine yields_of_spaces hrest (begins_fieldsText h (List.cons_ne_nil _ _) _ _) ?_
        refine yields_fields ((key, value) :: more) h (List.cons_ne_nil _ _) hskip
          (.opened hdeeper) hnext hbegins (by omega) fun stop hstop hstopColumn => ?_
        refine yields_of_blockEnd (hstop ▸ hbegins) (by omega) ?_
        have hdone := hyields stop hstop hstopColumn
        rw [treeTokens, List.reverse_cons, List.reverse_append, List.append_assoc,
          List.append_assoc] at hdone
        exact hdone
    | .null, _ | .bool _, _ | .int _, _ | .float _, _ | .single _, _ | .text _, _ | .seq [], _
    | .map [], _ => exact absurd rfl hleaf

-- A tree after a key on one line and its colon.
theorem yields_afterKey (tree : Tree) (h : tree.Legible ReadsBack SingleReadsBack)
    {indents : List Nat} {tokens found : List Token} {cursor : Cursor} {rest : List Char}
    {margin count : Nat} (hindents : indents.head? = some margin) (hcolumn : margin < cursor.column)
    (hrest : cursor.rest = afterKey margin tree ++ (spaces count ++ rest))
    (hbegins : Begins rest) (hcount : count ≤ margin)
    (hyields : ∀ stop : Cursor, stop.rest = rest → stop.column = count →
      (settled indents ((treeTokens true tree).reverse ++ tokens) true stop).Yields found) :
    (settled indents tokens false cursor).Yields found := by
  have hdeeper : indents.head?.all (· < margin + 2) = true := by
    rw [hindents, Option.all_some, decide_eq_true_eq]
    omega
  by_cases hleaf : tree.isLeaf = true
  · obtain ⟨-, hkey, htokens⟩ := afterMark_of_leaf margin hleaf
    rw [hkey] at hrest
    rw [htokens] at hyields
    exact yields_of_spacedLeaf h hleaf hindents hcolumn hrest hbegins hcount hyields
  · match tree, h with
    | .seq (item :: more), h =>
        rw [afterKey, itemLines_cons, List.cons_append, List.append_assoc] at hrest
        refine yields_of_line hrest (begins_of_mark (by decide) _) nofun ?_
        exact yields_items (item :: more) h (List.cons_ne_nil _ _) rfl (.stayed hindents) rfl
          hbegins hcount hyields
    | .map (field :: more), h =>
        rw [afterKey, fieldLines_cons, List.cons_append, List.append_assoc] at hrest
        refine yields_of_line hrest (begins_fieldsText h (List.cons_ne_nil _ _) _ _) nofun ?_
        refine yields_fields (field :: more) h (List.cons_ne_nil _ _)
          (rfl : margin + 2 = margin + 2) (.opened hdeeper) rfl hbegins (by omega)
          fun stop hstop hstopColumn => ?_
        refine yields_of_blockEnd (hstop ▸ hbegins) (by omega) ?_
        have hdone := hyields stop hstop hstopColumn
        rw [treeTokens, List.reverse_cons, List.reverse_append, List.append_assoc,
          List.append_assoc] at hdone
        exact hdone
    | .null, _ | .bool _, _ | .int _, _ | .float _, _ | .single _, _ | .text _, _ | .seq [], _
    | .map [], _ => exact absurd rfl hleaf

-- The items of a list, each at the margin.
theorem yields_items (items : List Tree) (h : Tree.LegibleAll ReadsBack SingleReadsBack items)
    (hne : items ≠ []) {indents indents' : List Nat} {tokens tokens' found : List Token}
    {cursor : Cursor} {rest : List Char} {margin count : Nat} (hcolumn : cursor.column = margin)
    (henters : Enters margin .blockSequenceStart indents tokens indents' tokens')
    (hrest : cursor.rest = itemsText margin items ++ (spaces count ++ rest))
    (hbegins : Begins rest) (hcount : count ≤ margin)
    (hyields : ∀ stop : Cursor, stop.rest = rest → stop.column = count →
      (settled indents' ((itemTokens items).reverse ++ tokens') true stop).Yields found) :
    (settled indents tokens true cursor).Yields found := by
  match items with
  | [] => exact absurd rfl hne
  | item :: more =>
      obtain ⟨text, htext⟩ := afterMark_cons margin item
      have hhyphen : cursor.rest = '-' :: ' ' :: (text ++ itemLines margin more ++
          (spaces count ++ rest)) := by
        rw [hrest, itemsText, htext]
        rfl
      refine yields_of_blockMark .hyphen hhyphen (hcolumn ▸ henters) ?_
      have hnext : (cursor.skip 1).rest =
          afterMark margin item ++ (itemLines margin more ++ (spaces count ++ rest)) := by
        rw [Cursor.skip, hrest, itemsText, List.cons_append, List.drop_one, List.tail_cons,
          List.append_assoc]
      have hskip : (cursor.skip 1).column = margin + 1 := by
        rw [Cursor.skip, hcolumn]
      match more, h.2 with
      | [], _ =>
          refine yields_afterMark item h.1 henters.head hskip hnext hbegins hcount
            fun stop hstop hstopColumn => ?_
          have hdone := hyields stop hstop hstopColumn
          rw [itemTokens, itemTokens, List.append_nil, List.reverse_cons, List.append_assoc] at hdone
          exact hdone
      | next :: more', hmore =>
          rw [itemLines_cons, List.append_assoc] at hnext
          refine yields_afterMark item h.1 henters.head hskip hnext
            (begins_of_mark (by decide) _) (Nat.le_refl _) fun stop hstop hstopColumn => ?_
          refine yields_items (next :: more') hmore (List.cons_ne_nil _ _) hstopColumn
            (.stayed henters.head) hstop hbegins hcount fun last hlast hlastColumn => ?_
          have hdone := hyields last hlast hlastColumn
          rw [itemTokens, List.reverse_cons, List.reverse_append, List.append_assoc,
            List.append_assoc] at hdone
          exact hdone

-- The fields of a map, each at the margin.
theorem yields_fields (fields : List (Tree × Tree))
    (h : Tree.LegibleFields ReadsBack SingleReadsBack fields)
    (hne : fields ≠ []) {indents indents' : List Nat} {tokens tokens' found : List Token}
    {cursor : Cursor} {rest : List Char} {margin count : Nat} (hcolumn : cursor.column = margin)
    (henters : Enters margin .blockMappingStart indents tokens indents' tokens')
    (hrest : cursor.rest = fieldsText margin fields ++ (spaces count ++ rest))
    (hbegins : Begins rest) (hcount : count ≤ margin)
    (hyields : ∀ stop : Cursor, stop.rest = rest → stop.column = count →
      (settled indents' ((fieldTokens fields).reverse ++ tokens') true stop).Yields found) :
    (settled indents tokens true cursor).Yields found := by
  match fields, h with
  | [], _ => exact absurd rfl hne
  | (key, value) :: more, ⟨⟨s, hkey⟩, hvalue, hmore⟩ =>
      subst hkey
      -- Where the value ends the next field begins, if there is one.
      obtain ⟨count', rest', hlines, hbegins', hcount', hyields'⟩ : ∃ count' rest',
          fieldLines margin more ++ (spaces count ++ rest) = spaces count' ++ rest' ∧
          Begins rest' ∧ count' ≤ margin ∧
          ∀ stop : Cursor, stop.rest = rest' → stop.column = count' →
            (settled indents' ((treeTokens (isSimpleKey (.text s)) value).reverse ++
              (.value :: keyToken (.text s) :: .key :: tokens')) true stop).Yields found := by
        match more, hmore with
        | [], _ =>
            refine ⟨count, rest, rfl, hbegins, hcount, fun stop hstop hstopColumn => ?_⟩
            have hdone := hyields stop hstop hstopColumn
            simp only [fieldTokens, List.append_nil, List.reverse_cons, List.append_assoc,
              List.cons_append, List.nil_append] at hdone
            exact hdone
        | field :: others, hmore =>
            refine ⟨margin, fieldsText margin (field :: others) ++ (spaces count ++ rest), ?_,
              begins_fieldsText hmore (List.cons_ne_nil _ _) _ _, Nat.le_refl _,
              fun stop hstop hstopColumn => ?_⟩
            · rw [fieldLines_cons, List.append_assoc]
            · refine yields_fields (field :: others) hmore (List.cons_ne_nil _ _) hstopColumn
                (.stayed henters.head) hstop hbegins hcount fun last hlast hlastColumn => ?_
              have hdone := hyields last hlast hlastColumn
              rw [fieldTokens] at hdone
              simp only [List.reverse_cons, List.reverse_append, List.append_assoc,
                List.cons_append, List.nil_append] at hdone ⊢
              exact hdone
      cases hsimple : isSimpleKey (.text s) with
      | true =>
          rw [hsimple] at hyields'
          have hkeyRest : cursor.rest = styledChars (margin + 2)
              (chosenStyle (traits s.toList) true s.toList) s.toList ++
                ':' :: (afterKey margin value ++ (spaces count' ++ rest')) := by
            rw [hrest, fieldsText, fieldChars, if_pos hsimple, leafChars, ← hlines]
            simp only [List.append_assoc, List.cons_append]
          have hblank : blankNext (afterKey margin value ++ (spaces count' ++ rest')) = true := by
            match value with
            | .seq (item :: others) => rfl
            | .map (field :: others) => rfl
            | .null | .bool _ | .int _ | .float _ | .single _ | .text _ | .seq [] | .map [] => rfl
          have htoken : keyToken (.text s) =
              .scalar (chosenStyle (traits s.toList) true s.toList) s.toList := by
            rw [keyToken, hsimple]
          rw [htoken] at hyields'
          refine yields_of_textKey hsimple (Nat.succ_pos _) hkeyRest hblank (hcolumn ▸ henters)
            fun taken htaken hnext => ?_
          exact yields_afterKey value hvalue henters.head
            (by rw [Cursor.skip, hcolumn]; exact Nat.lt_add_of_pos_right htaken) hnext hbegins' hcount'
            hyields'
      | false =>
          rw [hsimple] at hyields'
          obtain ⟨text, htext⟩ := afterMark_cons margin value
          have hkeyRest : cursor.rest = '?' :: ' ' :: (leafLine margin (.text s) ++
              (spaces margin ++ ':' :: (afterMark margin value ++ (spaces count' ++ rest')))) := by
            rw [hrest, fieldsText, fieldChars, hsimple, if_neg Bool.false_ne_true, ← hlines]
            simp only [List.append_assoc, List.cons_append]
          have hnext : (cursor.skip 1).rest = ' ' :: leafLine margin (.text s) ++
              (spaces margin ++ ':' :: (afterMark margin value ++ (spaces count' ++ rest'))) :=
            Cursor.rest_skip_one hkeyRest
          have htoken : keyToken (.text s) =
              .scalar (chosenStyle (traits s.toList) false s.toList) s.toList := by
            rw [keyToken, hsimple]
          rw [htoken] at hyields'
          refine yields_of_blockMark .question hkeyRest (hcolumn ▸ henters) ?_
          refine @yields_of_spacedLeaf _ _ _ _ _ _ margin margin (.text s) trivial rfl henters.head
            (by rw [Cursor.skip, hcolumn]; exact Nat.lt_succ_self _) hnext
            (begins_of_mark (by decide) _) (Nat.le_refl _) fun stop hstop hstopColumn => ?_
          have hcolon : stop.rest = ':' :: ' ' :: (text ++ (spaces count' ++ rest')) := by
            rw [hstop, htext]
            rfl
          refine yields_of_colon hcolon (hstopColumn.symm ▸ henters.head) ?_
          have hlast : (stop.skip 1).rest = afterMark margin value ++ (spaces count' ++ rest') :=
            Cursor.rest_skip_one hstop
          exact yields_afterMark value hvalue henters.head
            (by rw [Cursor.skip, hstopColumn]) hlast hbegins' hcount' hyields'
end

end Scan

end Yaml

end Dataflow
