import Dataflow.Proofs.Yaml.Block
import Dataflow.Proofs.Yaml.Marks
import Dataflow.Proofs.Yaml.Quoted

namespace Dataflow.Yaml

namespace Scan

variable {indents indents' : List Nat} {tokens tokens' found : List Token} {keyAllowed : Bool}
  {cursor : Cursor} {cs rest : List Char} {margin count : Nat}

-- Where the value of a field or an item of a list may stand: inside the innermost block.
structure Inside (indents : List Nat) (margin : Nat) (cursor : Cursor) : Prop where
  head : indents.head? = some margin
  column : margin < cursor.column

theorem Inside.head_le (h : Inside indents margin cursor) :
    ∀ indent ∈ indents.head?, indent ≤ cursor.column := by
  intro indent hindent
  rw [h.head] at hindent
  exact Option.mem_some_iff.mp hindent ▸ Nat.le_of_lt h.column

theorem Inside.no_key (h : Inside indents margin cursor) :
    ∀ key ∈ keyAt indents tokens keyAllowed cursor,
      key.required = false ∧ key.at_.line = cursor.line :=
  keyAt_of_inside fun heq => by
    rw [h.head] at heq
    exact Nat.ne_of_lt h.column (Option.some.inj heq)

section Plain

theorem plainScalar_of_scan {fuel : Nat} {broken : Bool} {stop : Cursor}
    (h : scanPlain false ((indents.head?.map (· + 1)).getD 0) fuel [] Gap.none cursor =
      some (cs, broken, stop)) :
    (settled indents tokens keyAllowed cursor).plainScalar fuel =
      some ⟨stop, .scalar .plain cs :: tokens, tokens.length + 1, indents, broken,
        keyAt indents tokens keyAllowed cursor, []⟩ := by
  rw [plainScalar, noteKey_settled]
  show (scanPlain false ((indents.head?.map (· + 1)).getD 0) fuel [] Gap.none cursor).bind _ = _
  rw [h]
  rfl

-- A plain scalar at the end of its line.
theorem yields_of_plainLine (h : PlainText cs) (hinside : Inside indents margin cursor)
    (hrest : cursor.rest = cs ++ '\n' :: (spaces count ++ rest)) (hbegins : Begins rest)
    (hcount : count ≤ margin)
    (hyields : ∀ stop : Cursor, stop.rest = rest → stop.column = count →
      (settled indents (.scalar .plain cs :: tokens) true stop).Yields found) :
    (settled indents tokens keyAllowed cursor).Yields found := by
  have hnext := Cursor.rest_skip_append hrest
  have hcolumn := hinside.column
  have hne : cursor.rest ≠ [] := by
    rw [hrest]
    exact List.append_ne_nil_of_left_ne_nil h.words.nonempty _
  have hmargin : (indents.head?.map (· + 1)).getD 0 = margin + 1 := by
    rw [hinside.head]
    rfl
  obtain ⟨stop, hstops, hstopRest, hstopColumn, hstopLine⟩ : ∃ stop : Cursor,
      Stops (margin + 1) (cursor.skip cs.length) true stop ∧ stop.rest = rest ∧
      stop.column = count ∧ cursor.line < stop.line :=
    ⟨_, .line hnext hbegins (Nat.lt_succ_of_le hcount), rfl, rfl, Nat.lt_succ_self _⟩
  have hmark : cursor.atDocumentMarker = false :=
    Cursor.atDocumentMarker_of_column (Nat.ne_of_gt (Nat.lt_of_le_of_lt (Nat.zero_le _) hcolumn))
  have hforgotten : Forgotten stop (keyAt indents tokens keyAllowed cursor) := by
    intro key hkey
    obtain ⟨hrequired, hline⟩ := hinside.no_key key hkey
    exact ⟨hrequired, hline ▸ hstopLine⟩
  have hlast := yields_of_forgotten (hstopRest ▸ hbegins) hforgotten
    (hyields stop hstopRest hstopColumn)
  refine yields_of_step (hrest ▸ h.begins _) hne rfl (.inr hinside.head_le)
    (fun fuel hfuel => ?_) ?_ hlast
  · rw [step_plain h hrest ⟨nofun, nofun⟩]
    refine plainScalar_of_scan ?_
    rw [hmargin, scanPlain_words h.words hrest hmark h.head_ne_hash (by omega) hfuel hstops]
    rfl
  · show stop.rest.length < cursor.rest.length
    rw [hstopRest, hrest, List.length_append, List.length_cons, List.length_append]
    omega

-- A plain scalar as a key.
theorem yields_of_plainKey (h : PlainText cs) (hrest : cursor.rest = cs ++ ':' :: rest)
    (hblank : blankNext rest = true) (hlength : cs.length ≤ 1024)
    (henters : Enters cursor.column .blockMappingStart indents tokens indents' tokens')
    (hyields : (settled indents' (.value :: .scalar .plain cs :: .key :: tokens') false
      ((cursor.skip cs.length).skip 1)).Yields found) :
    (settled indents tokens true cursor).Yields found := by
  have hnext := Cursor.rest_skip_append hrest
  have hne : cursor.rest ≠ [] := by
    rw [hrest]
    exact List.append_ne_nil_of_left_ne_nil h.words.nonempty _
  have hmargin : (indents.head?.map (· + 1)).getD 0 ≤ cursor.column + 1 := by
    cases hhead : indents.head? with
    | none => exact Nat.zero_le _
    | some indent => exact Nat.succ_le_succ (henters.head_le indent hhead)
  have hcolon : (':' :: rest).head? ≠ some '-' ∧ (':' :: rest).head? ≠ some '.' := by simp
  have hmark : cursor.atDocumentMarker = false := by
    rw [Cursor.atDocumentMarker, h.atMarker (.inl rfl) hrest hcolon.1,
      h.atMarker (.inr rfl) hrest hcolon.2]
    rfl
  have hlast := yields_of_keyColon hnext hblank hlength henters hyields
  refine yields_of_step (hrest ▸ h.begins _) hne rfl (.inr henters.head_le)
    (fun fuel hfuel => ?_) (length_skip_lt (List.length_pos_iff.mpr h.words.nonempty) hne) hlast
  rw [step_plain h hrest hcolon]
  refine plainScalar_of_scan ?_
  rw [scanPlain_words h.words hrest hmark h.head_ne_hash hmargin hfuel (.colon hnext hblank)]
  rfl

end Plain

section Quoted

variable {quotes : Quotes}

theorem quotedScalar_of_scan {fuel : Nat} {stop : Cursor}
    (h : scanQuoted quotes.single fuel [] (cursor.skip 1) = some (cs, stop)) :
    (settled indents tokens keyAllowed cursor).quotedScalar fuel quotes.single =
      some ⟨stop, .scalar quotes.style cs :: tokens, tokens.length + 1, indents, false,
        keyAt indents tokens keyAllowed cursor, []⟩ := by
  rw [quotedScalar, noteKey_settled]
  show (scanQuoted quotes.single fuel [] (cursor.skip 1)).bind _ = _
  rw [h]
  rfl

theorem step_quoted (hrest : cursor.rest = quotes.mark :: rest) (fuel : Nat) :
    step fuel (settled indents tokens keyAllowed cursor) =
      (settled indents tokens keyAllowed cursor).quotedScalar fuel quotes.single := by
  rw [step]
  rw [Quotes.mark] at hrest
  cases hsingle : quotes.single with
  | false =>
      rw [hsingle] at hrest
      simp [settled, hrest, Cursor.atMarker]
  | true =>
      rw [hsingle] at hrest
      simp [settled, hrest, Cursor.atMarker]

theorem scanQuoted_written (hcs : quotes.Holds cs)
    (hrest : cursor.rest = quotes.written margin cs ++ rest)
    (hafter : quotes.single = true → rest.head? ≠ some '\'') (hmargin : 0 < margin) {fuel : Nat}
    (hfuel : cursor.rest.length < fuel) :
    scanQuoted quotes.single fuel [] (cursor.skip 1) =
      some (cs, cursor.past (quotes.written margin cs)) := by
  have hnext : (cursor.skip 1).rest = quotes.inside margin false cs ++ quotes.mark :: rest := by
    rw [Cursor.skip, hrest, Quotes.written, List.cons_append, List.drop_one, List.tail_cons,
      List.append_assoc]
    rfl
  have hlength : (cursor.skip 1).rest.length < fuel := by
    rw [Cursor.skip, List.length_drop]
    omega
  have hpast : cursor.past (quotes.written margin cs) =
      (cursor.skip 1).past (quotes.inside margin false cs ++ [quotes.mark]) := by
    rw [Quotes.written, Cursor.past, quotes.mark_solid.2, if_neg Bool.false_ne_true]
  rw [scanQuoted_inside hcs hnext hafter hlength hmargin (Nat.succ_ne_zero _), hpast]
  rfl

theorem begins_of_quote (quotes : Quotes) (rest : List Char) : Begins (quotes.mark :: rest) := by
  rw [Quotes.mark]
  split
  · exact begins_of_mark (by decide) rest
  · exact begins_of_mark (by decide) rest

-- A quoted scalar at the end of its line.
theorem yields_of_quotedLine (hcs : quotes.Holds cs) (hinside : Inside indents margin cursor)
    (hrest : cursor.rest = quotes.written (margin + 2) cs ++ '\n' :: (spaces count ++ rest))
    (hbegins : Begins rest)
    (hyields : ∀ stop : Cursor, stop.rest = rest → stop.column = count →
      (settled indents (.scalar quotes.style cs :: tokens) true stop).Yields found) :
    (settled indents tokens keyAllowed cursor).Yields found := by
  have hnext := Cursor.rest_past hrest
  have hne : cursor.rest ≠ [] := by
    rw [hrest]
    exact List.cons_ne_nil _ _
  have hline := @Cursor.line_le_past cursor (quotes.written (margin + 2) cs)
  have hpending : ∀ key ∈ keyAt indents tokens keyAllowed cursor, key.required = false ∧
      key.at_.line ≤ (cursor.past (quotes.written (margin + 2) cs)).line := by
    intro key hkey
    obtain ⟨hrequired, hsame⟩ := hinside.no_key key hkey
    exact ⟨hrequired, hsame ▸ hline⟩
  have hlast := @yields_of_line indents _ found false _ _ _ _ hnext hbegins hpending
    (hyields _ rfl rfl)
  refine yields_of_step (hrest ▸ begins_of_quote quotes _) hne rfl (.inr hinside.head_le)
    (fun fuel hfuel => ?_) ?_ hlast
  · rw [step_quoted hrest]
    exact quotedScalar_of_scan (scanQuoted_written hcs hrest (fun _ => nofun) (Nat.succ_pos _) hfuel)
  · show (cursor.past (quotes.written (margin + 2) cs)).rest.length < cursor.rest.length
    rw [hnext, hrest]
    simp only [Quotes.written, List.length_append, List.length_cons]
    omega

-- A quoted scalar as a key.
theorem yields_of_quotedKey (hcs : quotes.Holds cs)
    (hrest : cursor.rest = quotes.written margin cs ++ ':' :: rest)
    (hline : ∀ c ∈ quotes.written margin cs, isBreak c = false) (hmargin : 0 < margin)
    (hblank : blankNext rest = true) (hlength : (quotes.written margin cs).length ≤ 1024)
    (henters : Enters cursor.column .blockMappingStart indents tokens indents' tokens')
    (hyields : (settled indents' (.value :: .scalar quotes.style cs :: .key :: tokens') false
      ((cursor.skip (quotes.written margin cs).length).skip 1)).Yields found) :
    (settled indents tokens true cursor).Yields found := by
  have hnext := Cursor.rest_skip_append hrest
  have hne : cursor.rest ≠ [] := by
    rw [hrest]
    exact List.cons_ne_nil _ _
  have hlast := yields_of_keyColon hnext hblank hlength henters hyields
  refine yields_of_step (hrest ▸ begins_of_quote quotes _) hne rfl (.inr henters.head_le)
    (fun fuel hfuel => ?_) (length_skip_lt (Nat.succ_pos _) hne) hlast
  rw [step_quoted hrest]
  refine quotedScalar_of_scan ?_
  rw [scanQuoted_written hcs hrest (fun _ => nofun) hmargin hfuel, Cursor.past_of_line hline]

end Quoted

section Block

theorem blockScalar_of_scan {stop : Cursor}
    (h : scanBlock true indents.head? (cursor.skip 1) = some (cs, stop)) :
    (settled indents tokens keyAllowed cursor).blockScalar true =
      some (settled indents (.scalar .literal cs :: tokens) true stop) := by
  rw [blockScalar]
  show (scanBlock true indents.head? (cursor.skip 1)).bind _ = _
  rw [h]
  rfl

-- A block scalar with its lines.
theorem yields_of_block (hne : cs ≠ []) (hchars : ∀ c ∈ cs, c ≠ '\t')
    (hfeeds : ∀ c ∈ cs, isBreak c = true → isFeed c) (hinside : Inside indents margin cursor)
    (hrest : cursor.rest = styledChars (margin + 2) .literal cs ++
      (lineEnd .literal cs ++ (spaces count ++ rest)))
    (hbegins : Begins rest) (hcount : count ≤ margin)
    (hyields : ∀ stop : Cursor, stop.rest = rest → stop.column = count →
      (settled indents (.scalar .literal cs :: tokens) true stop).Yields found) :
    (settled indents tokens keyAllowed cursor).Yields found := by
  have hrest : cursor.rest = '|' :: ((blockHints cs).toList ++ '\n' ::
      (blockLines (margin + 2) true cs ++ (lineEnd .literal cs ++ (spaces count ++ rest)))) := by
    rw [hrest, styledChars]
    simp only [List.cons_append, List.append_assoc]
  have hcursor : cursor.rest ≠ [] := by
    rw [hrest]
    exact List.cons_ne_nil _ _
  have hnext : (cursor.skip 1).rest = (blockHints cs).toList ++ '\n' ::
      (blockLines (margin + 2) true cs ++ (lineEnd .literal cs ++ (spaces count ++ rest))) :=
    Cursor.rest_skip_one hrest
  obtain ⟨stop, hscan, hstopRest, hstopColumn, -⟩ :=
    scanBlock_literal hne hchars hfeeds hnext hbegins hcount
  refine yields_of_step (hrest ▸ begins_of_mark (by decide) _) hcursor rfl (.inr hinside.head_le)
    (fun fuel _ => ?_) ?_ (hyields stop hstopRest hstopColumn)
  · have hscalar : (settled indents tokens keyAllowed cursor).blockScalar true =
        some (settled indents (.scalar .literal cs :: tokens) true stop) :=
      blockScalar_of_scan (hinside.head.symm ▸ hscan)
    rw [← hscalar, step]
    simp [settled, hrest, Cursor.atMarker, inFlow]
  · show stop.rest.length < cursor.rest.length
    rw [hstopRest, hrest]
    simp only [List.length_append, List.length_cons]
    omega

end Block

end Scan

end Dataflow.Yaml
