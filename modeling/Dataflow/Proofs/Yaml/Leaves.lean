import Dataflow.Proofs.Yaml.Printed
import Dataflow.Proofs.Yaml.Scalars
import Dataflow.Proofs.Yaml.Words

namespace Dataflow.Yaml

section Styles

variable {cs : List Char}

theorem isPlainChar_of_mem
    (h : (traits cs).singleAllowed = true ∨ (traits cs).blockAllowed = true) :
    ∀ c ∈ cs, isPlainChar c = true := by
  cases cs with
  | nil => exact nofun
  | cons c rest =>
      simp only [traits, Bool.not_eq_true', Bool.or_eq_false_iff] at h
      have hspecial := h.elim And.right And.right
      intro d hd
      simpa using List.any_eq_false.mp hspecial d hd

theorem singleQuotes_holds (h : (traits cs).singleAllowed = true) (hfeed : '\n' ∉ cs) :
    singleQuotes.Holds cs := by
  have hplain := isPlainChar_of_mem (.inl h)
  refine ⟨fun c hc => singleQuotes_fits (hplain c hc) fun heq => hfeed (heq ▸ hc), ?_, ?_⟩
  · cases cs with
    | nil => rfl
    | cons c rest =>
        simp only [traits, Bool.not_eq_true', Bool.or_eq_false_iff] at h
        exact h.1.1
  · cases cs with
    | nil => rfl
    | cons c rest =>
        simp only [traits, Bool.not_eq_true', Bool.or_eq_false_iff] at h
        exact h.1.2

theorem doubleQuotes_holds (cs : List Char) : doubleQuotes.Holds cs := by
  refine ⟨fun c _ => doubleQuotes_fits c, ?_, ?_⟩
  · induction cs with
    | nil => rfl
    | cons c rest ih =>
        cases rest with
        | nil => rfl
        | cons d rest => exact ih
  · induction cs with
    | nil => rfl
    | cons c rest ih =>
        cases rest with
        | nil => rfl
        | cons d rest =>
            rw [anyNeighbours, ih, Bool.or_false]
            exact Bool.and_false _

theorem plainText_of_style (hwanted : wantedStyle cs = .plain)
    (h : (traits cs).plainAllowed = true) : PlainText cs := by
  obtain ⟨hwords, hstart, hchars⟩ := words_of_plainAllowed (ne_nil_of_plain hwanted) h
  refine ⟨hwords, hstart, fun heq => ?_⟩
  have hplain := (hchars '\ufeff' (List.mem_of_mem_head? heq)).1
  exact absurd hplain (by decide)

theorem feed_not_mem (h : wantedStyle cs ≠ .literal) : '\n' ∉ cs := by
  intro hmem
  refine h ?_
  rw [wantedStyle, if_pos (List.contains_iff_mem.mpr hmem)]

theorem block_of_style (hwanted : wantedStyle cs = .literal)
    (h : (traits cs).blockAllowed = true) :
    cs ≠ [] ∧ (∀ c ∈ cs, c ≠ '\t') ∧ ∀ c ∈ cs, isBreak c = true → isFeed c := by
  have hplain := isPlainChar_of_mem (.inr h)
  have hne : cs ≠ [] := by
    rintro rfl
    cases hwanted
  refine ⟨hne, fun c hc heq => ?_, fun c hc hbreak => feed_of_isPlainChar (hplain c hc) hbreak⟩
  exact absurd (heq ▸ hplain c hc) (by decide)

theorem styledChars_single (margin : Nat) (hfeed : '\n' ∉ cs) :
    styledChars margin .singleQuoted cs = singleQuotes.written margin cs := by
  rw [styledChars, singleInside_eq margin false hfeed]
  rfl

theorem styledChars_double (margin : Nat) (cs : List Char) :
    styledChars margin .doubleQuoted cs = doubleQuotes.written margin cs := by
  rw [styledChars, flatMap_doubleQuotedChar margin]
  rfl

-- Between quotes on one line every character is spelled for itself.
theorem inside_of_line {quotes : Quotes} (margin : Nat) (h : ∀ c ∈ cs, quotes.breaks c = false) :
    quotes.inside margin false cs = cs.flatMap quotes.spell := by
  induction cs with
  | nil => rfl
  | cons c rest ih =>
      obtain ⟨hc, hrest⟩ := List.forall_mem_cons.mp h
      rw [Quotes.inside, hc, ih hrest, List.flatMap_cons]
      rfl

theorem isBreak_of_mem_written {quotes : Quotes} {margin : Nat} (hcs : quotes.Holds cs)
    (h : ∀ c ∈ cs, quotes.breaks c = false) :
    ∀ d ∈ quotes.written margin cs, isBreak d = false := by
  intro d hd
  rw [Quotes.written, inside_of_line margin h] at hd
  rcases List.mem_cons.mp hd with rfl | hd
  · exact quotes.mark_solid.2
  · rcases List.mem_append.mp hd with hd | hd
    · obtain ⟨c, hc, hd⟩ := List.mem_flatMap.mp hd
      by_cases hspace : c = ' '
      · rw [((hcs.fits c hc).space hspace).2] at hd
        exact List.mem_singleton.mp hd ▸ rfl
      · have hgap : quotes.isGap c = false := by
          rw [Quotes.isGap, decide_eq_false hspace, h c hc]
          rfl
        obtain ⟨-, -, -, hline, -⟩ := (hcs.fits c hc).spelled hgap
        exact hline d hd
    · exact List.mem_singleton.mp hd ▸ quotes.mark_solid.2

theorem length_flatMap_le {spell : Char → List Char} (most : Nat)
    (h : ∀ c ∈ cs, (spell c).length ≤ most) : (cs.flatMap spell).length ≤ most * cs.length := by
  induction cs with
  | nil => exact Nat.zero_le _
  | cons c rest ih =>
      obtain ⟨hc, hrest⟩ := List.forall_mem_cons.mp h
      have hmore := ih hrest
      rw [List.flatMap_cons, List.length_append, List.length_cons, Nat.mul_succ]
      omega

theorem length_doubleQuotedChar_le (c : Char) : (doubleQuotedChar c).length ≤ 6 := by
  rw [doubleQuotedChar]
  split
  · rename_i hescape
    rw [escaped]
    split
    · exact Nat.le_of_ble_eq_true rfl
    · simp only []
      split
      · rename_i hsmall
        rw [List.length_cons, List.length_cons, length_paddedHex (by decide) (by omega)]
        decide
      · split
        · rename_i hsmall
          have hlength : (paddedHex 4 c.toNat).length = 4 := length_paddedHex (by decide) (by omega)
          rw [List.length_cons, List.length_cons]
          omega
        · rename_i hletter _ hbig
          -- What is as large as this is printed as it is.
          have hplain : isPlainChar c = true := by
            have hlarge : 0x10000 ≤ c.toNat := by omega
            simp [isPlainChar, hlarge]
          have hbreak : isBreak c = false := by
            have hne : ∀ d : Char, d.toNat ≤ 0xFFFF → c ≠ d := by
              rintro d hd rfl
              exact hbig hd
            simp [isBreak, hne '\n' (by decide), hne '\r' (by decide), hne '\u0085' (by decide),
              hne '\u2028' (by decide), hne '\u2029' (by decide)]
          have hquote : c ≠ '"' := by
            rintro rfl
            cases hletter
          have hslash : c ≠ '\\' := by
            rintro rfl
            cases hletter
          simp [hplain, hbreak, hquote, hslash] at hescape
  · exact Nat.le_of_ble_eq_true rfl

theorem length_le_size_utf8Encode (cs : List Char) : cs.length ≤ cs.utf8Encode.size := by
  induction cs with
  | nil => exact Nat.zero_le _
  | cons c cs ih =>
      have hpos := c.utf8Size_pos
      rw [List.utf8Encode_cons, ByteArray.size_append, List.utf8Encode_singleton,
        List.size_toByteArray, String.length_utf8EncodeChar, List.length_cons]
      omega

-- A simple key is short and has no line break.
theorem simpleKey_spec {s : String} (h : isSimpleKey (.text s) = true) :
    s.toList.length ≤ 128 ∧ ∀ c ∈ s.toList, isBreak c = false := by
  simp only [isSimpleKey, Bool.and_eq_true, Bool.not_eq_true', decide_eq_true_eq] at h
  obtain ⟨hmultiline, hsize⟩ := h
  have hlength := length_le_size_utf8Encode s.toList
  rw [String.utf8Encode_toList] at hlength
  refine ⟨Nat.le_trans hlength hsize, fun c hc => ?_⟩
  generalize s.toList = cs at hmultiline hc
  cases cs with
  | nil => cases hc
  | cons d rest =>
      have hany := List.any_eq_false.mp hmultiline c hc
      simpa using hany

end Styles

namespace Scan

variable {indents indents' : List Nat} {tokens tokens' found : List Token} {keyAllowed : Bool}
  {cursor : Cursor} {rest : List Char} {margin count : Nat}

-- A text is found with the end of its line.
theorem yields_of_text (cs : List Char) (hinside : Inside indents margin cursor)
    (hrest : cursor.rest = styledChars (margin + 2) (chosenStyle (traits cs) false cs) cs ++
      (lineEnd (chosenStyle (traits cs) false cs) cs ++ (spaces count ++ rest)))
    (hbegins : Begins rest) (hcount : count ≤ margin)
    (hyields : ∀ stop : Cursor, stop.rest = rest → stop.column = count →
      (settled indents (.scalar (chosenStyle (traits cs) false cs) cs :: tokens) true stop).Yields
        found) :
    (settled indents tokens keyAllowed cursor).Yields found := by
  obtain ⟨hplain, hsingle, hliteral, hfolded⟩ := chosenStyle_spec (traits cs) false cs
  cases hstyle : chosenStyle (traits cs) false cs with
  | folded => exact absurd hstyle hfolded
  | plain =>
      rw [hstyle] at hrest hyields
      obtain ⟨hwanted, hallowed⟩ := hplain hstyle
      exact yields_of_plainLine (plainText_of_style hwanted hallowed) hinside hrest hbegins hcount
        hyields
  | singleQuoted =>
      rw [hstyle] at hrest hyields
      obtain ⟨hwanted, hallowed⟩ := hsingle hstyle
      have hfeed := feed_not_mem hwanted
      rw [styledChars_single _ hfeed] at hrest
      exact yields_of_quotedLine (singleQuotes_holds hallowed hfeed) hinside hrest hbegins hyields
  | doubleQuoted =>
      rw [hstyle, styledChars_double] at hrest
      rw [hstyle] at hyields
      exact yields_of_quotedLine (doubleQuotes_holds cs) hinside hrest hbegins hyields
  | literal =>
      rw [hstyle] at hrest hyields
      obtain ⟨hwanted, hallowed, -⟩ := hliteral hstyle
      obtain ⟨hne, htabs, hfeeds⟩ := block_of_style hwanted hallowed
      exact yields_of_block hne htabs hfeeds hinside hrest hbegins hcount hyields

-- A quoted key that fits before its colon.
theorem yields_of_simpleQuotedKey {quotes : Quotes} {cs : List Char} (hcs : quotes.Holds cs)
    (hbreaks : ∀ c ∈ cs, quotes.breaks c = false) (hspell : ∀ c, (quotes.spell c).length ≤ 6)
    (hshort : cs.length ≤ 128) (hmargin : 0 < margin)
    (hrest : cursor.rest = quotes.written margin cs ++ ':' :: rest)
    (hblank : blankNext rest = true)
    (henters : Enters cursor.column .blockMappingStart indents tokens indents' tokens')
    (hyields : (settled indents' (.value :: .scalar quotes.style cs :: .key :: tokens') false
      ((cursor.skip (quotes.written margin cs).length).skip 1)).Yields found) :
    (settled indents tokens true cursor).Yields found := by
  have hlength : (quotes.written margin cs).length ≤ 1024 := by
    have hinside := length_flatMap_le 6 fun c (_ : c ∈ cs) => hspell c
    rw [Quotes.written, inside_of_line margin hbreaks, List.length_cons, List.length_append,
      List.length_singleton]
    omega
  exact yields_of_quotedKey hcs hrest (isBreak_of_mem_written hcs hbreaks) hmargin hblank hlength
    henters hyields

-- A text is found as a key.
theorem yields_of_textKey {s : String} (hsimple : isSimpleKey (.text s) = true)
    (hmargin : 0 < margin)
    (hrest : cursor.rest =
      styledChars margin (chosenStyle (traits s.toList) true s.toList) s.toList ++ ':' :: rest)
    (hblank : blankNext rest = true)
    (henters : Enters cursor.column .blockMappingStart indents tokens indents' tokens')
    (hyields : ∀ count, 0 < count → (cursor.skip count).rest = rest →
      (settled indents' (.value ::
        .scalar (chosenStyle (traits s.toList) true s.toList) s.toList :: .key :: tokens') false
        (cursor.skip count)).Yields found) :
    (settled indents tokens true cursor).Yields found := by
  obtain ⟨hplain, hsingle, hliteral, hfolded⟩ := chosenStyle_spec (traits s.toList) true s.toList
  obtain ⟨hshort, hbreaks⟩ := simpleKey_spec hsimple
  have hgo : ∀ {written : List Char}, cursor.rest = written ++ ':' :: rest →
      (settled indents' (.value ::
        .scalar (chosenStyle (traits s.toList) true s.toList) s.toList :: .key :: tokens') false
        ((cursor.skip written.length).skip 1)).Yields found := by
    intro written hwritten
    rw [Cursor.skip_skip]
    refine hyields _ (Nat.succ_pos _) ?_
    rw [← Cursor.skip_skip, Cursor.skip, Cursor.rest_skip_append hwritten, List.drop_one,
      List.tail_cons]
  cases hstyle : chosenStyle (traits s.toList) true s.toList with
  | folded => exact absurd hstyle hfolded
  | literal => cases (hliteral hstyle).2.2
  | plain =>
      rw [hstyle] at hrest hgo
      obtain ⟨hwanted, hallowed⟩ := hplain hstyle
      exact yields_of_plainKey (plainText_of_style hwanted hallowed) hrest hblank (by omega) henters
        (hgo hrest)
  | singleQuoted =>
      obtain ⟨hwanted, hallowed⟩ := hsingle hstyle
      have hfeed := feed_not_mem hwanted
      rw [hstyle, styledChars_single _ hfeed] at hrest
      rw [hstyle] at hgo
      have hspell : ∀ c, (singleQuotes.spell c).length ≤ 6 := by
        intro c
        simp only [singleQuotes]
        split <;> exact Nat.le_of_ble_eq_true rfl
      exact yields_of_simpleQuotedKey (singleQuotes_holds hallowed hfeed) hbreaks hspell hshort
        hmargin hrest hblank henters (hgo hrest)
  | doubleQuoted =>
      rw [hstyle, styledChars_double] at hrest
      rw [hstyle] at hgo
      exact yields_of_simpleQuotedKey (doubleQuotes_holds _) (fun _ _ => rfl)
        length_doubleQuotedChar_le hshort hmargin hrest hblank henters (hgo hrest)

-- The brackets and braces that nothing stands between.
inductive Hollow : Char → Char → Token → Token → Prop where
  | square : Hollow '[' ']' .flowSequenceStart .flowSequenceEnd
  | curly : Hollow '\x7b' '\x7d' .flowMappingStart .flowMappingEnd

theorem expire_keyAt :
    expire (cursor.skip 1) (keyAt indents tokens keyAllowed cursor) =
      some (keyAt indents tokens keyAllowed cursor) := by
  cases keyAllowed with
  | false => rfl
  | true =>
      have hnear : ¬cursor.index + 1024 < cursor.index + 1 := by omega
      simp [keyAt, expire, isStale, Cursor.skip, hnear]

theorem yields_of_hollow {first last : Char} {start stop : Token} (h : Hollow first last start stop)
    (hinside : Inside indents margin cursor)
    (hrest : cursor.rest = first :: last :: '\n' :: (spaces count ++ rest)) (hbegins : Begins rest)
    (hyields : ∀ next : Cursor, next.rest = rest → next.column = count →
      (settled indents (stop :: start :: tokens) true next).Yields found) :
    (settled indents tokens keyAllowed cursor).Yields found := by
  have hfirst : Begins (first :: last :: '\n' :: (spaces count ++ rest)) := by
    cases h <;> exact begins_of_mark (by decide) _
  have hlast : Begins (last :: '\n' :: (spaces count ++ rest)) := by
    cases h <;> exact begins_of_mark (by decide) _
  have hinner : (cursor.skip 1).rest = last :: '\n' :: (spaces count ++ rest) :=
    Cursor.rest_skip_one hrest
  have hend : ((cursor.skip 1).skip 1).rest = '\n' :: (spaces count ++ rest) :=
    Cursor.rest_skip_one hinner
  have hpending : ∀ key ∈ keyAt indents tokens keyAllowed cursor, key.required = false ∧
      key.at_.line ≤ ((cursor.skip 1).skip 1).line := by
    intro key hkey
    obtain ⟨hrequired, hsame⟩ := hinside.no_key key hkey
    exact ⟨hrequired, Nat.le_of_eq hsame⟩
  have hdone := @yields_of_line indents _ found false _ _ _ _ hend hbegins hpending (hyields _ rfl rfl)
  have hclosed : Yields ⟨cursor.skip 1, start :: tokens, tokens.length + 1, indents, true, none,
      [keyAt indents tokens keyAllowed cursor]⟩ found := by
    refine yields_of_mark hlast hinner ?_ (.inl rfl) (fun fuel => ?_) rfl hdone
    · rw [expireKeys]
      simp only [List.mapM_cons, expire_keyAt]
      rfl
    · rw [step]
      cases h <;> simp [hinner, Cursor.atMarker, closeFlow, dropKey, skip, emit]
  refine yields_of_mark hfirst hrest rfl (.inr hinside.head_le) (fun fuel => ?_) rfl hclosed
  have hopen : (settled indents tokens keyAllowed cursor).openFlow start =
      some ⟨cursor.skip 1, start :: tokens, tokens.length + 1, indents, true, none,
        [keyAt indents tokens keyAllowed cursor]⟩ := by
    rw [openFlow, noteKey_settled]
    rfl
  rw [← hopen, step]
  cases h <;> simp [settled, hrest, Cursor.atMarker]

end Scan

end Dataflow.Yaml
