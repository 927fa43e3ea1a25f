import Dataflow.Proofs.Digits
import Dataflow.Proofs.Yaml.Landing
import Dataflow.Proofs.Yaml.Plain

namespace Dataflow.Yaml

namespace Scan

variable {indents indents' : List Nat} {tokens tokens' found : List Token} {keyAllowed : Bool}
  {cursor : Cursor} {rest : List Char}

theorem begins_of_mark {c : Char} (h : c ∈ ['-', '?', ':', '\'', '"', '|', '[', ']', '\x7b', '\x7d'])
    (rest : List Char) : Begins (c :: rest) := by
  intro d hd
  obtain rfl := Option.mem_some_iff.mp hd
  have hall : ∀ c ∈ ['-', '?', ':', '\'', '"', '|', '[', ']', '\x7b', '\x7d'],
      isBlank c = false ∧ isBreak c = false ∧ c ≠ '#' ∧ c ≠ '\ufeff' :=
    forall_mem_of_all (by decide)
  exact hall c h

theorem length_skip_lt {count : Nat} (hcount : 0 < count) (hne : cursor.rest ≠ []) :
    (cursor.skip count).rest.length < cursor.rest.length := by
  have hpos := List.length_pos_iff.mpr hne
  rw [Cursor.skip, List.length_drop]
  omega

-- A mark of one character is read in one step.
theorem yields_of_mark {scan next : Scan} {c : Char} (hbegins : Begins (c :: rest))
    (hrest : scan.cursor.rest = c :: rest) (hexpire : scan.expireKeys = some scan)
    (hclose : scan.inFlow = true ∨ ∀ indent ∈ scan.indents.head?, indent ≤ scan.cursor.column)
    (hstep : ∀ fuel, step fuel scan = some next) (hnext : next.cursor = scan.cursor.skip 1)
    (hyields : next.Yields found) : scan.Yields found := by
  have hne : scan.cursor.rest ≠ [] := by rw [hrest]; exact List.cons_ne_nil _ _
  have hshorter : next.cursor.rest.length < scan.cursor.rest.length := by
    rw [hnext]
    exact length_skip_lt (Nat.succ_pos 0) hne
  exact yields_of_step (hrest ▸ hbegins) hne hexpire hclose (fun fuel _ => hstep fuel) hshorter
    hyields

-- The marks that begin an item of a list and a key of several lines, with the block that
-- the mark opens and the token it stands for.
inductive BlockMark : Char → Token → Token → Prop where
  | hyphen : BlockMark '-' .blockSequenceStart .blockEntry
  | question : BlockMark '?' .blockMappingStart .key

theorem yields_of_blockMark {c : Char} {opening token : Token} (h : BlockMark c opening token)
    (hrest : cursor.rest = c :: ' ' :: rest)
    (henters : Enters cursor.column opening indents tokens indents' tokens')
    (hyields : (settled indents' (token :: tokens') true (cursor.skip 1)).Yields found) :
    (settled indents tokens true cursor).Yields found := by
  have hbegins : Begins (c :: ' ' :: rest) := by
    cases h <;> exact begins_of_mark (by decide) _
  refine yields_of_mark hbegins hrest rfl (.inr henters.head_le) (fun fuel => ?_) rfl hyields
  have hmark : (settled indents tokens true cursor).blockMark opening token true =
      some (settled indents' (token :: tokens') true (cursor.skip 1)) :=
    blockMark_eq henters rfl
  rw [← hmark, step]
  cases h <;> simp [settled, hrest, Cursor.atMarker, blankNext, isBlank, inFlow]

-- The value of a key of several lines begins.
theorem yields_of_colon (hrest : cursor.rest = ':' :: ' ' :: rest)
    (hindents : indents.head? = some cursor.column)
    (hyields : (settled indents (.value :: tokens) true (cursor.skip 1)).Yields found) :
    (settled indents tokens true cursor).Yields found := by
  have henters : Enters cursor.column .blockMappingStart indents tokens indents tokens :=
    .stayed hindents
  refine yields_of_mark (begins_of_mark (by decide) _) hrest rfl (.inr henters.head_le)
    (fun fuel => ?_) rfl hyields
  have hopen : (settled indents tokens true cursor).openBlock cursor.column tokens.length
      .blockMappingStart = settled indents tokens true cursor := openBlock_of_enters henters
  have hmark : (settled indents tokens true cursor).valueMark =
      some (settled indents (.value :: tokens) true (cursor.skip 1)) := by
    rw [valueMark]
    show some (({ (settled indents tokens true cursor).openBlock cursor.column tokens.length
      .blockMappingStart with keyAllowed := true }.skip 1).emit .value) = _
    rw [hopen]
    rfl
  rw [← hmark, step]
  simp [settled, hrest, Cursor.atMarker, blankNext, isBlank, inFlow]

-- The place of a token that a colon may turn into a key.
def keyAt (indents : List Nat) (tokens : List Token) (keyAllowed : Bool) (cursor : Cursor) :
    Option PendingKey :=
  if keyAllowed then some ⟨tokens.length, cursor, decide (indents.head? = some cursor.column)⟩
  else none

theorem noteKey_settled :
    (settled indents tokens keyAllowed cursor).noteKey =
      some { settled indents tokens keyAllowed cursor with
        pending := keyAt indents tokens keyAllowed cursor } := by
  cases keyAllowed <;> rfl

theorem keyAt_of_inside (h : indents.head? ≠ some cursor.column) :
    ∀ key ∈ keyAt indents tokens keyAllowed cursor,
      key.required = false ∧ key.at_.line = cursor.line := by
  intro key hkey
  cases keyAllowed with
  | false => cases hkey
  | true =>
      obtain rfl := Option.mem_some_iff.mp hkey
      exact ⟨decide_eq_false h, rfl⟩

-- A colon after a token that may be a key turns it into one.
theorem yields_of_keyColon {token : Token} {count : Nat}
    (hrest : (cursor.skip count).rest = ':' :: rest) (hblank : blankNext rest = true)
    (hcount : count ≤ 1024)
    (henters : Enters cursor.column .blockMappingStart indents tokens indents' tokens')
    (hyields : (settled indents' (.value :: token :: .key :: tokens') false
      ((cursor.skip count).skip 1)).Yields found) :
    Yields ⟨cursor.skip count, token :: tokens, tokens.length + 1, indents, false,
      keyAt indents tokens true cursor, []⟩ found := by
  have hindents : ∀ indent ∈ indents.head?, indent ≤ (cursor.skip count).column :=
    fun indent hindent => Nat.le_trans (henters.head_le indent hindent) (Nat.le_add_right _ _)
  refine yields_of_mark (begins_of_mark (by decide) rest) hrest ?_ (.inr hindents) (fun fuel => ?_)
    rfl hyields
  · have hstale : isStale (cursor.skip count)
        ⟨tokens.length, cursor, decide (indents.head? = some cursor.column)⟩ = false := by
      have hnear : ¬cursor.index + 1024 < cursor.index + count := by omega
      simp only [isStale, Cursor.skip, Nat.lt_irrefl, hnear, decide_false, Bool.or_self]
    rw [expireKeys, keyAt, if_pos rfl]
    simp only [expire, hstale]
    rfl
  · have hmark : Scan.valueMark ⟨cursor.skip count, token :: tokens, tokens.length + 1, indents,
        false, keyAt indents tokens true cursor, []⟩ = some (settled indents'
          (.value :: token :: .key :: tokens') false ((cursor.skip count).skip 1)) := by
      have hfirst : tokens.length + 1 - tokens.length = 1 := Nat.add_sub_cancel_left _ _
      have hsecond : tokens.length + 1 + 1 - tokens.length = 2 := by omega
      cases henters with
      | opened hall =>
          simp only [valueMark, keyAt, if_true, emitAt, hfirst, openBlock, inFlow, indent?,
            List.isEmpty_nil, Bool.not_true, Bool.false_eq_true, if_false, hall, hsecond]
          rfl
      | stayed hhead =>
          simp only [valueMark, keyAt, if_true, emitAt, hfirst, openBlock, inFlow, indent?,
            List.isEmpty_nil, Bool.not_true, Bool.false_eq_true, if_false, hhead, Option.all_some,
            Nat.lt_irrefl, decide_false]
          rfl
    rw [← hmark, step]
    simp [hrest, Cursor.atMarker, hblank]

section Plain

variable {cs after : List Char}

-- The character it begins with leads to nothing else.
theorem step_plain (h : PlainText cs) (hrest : cursor.rest = cs ++ after)
    (hafter : after.head? ≠ some '-' ∧ after.head? ≠ some '.') (fuel : Nat) :
    step fuel (settled indents tokens keyAllowed cursor) =
      (settled indents tokens keyAllowed cursor).plainScalar fuel := by
  have hhyphens := h.atMarker (.inl rfl) hrest hafter.1
  have hdots := h.atMarker (.inr rfl) hrest hafter.2
  have hstart := h.start
  have hbegins := h.begins after
  cases cs with
  | nil => exact absurd rfl h.words.nonempty
  | cons c rest =>
      have hcons : (settled indents tokens keyAllowed cursor).cursor.rest = c :: (rest ++ after) :=
        hrest
      have hblank := (hbegins c rfl).1
      simp only [isMarkStart, Bool.or_eq_false_iff] at hstart
      obtain ⟨⟨-, hnone⟩, hgap⟩ := hstart
      have hgap' : (c = '?' ∨ c = ':') ∨ c = '-' → blankNext (rest ++ after) = false ∧
          (rest ++ after).head?.any isBlank = false := by
        intro hc
        have hnext : blankNext rest = false := by
          rcases hc with (rfl | rfl) | rfl <;> simpa using hgap
        cases rest with
        | nil => cases hnext
        | cons d rest =>
            refine ⟨hnext, ?_⟩
            rw [blankNext, Bool.or_eq_false_iff] at hnext
            exact hnext.1
      have hmarks : ∀ d ∈ "#,[]\x7b\x7d&*!|>'\"%@`".toList, c ≠ d := by
        rintro d hd rfl
        exact absurd (List.contains_iff_mem.mpr hd) (Bool.eq_false_iff.mp hnone)
      have hflow : (settled indents tokens keyAllowed cursor).inFlow = false := rfl
      have hhyphens' : (settled indents tokens keyAllowed cursor).cursor.atMarker '-' = false :=
        hhyphens
      have hdots' : (settled indents tokens keyAllowed cursor).cursor.atMarker '.' = false := hdots
      rw [step, hcons]
      simp only [hflow, hhyphens', hdots', hmarks '%' (by decide), hmarks '[' (by decide),
        hmarks '\x7b' (by decide), hmarks ']' (by decide), hmarks '\x7d' (by decide),
        hmarks ',' (by decide), hmarks '*' (by decide), hmarks '&' (by decide),
        hmarks '!' (by decide), hmarks '|' (by decide), hmarks '>' (by decide),
        hmarks '\'' (by decide), hmarks '"' (by decide), hblank, decide_false, Bool.and_false,
        Bool.false_eq_true, if_false, Bool.false_or, Bool.or_false, Bool.not_false,
        Bool.and_true]
      by_cases hmark : (c = '?' ∨ c = ':') ∨ c = '-'
      · obtain ⟨hnext, hhead⟩ := hgap' hmark
        have hknown : "-?:,[]\x7b\x7d#&*!|>'\"%@`".toList.contains c = true := by
          rcases hmark with (rfl | rfl) | rfl <;> decide
        have hplain : (decide (c = '-') || (decide (c = '?') || decide (c = ':'))) = true := by
          rcases hmark with (rfl | rfl) | rfl <;> rfl
        simp only [hnext, hhead, hknown, hplain, Bool.and_false, Bool.false_eq_true, if_false,
          Bool.not_false, Bool.and_true, if_true]
      · have hfree : (c ≠ '?' ∧ c ≠ ':') ∧ c ≠ '-' := by
          simpa only [not_or] using hmark
        have hknown : "-?:,[]\x7b\x7d#&*!|>'\"%@`".toList.contains c = false := by
          refine Bool.eq_false_iff.mpr fun hcontains => ?_
          have hmem := List.contains_iff_mem.mp hcontains
          have hall : ∀ d ∈ "-?:,[]\x7b\x7d#&*!|>'\"%@`".toList,
              d ∈ "#,[]\x7b\x7d&*!|>'\"%@`".toList ∨ (d = '?' ∨ d = ':') ∨ d = '-' :=
            forall_mem_of_all (by decide)
          rcases hall c hmem with hmem | hmem
          · exact hmarks c hmem rfl
          · exact hmark hmem
        simp only [hfree.1.1, hfree.1.2, hfree.2, hknown, decide_false, Bool.false_and,
          Bool.false_eq_true, if_false]

end Plain

end Scan

end Dataflow.Yaml
