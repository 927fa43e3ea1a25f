import Dataflow.Proofs.Yaml.Cursor

namespace Dataflow.Yaml

-- Characters without gaps, of which a colon is not the last.
structure Word (word : List Char) : Prop where
  nonempty : word ≠ []
  solid : ∀ c ∈ word, isBlank c = false ∧ isBreak c = false
  last : word.getLast? ≠ some ':'

-- Words on one line, divided by blanks. After a blank no word begins like a comment.
inductive Words : List Char → Prop where
  | last {word : List Char} : Word word → Words word
  | more {word rest : List Char} (count : Nat) : Word word → Words rest →
      rest.head? ≠ some '#' → Words (word ++ (spaces (count + 1) ++ rest))

-- Where a scalar of one line may stop: before the colon of a key, or with the line.
inductive Stops (margin : Nat) (next : Cursor) : Bool → Cursor → Prop where
  | colon {rest : List Char} : next.rest = ':' :: rest → blankNext rest = true →
      Stops margin next false next
  | line {count : Nat} {rest : List Char} : next.rest = '\n' :: (spaces count ++ rest) →
      Begins rest → count < margin →
      Stops margin next true ⟨rest, next.index + (1 + count), next.line + 1, count⟩

theorem Word.head_solid {word : List Char} (h : Word word) (after : List Char) :
    ∀ c ∈ (word ++ after).head?, isBlank c = false ∧ isBreak c = false := by
  obtain ⟨hne, hsolid, -⟩ := h
  cases word with
  | nil => exact absurd rfl hne
  | cons c rest =>
      rintro d ⟨⟩
      exact hsolid c List.mem_cons_self

theorem Words.head_solid {cs : List Char} (h : Words cs) (after : List Char) :
    ∀ c ∈ (cs ++ after).head?, isBlank c = false ∧ isBreak c = false := by
  cases h with
  | last hw => exact hw.head_solid after
  | more count hw hrest hhash =>
      rw [List.append_assoc]
      exact hw.head_solid _

theorem Words.nonempty {cs : List Char} (h : Words cs) : cs ≠ [] := by
  cases h with
  | last hw => exact hw.nonempty
  | more count hw hrest hhash => simp [hw.nonempty]

theorem plainPiece_word {word after : List Char} (h : Word word)
    (hafter : plainPiece false after = some []) :
    plainPiece false (word ++ after) = some word := by
  obtain ⟨-, hsolid, hlast⟩ := h
  induction word with
  | nil => exact hafter
  | cons c rest ih =>
      obtain ⟨⟨hblank, hbreak⟩, hrest⟩ := List.forall_mem_cons.mp hsolid
      have htail : plainPiece false (rest ++ after) = some rest := by
        cases rest with
        | nil => exact hafter
        | cons d rest => exact ih hrest (by rwa [List.getLast?_cons_cons] at hlast)
      have hcolon : (decide (c = ':') && blankNext (rest ++ after)) = false := by
        cases rest with
        | nil =>
            have hne : c ≠ ':' := fun heq => hlast (by rw [heq]; rfl)
            rw [decide_eq_false hne, Bool.false_and]
        | cons d rest =>
            obtain ⟨hd, hb⟩ := hrest d List.mem_cons_self
            rw [List.cons_append, blankNext, hd, hb, Bool.or_self, Bool.and_false]
      rw [List.cons_append, plainPiece, hblank, hbreak, hcolon, htail]
      rfl

theorem plainPiece_of_stops {margin : Nat} {next cursor : Cursor} {broken : Bool}
    (h : Stops margin next broken cursor) : plainPiece false next.rest = some [] := by
  cases h with
  | colon hrest hblank =>
      rw [hrest, plainPiece, hblank]
      rfl
  | line hrest => rw [hrest]; rfl

section Plain

variable {margin fuel : Nat} {done : List Char} {gap : Gap} {cursor : Cursor} {word : List Char}

theorem scanPlain_stops (hw : Word word) {broken : Bool} {stop : Cursor} {after : List Char}
    (hrest : cursor.rest = word ++ after) (hmark : cursor.atDocumentMarker = false)
    (hhash : word.head? ≠ some '#') (hfuel : cursor.rest.length < fuel)
    (hstops : Stops margin (cursor.skip word.length) broken stop) :
    scanPlain false margin fuel done gap cursor =
      some (done.reverse ++ gap.text ++ word, broken, stop) := by
  obtain ⟨fuel, rfl⟩ : ∃ n, fuel = n + 1 := ⟨fuel - 1, by omega⟩
  have hnext := Cursor.rest_skip_append hrest
  have hpiece : plainPiece false cursor.rest = some word :=
    hrest ▸ plainPiece_word hw (hnext ▸ plainPiece_of_stops hstops)
  have hhead : cursor.rest.head? ≠ some '#' := by
    rwa [hrest, List.head?_append, List.head?_eq_some_head hw.nonempty, Option.some_or,
      ← List.head?_eq_some_head hw.nonempty]
  have hempty : word.isEmpty = false := List.isEmpty_eq_false_iff.mpr hw.nonempty
  rw [scanPlain]
  simp only [hmark, hhead, decide_false, Bool.or_self, Bool.false_eq_true, if_false, hpiece,
    hempty]
  cases hstops with
  | colon hcolon hblank =>
      have hstop : ((cursor.skip word.length).atEnd ||
          !blankNext (cursor.skip word.length).rest) = true := by
        rw [hcolon]
        exact Bool.or_true _
      rw [if_pos hstop]
      simp [Gap.none]
  | @line count rest hline hbegins hcount =>
      have hgo : ((cursor.skip word.length).atEnd ||
          !blankNext (cursor.skip word.length).rest) = false := by
        rw [Cursor.atEnd, hline]
        rfl
      have hlength : (cursor.skip word.length).rest.length < fuel + 1 := by
        rw [Cursor.skip, List.length_drop]
        omega
      rw [if_neg (Bool.eq_false_iff.mp hgo)]
      simp only [scanGap_line hline hbegins hlength, hcount, decide_true, Bool.not_false,
        Bool.and_self, if_true]
      simp

-- One word is taken with the gap after it where another follows on the line.
theorem scanPlain_more (hw : Word word) {count : Nat} {rest : List Char}
    (hrest : cursor.rest = word ++ (spaces (count + 1) ++ rest))
    (hmark : cursor.atDocumentMarker = false) (hhash : word.head? ≠ some '#')
    (hfuel : cursor.rest.length < fuel + 1)
    (hbegins : ∀ c ∈ rest.head?, isBlank c = false ∧ isBreak c = false)
    (hmargin : margin ≤ cursor.column + 1) :
    scanPlain false margin (fuel + 1) done gap cursor =
      scanPlain false margin fuel (word.reverse ++ gap.text.reverse ++ done)
        ⟨false, spaces (count + 1), [], []⟩ (cursor.skip (word.length + (count + 1))) := by
  have hnext := Cursor.rest_skip_append hrest
  have hpiece : plainPiece false cursor.rest = some word := hrest ▸ plainPiece_word hw rfl
  have hhead : cursor.rest.head? ≠ some '#' := by
    rwa [hrest, List.head?_append, List.head?_eq_some_head hw.nonempty, Option.some_or,
      ← List.head?_eq_some_head hw.nonempty]
  have hempty : word.isEmpty = false := List.isEmpty_eq_false_iff.mpr hw.nonempty
  have hgo : ((cursor.skip word.length).atEnd ||
      !blankNext (cursor.skip word.length).rest) = false := by
    rw [Cursor.atEnd, hnext]
    rfl
  have hlength : (cursor.skip word.length).rest.length < fuel + 1 := by
    rw [Cursor.skip, List.length_drop]
    omega
  have hcount : count + 1 < fuel + 1 := by
    rw [hnext, List.length_append, spaces, List.length_replicate] at hlength
    omega
  obtain ⟨left, hleft⟩ : ∃ n, fuel + 1 - (count + 1) = n + 1 := ⟨fuel - count - 1, by omega⟩
  have hrest' : (cursor.skip (word.length + (count + 1))).rest = rest := by
    have h := @Cursor.rest_skip_append _ (spaces (count + 1)) _ hnext
    rwa [spaces, List.length_replicate, Cursor.skip_skip] at h
  have hgap : scanGap margin (fuel + 1) Gap.none (cursor.skip word.length) =
      some (⟨false, spaces (count + 1), [], []⟩,
        cursor.skip (word.length + (count + 1))) := by
    rw [scanGap_spaces (count + 1) hnext hcount, hleft, Cursor.skip_skip,
      scanGap_stop (hrest' ▸ hbegins)]
    simp [Gap.addSpaces, Gap.none]
  have hcolumn : ¬(cursor.skip (word.length + (count + 1))).column < margin := by
    simp only [Cursor.skip]
    have hpos := List.length_pos_iff.mpr hw.nonempty
    omega
  rw [scanPlain]
  simp only [hmark, hhead, decide_false, Bool.or_self, Bool.false_eq_true, if_false, hpiece,
    hempty, hgo, hgap, hcolumn, Bool.and_false]

-- A plain scalar on one line.
theorem scanPlain_words {cs : List Char} (h : Words cs) {broken : Bool} {stop : Cursor}
    {after : List Char} (hrest : cursor.rest = cs ++ after)
    (hmark : cursor.atDocumentMarker = false) (hhash : cs.head? ≠ some '#')
    (hmargin : margin ≤ cursor.column + 1) (hfuel : cursor.rest.length < fuel)
    (hstops : Stops margin (cursor.skip cs.length) broken stop) :
    scanPlain false margin fuel done gap cursor =
      some (done.reverse ++ gap.text ++ cs, broken, stop) := by
  induction h generalizing fuel done gap cursor with
  | last hw => exact scanPlain_stops hw hrest hmark hhash hfuel hstops
  | @more word rest count hw hwords hmore ih =>
      obtain ⟨fuel, rfl⟩ : ∃ n, fuel = n + 1 := ⟨fuel - 1, by omega⟩
      have hpos := List.length_pos_iff.mpr hw.nonempty
      have hrest' : cursor.rest = word ++ (spaces (count + 1) ++ (rest ++ after)) := by
        rw [hrest, List.append_assoc, List.append_assoc]
      have hhead : word.head? ≠ some '#' := by
        rwa [List.head?_append, List.head?_eq_some_head hw.nonempty, Option.some_or,
          ← List.head?_eq_some_head hw.nonempty] at hhash
      have hnext : (cursor.skip (word.length + (count + 1))).rest = rest ++ after := by
        have h := Cursor.rest_skip_append (hrest'.trans (List.append_assoc _ _ _).symm)
        rwa [List.length_append, spaces, List.length_replicate] at h
      have hlength : (cursor.skip (word.length + (count + 1))).rest.length < fuel := by
        have htotal := congrArg List.length hrest'
        rw [List.length_append] at htotal
        rw [Cursor.skip, List.length_drop]
        omega
      have hcolumn : (cursor.skip (word.length + (count + 1))).column ≠ 0 := by
        simp only [Cursor.skip]
        omega
      have hstops' : Stops margin
          ((cursor.skip (word.length + (count + 1))).skip rest.length) broken stop := by
        rw [Cursor.skip_skip]
        rw [List.length_append, List.length_append, spaces, List.length_replicate,
          ← Nat.add_assoc] at hstops
        exact hstops
      rw [scanPlain_more hw hrest' hmark hhead hfuel (hwords.head_solid after) hmargin,
        ih hnext (Cursor.atDocumentMarker_of_column hcolumn) hmore
          (by simp only [Cursor.skip]; omega) hlength hstops']
      simp [Gap.text, spaces]

end Plain

section Allowed

-- A line that ends neither with a blank nor with a colon is a run of blanks and words.
theorem exists_words {cs : List Char} (hne : cs ≠ [])
    (hchars : ∀ c ∈ cs, isBreak c = false ∧ c ≠ '\t')
    (hlast : cs.getLast? ≠ some ' ' ∧ cs.getLast? ≠ some ':')
    (hcolons : anyNeighbours (fun a b => a = ':' && (isBlank b || isBreak b)) cs = false)
    (hhashes : anyNeighbours (fun a b => b = '#' && (isBlank a || isBreak a)) cs = false) :
    ∃ count rest, cs = spaces count ++ rest ∧ Words rest ∧
      (0 < count → rest.head? ≠ some '#') := by
  induction cs with
  | nil => exact absurd rfl hne
  | cons c tail ih =>
      obtain ⟨⟨hbreak, htab⟩, htail⟩ := List.forall_mem_cons.mp hchars
      obtain ⟨hcolon, hcolons⟩ := anyNeighbours_cons hcolons
      obtain ⟨hhash, hhashes⟩ := anyNeighbours_cons hhashes
      by_cases hempty : tail = []
      · subst hempty
        have hc : c ≠ ' ' ∧ c ≠ ':' := by
          constructor
          · rintro rfl
            exact hlast.1 rfl
          · rintro rfl
            exact hlast.2 rfl
        have hword : Word [c] := by
          refine ⟨List.cons_ne_nil _ _, fun d hd => ?_, fun heq => hc.2 (Option.some.inj heq)⟩
          obtain rfl := List.mem_singleton.mp hd
          exact ⟨by simp [isBlank, hc.1, htab], hbreak⟩
        exact ⟨0, [c], rfl, .last hword, fun h => absurd h (Nat.lt_irrefl 0)⟩
      · have htaillast : (c :: tail).getLast? = tail.getLast? := by
          cases tail with
          | nil => exact absurd rfl hempty
          | cons d rest => exact List.getLast?_cons_cons
        rw [htaillast] at hlast
        obtain ⟨count, rest, rfl, hwords, hmore⟩ := ih hempty htail hlast hcolons hhashes
        by_cases hc : c = ' '
        · subst hc
          refine ⟨count + 1, rest, rfl, hwords, fun _ => ?_⟩
          cases count with
          | zero =>
              intro heq
              exact absurd (hhash '#' heq) (by decide)
          | succ count => exact hmore (Nat.succ_pos count)
        · have hblank : isBlank c = false := by simp [isBlank, hc, htab]
          refine ⟨0, _, rfl, ?_, fun h => absurd h (Nat.lt_irrefl 0)⟩
          cases count with
          | zero =>
              have hsolid : ∀ {word : List Char}, Word word → Word (c :: word) := by
                rintro word ⟨hne, hsolid, hlast⟩
                refine ⟨List.cons_ne_nil _ _, List.forall_mem_cons.mpr ⟨⟨hblank, hbreak⟩, hsolid⟩, ?_⟩
                cases word with
                | nil => exact absurd rfl hne
                | cons d word => rwa [List.getLast?_cons_cons]
              cases hwords with
              | last hw => exact .last (hsolid hw)
              | more count hw hrest hnot => exact .more count (hsolid hw) hrest hnot
          | succ count =>
              have hword : Word [c] := by
                refine ⟨List.cons_ne_nil _ _, fun d hd => ?_, fun heq => ?_⟩
                · obtain rfl := List.mem_singleton.mp hd
                  exact ⟨hblank, hbreak⟩
                · obtain rfl := Option.some.inj heq
                  exact absurd (hcolon ' ' rfl) (by decide)
              exact .more count hword hwords (hmore (Nat.succ_pos count))

-- A text that may stand plain consists of words and begins like nothing else.
theorem words_of_plainAllowed {cs : List Char} (hne : cs ≠ [])
    (h : (traits cs).plainAllowed = true) :
    Words cs ∧ isMarkStart cs = false ∧ ∀ c ∈ cs, isPlainChar c = true ∧ isBreak c = false := by
  cases cs with
  | nil => exact absurd rfl hne
  | cons c rest =>
      simp only [traits, Bool.not_eq_true', Bool.or_eq_false_iff, isMarkInside] at h
      obtain ⟨⟨⟨⟨⟨⟨⟨⟨hfirst, -⟩, hlast⟩, -⟩, -⟩, hspecial⟩, hmultiline⟩, hstart⟩,
        ⟨hcolons, hcolon⟩, hhashes⟩ := h
      have hchars : ∀ d ∈ c :: rest, isPlainChar d = true ∧ isBreak d = false := by
        intro d hd
        have hplain := List.any_eq_false.mp hspecial d hd
        have hbreak := List.any_eq_false.mp hmultiline d hd
        exact ⟨by simpa using hplain, by simpa using hbreak⟩
      have hspace : (c :: rest).getLast? ≠ some ' ' := by
        intro heq
        rw [heq] at hlast
        exact absurd hlast (by decide)
      have hend : (c :: rest).getLast? ≠ some ':' := by
        cases rest with
        | nil =>
            intro heq
            obtain rfl := Option.some.inj heq
            exact absurd hstart (by decide)
        | cons d rest =>
            rw [List.getLast?_cons_cons]
            exact of_decide_eq_false hcolon
      have hcolons' : anyNeighbours (fun a b => a = ':' && (isBlank b || isBreak b)) (c :: rest) =
          false := by
        cases rest with
        | nil => rfl
        | cons d rest =>
            rw [anyNeighbours, hcolons, Bool.or_false]
            by_cases hc : c = ':'
            · subst hc
              have hd : blankNext (d :: rest) = false := by
                simp only [isMarkStart, Bool.or_eq_false_iff] at hstart
                simpa using hstart.2
              rw [blankNext] at hd
              rw [hd, Bool.and_false]
            · rw [decide_eq_false hc, Bool.false_and]
      obtain ⟨count, words, heq, hwords, -⟩ := exists_words hne
        (fun d hd => ⟨(hchars d hd).2, fun h => absurd (h ▸ (hchars d hd).1) (by decide)⟩)
        ⟨hspace, hend⟩ hcolons' hhashes
      cases count with
      | zero =>
          rw [heq]
          exact ⟨hwords, heq ▸ hstart, heq ▸ hchars⟩
      | succ count =>
          have hc : c = ' ' := (List.cons.inj heq).1
          subst hc
          exact absurd hfirst (by decide)

end Allowed

section Text

variable {cs after : List Char} {cursor : Cursor}

-- Text that may stand without quotes where a token begins.
structure PlainText (cs : List Char) : Prop where
  words : Words cs
  start : isMarkStart cs = false
  head : cs.head? ≠ some '\ufeff'

theorem PlainText.begins (h : PlainText cs) (after : List Char) : Begins (cs ++ after) := by
  obtain ⟨hwords, hstart, hhead⟩ := h
  intro c hc
  obtain ⟨hblank, hbreak⟩ := hwords.head_solid after c hc
  cases cs with
  | nil => exact absurd rfl hwords.nonempty
  | cons d rest =>
      obtain rfl := Option.mem_some_iff.mp hc
      refine ⟨hblank, hbreak, ?_, fun heq => hhead (heq ▸ rfl)⟩
      rintro rfl
      exact absurd hstart (by simp [isMarkStart])

-- No document begins or ends with such a text.
theorem PlainText.atMarker (h : PlainText cs) {mark : Char} (hmark : mark = '-' ∨ mark = '.')
    (hrest : cursor.rest = cs ++ after) (hafter : after.head? ≠ some mark) :
    cursor.atMarker mark = false := by
  have htake : cursor.rest.take 3 ≠ [mark, mark, mark] := by
    intro htake
    have hstart := h.start
    rw [hrest] at htake
    match cs, h.words.nonempty with
    | [a], _ =>
        obtain ⟨-, htail⟩ := List.cons.inj htake
        cases after with
        | nil => cases htail
        | cons d after => exact hafter (congrArg some (List.cons.inj htail).1)
    | [a, b], _ =>
        obtain ⟨-, htail⟩ := List.cons.inj (List.cons.inj htake).2
        cases after with
        | nil => cases htail
        | cons d after => exact hafter (congrArg some (List.cons.inj htail).1)
    | a :: b :: c :: rest, _ =>
        have hthree : [a, b, c] = [mark, mark, mark] := htake
        rcases hmark with rfl | rfl <;> simp [isMarkStart, hthree] at hstart
  rw [Cursor.atMarker, decide_eq_false htake, Bool.and_false, Bool.false_and]

theorem PlainText.head_ne_hash (h : PlainText cs) : cs.head? ≠ some '#' := by
  intro heq
  have hstart := h.start
  cases cs with
  | nil => cases heq
  | cons c cs =>
      obtain rfl := Option.some.inj heq
      simp [isMarkStart] at hstart

end Text

end Dataflow.Yaml
