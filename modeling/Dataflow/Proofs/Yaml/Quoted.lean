import Dataflow.Proofs.Yaml.Cursor
import Dataflow.Proofs.Yaml.Escapes

namespace Dataflow.Yaml

-- A kind of quotes: which line breaks stay line breaks between them, and how other
-- characters are spelled.
structure Quotes where
  single : Bool
  breaks : Char → Bool
  spell : Char → List Char

namespace Quotes

def mark (quotes : Quotes) : Char :=
  if quotes.single then '\'' else '"'

-- A text between the quotes.
def inside (quotes : Quotes) (margin : Nat) (afterBreak : Bool) : List Char → List Char
  | [] => if afterBreak then spaces margin else []
  | c :: rest =>
      if quotes.breaks c then c :: inside quotes margin true rest
      else (if afterBreak then spaces margin else []) ++
        (quotes.spell c ++ inside quotes margin false rest)

-- A character that gaps consist of.
def isGap (quotes : Quotes) (c : Char) : Bool :=
  c = ' ' || quotes.breaks c

-- What is asked of the characters between the quotes.
structure Fits (quotes : Quotes) (c : Char) : Prop where
  space : c = ' ' → quotes.breaks c = false ∧ quotes.spell c = [' ']
  feed : quotes.breaks c = true → c = '\u2028' ∨ c = '\u2029'
  spelled : quotes.isGap c = false → ∃ d rest, quotes.spell c = d :: rest ∧
    (∀ d ∈ quotes.spell c, isBreak d = false) ∧ isBlank d = false
  piece : quotes.isGap c = false → ∀ {fuel : Nat} {done : List Char} {cursor : Cursor}
    {after : List Char}, cursor.rest = quotes.spell c ++ after →
    quotedPiece quotes.single (fuel + 1) done cursor =
      quotedPiece quotes.single fuel (c :: done) (cursor.skip (quotes.spell c).length)

-- A text that may stand between the quotes: blanks and line breaks do not touch.
structure Holds (quotes : Quotes) (cs : List Char) : Prop where
  fits : ∀ c ∈ cs, quotes.Fits c
  broken : anyNeighbours (fun a b => quotes.breaks a && b = ' ') cs = false
  spaced : anyNeighbours (fun a b => a = ' ' && quotes.breaks b) cs = false

def style (quotes : Quotes) : Style :=
  if quotes.single then .singleQuoted else .doubleQuoted

-- A text with its quotes.
def written (quotes : Quotes) (margin : Nat) (cs : List Char) : List Char :=
  quotes.mark :: (quotes.inside margin false cs ++ [quotes.mark])

end Quotes

theorem Quotes.mark_solid (quotes : Quotes) :
    isBlank quotes.mark = false ∧ isBreak quotes.mark = false := by
  rw [mark]
  split <;> exact ⟨rfl, rfl⟩

-- Nothing but the character itself is written in a gap, and something else is read there.
theorem Quotes.Fits.gap {quotes : Quotes} {c : Char} (hc : quotes.Fits c)
    (h : quotes.isGap c = true) (margin : Nat) (rest : List Char) :
    quotes.inside margin false (c :: rest) =
        c :: quotes.inside margin (quotes.breaks c) rest ∧
      (c = ' ' ∨ isBreak c = true) ∧ c ≠ quotes.mark := by
  have hmark : quotes.mark = '\'' ∨ quotes.mark = '"' := by
    rw [mark]
    split
    · exact .inl rfl
    · exact .inr rfl
  by_cases hspace : c = ' '
  · subst hspace
    obtain ⟨hbreaks, hspell⟩ := hc.space rfl
    rw [inside, hbreaks, hspell]
    refine ⟨rfl, .inl rfl, ?_⟩
    rcases hmark with heq | heq <;> rw [heq] <;> decide
  · have hbreaks : quotes.breaks c = true := by
      simpa [isGap, hspace] using h
    rw [inside, hbreaks]
    refine ⟨rfl, .inr ?_, ?_⟩
    · rcases hc.feed hbreaks with rfl | rfl <;> rfl
    · rcases hc.feed hbreaks with rfl | rfl <;> rcases hmark with heq | heq <;> rw [heq] <;> decide

section Scan

variable {quotes : Quotes} {margin fuel : Nat} {done cs after : List Char} {cursor : Cursor}

-- The characters of a text up to the first gap.
theorem quotedPiece_inside (hfits : ∀ c ∈ cs, quotes.Fits c)
    (hrest : cursor.rest = quotes.inside margin false cs ++ quotes.mark :: after)
    (hafter : quotes.single = true → after.head? ≠ some '\'') (hfuel : cursor.rest.length < fuel) :
    ∃ word rest taken, cs = word ++ rest ∧ (∀ c ∈ rest.head?, quotes.isGap c = true) ∧
      quotes.inside margin false cs = taken ++ quotes.inside margin false rest ∧
      quotedPiece quotes.single fuel done cursor =
        some (word.reverse ++ done, false, cursor.past taken) ∧
      cursor.column ≤ (cursor.past taken).column := by
  induction cs generalizing fuel done cursor with
  | nil =>
      refine ⟨[], [], [], rfl, nofun, rfl, ?_, Nat.le_refl _⟩
      obtain ⟨fuel, rfl⟩ : ∃ n, fuel = n + 1 := ⟨fuel - 1, by omega⟩
      have hquote : cursor.rest = quotes.mark :: after := hrest
      have hnext : blankNext (quotes.mark :: after) = false := by
        rw [blankNext, quotes.mark_solid.1, quotes.mark_solid.2]
        rfl
      rw [quotedPiece, hquote, hnext, if_neg Bool.false_ne_true, Quotes.mark]
      cases hsingle : quotes.single with
      | false => rfl
      | true =>
          cases after with
          | nil => rfl
          | cons d after =>
              have hd : d ≠ '\'' := fun heq => hafter hsingle (heq ▸ rfl)
              simp only [if_true]
              split
              · rename_i heq
                exact absurd (List.cons.inj (List.cons.inj heq).2).1 hd
              · rfl
              · rename_i hnot heq
                exact (hnot (List.cons.inj heq).1.symm).elim
              · rename_i heq
                cases heq
  | cons c cs ih =>
      obtain ⟨fuel, rfl⟩ : ∃ n, fuel = n + 1 := ⟨fuel - 1, by omega⟩
      obtain ⟨hc, hcs⟩ := List.forall_mem_cons.mp hfits
      cases hgap : quotes.isGap c with
      | true =>
          refine ⟨[], c :: cs, [], rfl, fun d hd => Option.mem_some_iff.mp hd ▸ hgap, rfl, ?_,
            Nat.le_refl _⟩
          obtain ⟨hinside, hkind, -⟩ := hc.gap hgap margin cs
          have hnext : blankNext cursor.rest = true := by
            rw [hrest, hinside, List.cons_append, blankNext]
            rcases hkind with rfl | hbreak
            · rfl
            · rw [hbreak, Bool.or_true]
          rw [quotedPiece, hnext]
          rfl
      | false =>
          have hbreaks : quotes.breaks c = false := by
            rw [Quotes.isGap, Bool.or_eq_false_iff] at hgap
            exact hgap.2
          have hinside : quotes.inside margin false (c :: cs) =
              quotes.spell c ++ quotes.inside margin false cs := by
            rw [Quotes.inside, hbreaks]
            rfl
          rw [hinside, List.append_assoc] at hrest
          obtain ⟨d, spelled, hspell, hline, -⟩ := hc.spelled hgap
          have hpast := @Cursor.past_of_line cursor _ hline
          have hnext := Cursor.rest_skip_append hrest
          have hlength : (cursor.skip (quotes.spell c).length).rest.length < fuel := by
            rw [Cursor.skip, List.length_drop, hspell, List.length_cons]
            rw [hrest, hspell, List.length_append, List.length_cons] at hfuel ⊢
            omega
          obtain ⟨word, rest, taken, rfl, hhead, htaken, hpiece, hcolumn⟩ := ih hcs hnext hlength
          refine ⟨c :: word, rest, quotes.spell c ++ taken, rfl, hhead, ?_, ?_, ?_⟩
          · rw [hinside, htaken, List.append_assoc]
          · rw [hc.piece hgap hrest, hpiece, Cursor.past_append, hpast, List.reverse_cons,
              List.append_assoc]
            rfl
          · rw [Cursor.past_append, hpast]
            exact Nat.le_trans (Nat.le_add_right _ _) hcolumn

-- Something that is no gap stands here, after a margin where a line has begun.
theorem scanGap_margin {gap : Gap} {rest : List Char}
    (hrest : cursor.rest = (if gap.broken then spaces margin else []) ++ rest)
    (hhead : ∀ c ∈ rest.head?, isBlank c = false ∧ isBreak c = false)
    (hfuel : cursor.rest.length < fuel) :
    scanGap 0 fuel gap cursor =
      some (gap, cursor.past (if gap.broken then spaces margin else [])) := by
  have hcount : ∀ count, gap.broken = true ∨ count = 0 →
      cursor.rest = spaces count ++ rest →
      scanGap 0 fuel gap cursor = some (gap, cursor.past (spaces count)) := by
    intro count hgap hrest
    have hlength : count < fuel := by
      rw [hrest, List.length_append, spaces, List.length_replicate] at hfuel
      omega
    have hsame : gap.addSpaces count = gap := by
      rw [Gap.addSpaces]
      rcases hgap with hbroken | rfl
      · exact if_pos hbroken
      · split <;> rfl
    obtain ⟨left, hleft⟩ : ∃ n, fuel - count = n + 1 := ⟨fuel - count - 1, by omega⟩
    have hnext : (cursor.skip count).rest = rest := by
      rw [← Cursor.past_spaces, Cursor.rest_past hrest]
    rw [scanGap_spaces count hrest hlength, hsame, hleft, Cursor.past_spaces,
      scanGap_stop (hnext ▸ hhead)]
  cases hbroken : gap.broken with
  | false =>
      rw [hbroken] at hrest
      exact hcount 0 (.inr rfl) hrest
  | true =>
      rw [hbroken] at hrest
      exact hcount margin (.inl hbroken) hrest

-- The gaps there can be: blanks on one line, or line breaks.
inductive GapOf : Gap → List Char → Prop where
  | blanks (count : Nat) : GapOf ⟨false, spaces count, [], []⟩ (spaces count)
  | breaks {c : Char} (rest : List Char) : c ≠ '\n' → GapOf ⟨true, [], [c], rest.reverse⟩ (c :: rest)

theorem GapOf.text_eq {gap : Gap} {text : List Char} (h : GapOf gap text) : gap.text = text := by
  cases h with
  | blanks count => simp [Gap.text, spaces]
  | breaks rest hc =>
      simp [Gap.text, hc]

-- A line break may come first of all or after others.
theorem GapOf.addBreak {gap : Gap} {text : List Char} {c : Char} (h : GapOf gap text)
    (hfirst : gap.broken = false → text = []) (hc : c = '\u2028' ∨ c = '\u2029') :
    GapOf (gap.addBreak [c]) (text ++ [c]) := by
  cases h with
  | blanks count =>
      rw [hfirst rfl]
      refine .breaks [] ?_
      rcases hc with rfl | rfl <;> decide
  | breaks others hnot =>
      have h := GapOf.breaks (others ++ [c]) hnot
      rwa [List.reverse_append] at h

theorem Gap.broken_addBreak (gap : Gap) (mark : List Char) : (gap.addBreak mark).broken = true := by
  cases h : gap.broken <;> simp [Gap.addBreak, h]

-- A gap ends where the next character belongs to none.
theorem scanGap_stop_inside {gap : Gap} (hfits : ∀ c ∈ cs, quotes.Fits c)
    (hhead : ∀ c ∈ cs.head?, quotes.isGap c = false)
    (hrest : cursor.rest = quotes.inside margin gap.broken cs ++ quotes.mark :: after)
    (hfuel : cursor.rest.length < fuel) (hmargin : 0 < margin)
    (hcolumn : gap.broken = false → cursor.column ≠ 0) :
    ∃ taken, quotes.inside margin gap.broken cs = taken ++ quotes.inside margin false cs ∧
      scanGap 0 fuel gap cursor = some (gap, cursor.past taken) ∧
      (cursor.past taken).column ≠ 0 := by
  have hinside : quotes.inside margin gap.broken cs =
      (if gap.broken then spaces margin else []) ++ quotes.inside margin false cs := by
    cases cs with
    | nil => rw [Quotes.inside, Quotes.inside, if_neg Bool.false_ne_true, List.append_nil]
    | cons c cs =>
        have hc := hhead c rfl
        rw [Quotes.isGap, Bool.or_eq_false_iff] at hc
        rw [Quotes.inside, Quotes.inside, hc.2, if_neg Bool.false_ne_true,
          if_neg Bool.false_ne_true, if_neg Bool.false_ne_true, List.nil_append]
  have hsolid : ∀ c ∈ (quotes.inside margin false cs ++ quotes.mark :: after).head?,
      isBlank c = false ∧ isBreak c = false := by
    cases cs with
    | nil => exact fun c hc => Option.mem_some_iff.mp hc ▸ quotes.mark_solid
    | cons c cs =>
        have hgap := hhead c rfl
        obtain ⟨d, spelled, hspell, hline, hblank⟩ := (hfits c List.mem_cons_self).spelled hgap
        rw [Quotes.isGap, Bool.or_eq_false_iff] at hgap
        rw [Quotes.inside, hgap.2, hspell]
        intro e he
        obtain rfl : d = e := Option.mem_some_iff.mp he
        exact ⟨hblank, hline d (hspell ▸ List.mem_cons_self)⟩
  refine ⟨_, hinside, scanGap_margin ?_ hsolid hfuel, ?_⟩
  · rw [hrest, hinside, List.append_assoc]
  · cases hbroken : gap.broken with
    | false => exact hcolumn hbroken
    | true =>
        rw [if_pos rfl, Cursor.past_spaces, Cursor.skip]
        exact Nat.ne_of_gt (Nat.add_pos_right _ hmargin)

-- A gap is taken as a whole.
theorem scanGap_inside {gap : Gap} {text : List Char} (hfits : ∀ c ∈ cs, quotes.Fits c)
    (hbroken : anyNeighbours (fun a b => quotes.breaks a && b = ' ') cs = false)
    (hspaced : anyNeighbours (fun a b => a = ' ' && quotes.breaks b) cs = false)
    (hgap : GapOf gap text) (hafterBreak : gap.broken = true → cs.head? ≠ some ' ')
    (hafterBlank : gap.broken = false → text ≠ [] → ∀ c ∈ cs.head?, quotes.breaks c = false)
    (hrest : cursor.rest = quotes.inside margin gap.broken cs ++ quotes.mark :: after)
    (hfuel : cursor.rest.length < fuel) (hmargin : 0 < margin)
    (hcolumn : gap.broken = false → cursor.column ≠ 0) :
    ∃ blanks rest taken gap', cs = blanks ++ rest ∧ (∀ c ∈ rest.head?, quotes.isGap c = false) ∧
      quotes.inside margin gap.broken cs = taken ++ quotes.inside margin false rest ∧
      scanGap 0 fuel gap cursor = some (gap', cursor.past taken) ∧ GapOf gap' (text ++ blanks) ∧
      (cursor.past taken).column ≠ 0 ∧ blanks.length ≤ taken.length := by
  induction cs generalizing gap text fuel cursor with
  | nil =>
      obtain ⟨taken, hinside, hscan, hnext⟩ :=
        scanGap_stop_inside hfits (by simp) hrest hfuel hmargin hcolumn
      exact ⟨[], [], taken, gap, rfl, by simp, hinside, hscan, (List.append_nil text).symm ▸ hgap,
        hnext, Nat.zero_le _⟩
  | cons c cs ih =>
      obtain ⟨hc, hcs⟩ := List.forall_mem_cons.mp hfits
      obtain ⟨hbreakSpace, hbroken'⟩ := anyNeighbours_cons hbroken
      obtain ⟨hspaceBreak, hspaced'⟩ := anyNeighbours_cons hspaced
      cases hkind : quotes.isGap c with
      | false =>
          have hhead : ∀ d ∈ (c :: cs).head?, quotes.isGap d = false :=
            fun d hd => Option.mem_some_iff.mp hd ▸ hkind
          obtain ⟨taken, hinside, hscan, hnext⟩ :=
            scanGap_stop_inside hfits hhead hrest hfuel hmargin hcolumn
          exact ⟨[], c :: cs, taken, gap, rfl, hhead, hinside, hscan,
            (List.append_nil text).symm ▸ hgap, hnext, Nat.zero_le _⟩
      | true =>
          obtain ⟨fuel, rfl⟩ : ∃ n, fuel = n + 1 := ⟨fuel - 1, by omega⟩
          by_cases hspace : c = ' '
          · subst hspace
            have hblank : quotes.breaks ' ' = false := (hc.space rfl).1
            cases hgap with
            | breaks others hfirst => exact absurd rfl (hafterBreak rfl)
            | blanks count =>
                obtain ⟨hinside, -, -⟩ := hc.gap hkind margin cs
                rw [hblank] at hinside
                have hcons : cursor.rest =
                    ' ' :: (quotes.inside margin false cs ++ quotes.mark :: after) := by
                  rw [hrest, hinside, List.cons_append]
                have hnext : (cursor.skip 1).rest =
                    quotes.inside margin false cs ++ quotes.mark :: after :=
                  Cursor.rest_skip_one hcons
                have hlength : (cursor.skip 1).rest.length < fuel := by
                  rw [hcons, List.length_cons] at hfuel
                  exact hnext ▸ Nat.lt_of_succ_lt_succ hfuel
                obtain ⟨blanks, rest, taken, gap', rfl, hhead, htaken, hscan, hgap', hend, hlong⟩ :=
                  ih hcs hbroken' hspaced' (GapOf.blanks (count + 1)) (by simp)
                    (fun _ _ d hd => by simpa using hspaceBreak d hd) hnext
                    hlength (fun _ => Nat.succ_ne_zero _)
                refine ⟨' ' :: blanks, rest, ' ' :: taken, gap', rfl, hhead, ?_, ?_, ?_, hend,
                  Nat.succ_le_succ hlong⟩
                · rw [hinside, htaken, List.cons_append]
                · exact (scanGap_space hcons).trans hscan
                · have htext : spaces count ++ ' ' :: blanks = spaces (count + 1) ++ blanks := by
                    rw [spaces, spaces, List.replicate_succ', List.append_assoc]
                    rfl
                  exact htext ▸ hgap'
          · have hbreak : quotes.breaks c = true := by simpa [Quotes.isGap, hspace] using hkind
            have hfeed := hc.feed hbreak
            have hinside : quotes.inside margin gap.broken (c :: cs) =
                c :: quotes.inside margin true cs := by rw [Quotes.inside, if_pos hbreak]
            have hcons : cursor.rest =
                c :: (quotes.inside margin true cs ++ quotes.mark :: after) := by
              rw [hrest, hinside, List.cons_append]
            have hnext : (cursor.nextLine 1).rest =
                quotes.inside margin true cs ++ quotes.mark :: after :=
              Cursor.rest_nextLine hcons
            have hlength : (cursor.nextLine 1).rest.length < fuel := by
              rw [hcons, List.length_cons] at hfuel
              exact hnext ▸ Nat.lt_of_succ_lt_succ hfuel
            have hline : isBreak c = true := by rcases hfeed with rfl | rfl <;> rfl
            have hfirst : gap.broken = false → text = [] := by
              intro hfalse
              by_contra htext
              rw [hafterBlank hfalse htext c rfl] at hbreak
              cases hbreak
            have hadded := gap.broken_addBreak [c]
            obtain ⟨blanks, rest, taken, gap', rfl, hhead, htaken, hscan, hgap', hend, hlong⟩ :=
              ih hcs hbroken' hspaced' (hgap.addBreak hfirst hfeed)
                (fun _ heq => by simpa [hbreak] using hbreakSpace ' ' heq)
                (fun hfalse => nomatch hadded.symm.trans hfalse) (hadded ▸ hnext) hlength
                (fun hfalse => nomatch hadded.symm.trans hfalse)
            rw [hadded] at htaken
            refine ⟨c :: blanks, rest, c :: taken, gap', rfl, hhead, ?_, ?_, ?_, ?_,
              Nat.succ_le_succ hlong⟩
            · rw [hinside, htaken, List.cons_append]
            · rw [scanGap_feed hcons (.inr hfeed), hscan, Cursor.past, if_pos hline]
            · rwa [List.append_assoc] at hgap'
            · rw [Cursor.past, if_pos hline]
              exact hend

-- What stands between quotes is read back.
theorem scanQuoted_inside (hcs : quotes.Holds cs)
    (hrest : cursor.rest = quotes.inside margin false cs ++ quotes.mark :: after)
    (hafter : quotes.single = true → after.head? ≠ some '\'') (hfuel : cursor.rest.length < fuel)
    (hmargin : 0 < margin) (hcolumn : cursor.column ≠ 0) :
    scanQuoted quotes.single fuel done cursor =
      some (done.reverse ++ cs, cursor.past (quotes.inside margin false cs ++ [quotes.mark])) := by
  obtain ⟨hfits, hbroken, hspaced⟩ := hcs
  induction h : cs.length using Nat.strongRecOn generalizing cs fuel done cursor with
  | ind length ih =>
      obtain ⟨fuel, rfl⟩ : ∃ n, fuel = n + 1 := ⟨fuel - 1, by omega⟩
      obtain ⟨word, more, taken, rfl, hmore, htaken, hpiece, hahead⟩ :=
        @quotedPiece_inside quotes margin (fuel + 1) done cs after cursor hfits hrest hafter hfuel
      have hend : cursor.atEnd = false := by
        rw [Cursor.atEnd, hrest]
        cases quotes.inside margin false (word ++ more) <;> rfl
      have hnext : (cursor.past taken).rest =
          quotes.inside margin false more ++ quotes.mark :: after := by
        refine Cursor.rest_past ?_
        rw [hrest, htaken, List.append_assoc]
      rw [scanQuoted, Cursor.atDocumentMarker_of_column hcolumn, hend, hpiece]
      simp only [Bool.or_self, Bool.false_eq_true, if_false]
      cases more with
      | nil =>
          have hmark : (cursor.past taken).rest.head? =
              some (if quotes.single then '\'' else '"') := by
            rw [hnext]
            rfl
          have hskip : (cursor.past taken).past [quotes.mark] = (cursor.past taken).skip 1 := by
            rw [Cursor.past, quotes.mark_solid.2, if_neg Bool.false_ne_true, Cursor.past]
          have hempty : quotes.inside margin false [] = [] := rfl
          rw [if_pos hmark, htaken, hempty, List.append_nil taken, Cursor.past_append, hskip,
            List.reverse_append, List.reverse_reverse, List.append_nil]
      | cons c more =>
          obtain ⟨hwordFits, hmoreFits⟩ := List.forall_mem_append.mp hfits
          obtain ⟨hinside, -, hnot⟩ :=
            (hmoreFits c List.mem_cons_self).gap (hmore c rfl) margin more
          have hmark : (cursor.past taken).rest.head? ≠
              some (if quotes.single then '\'' else '"') := by
            rw [hnext, hinside]
            exact fun heq => hnot (Option.some.inj heq)
          have htotal : cursor.rest.length = taken.length + (cursor.past taken).rest.length := by
            rw [hnext, hrest, htaken, List.append_assoc, List.length_append]
          obtain ⟨blanks, rest, taken', gap', hsplit, hhead, htaken', hscan, hgap', hcolumn', hlong⟩ :=
            scanGap_inside hmoreFits (anyNeighbours_append hbroken) (anyNeighbours_append hspaced)
              (.blanks 0) (by simp) (fun _ hne => absurd rfl hne) hnext
              (Nat.lt_of_le_of_lt (htotal ▸ Nat.le_add_left _ _) hfuel) hmargin
              (fun _ => Nat.ne_of_gt (Nat.lt_of_lt_of_le (Nat.pos_of_ne_zero hcolumn) hahead))
          have hscan' : scanGap 0 (fuel + 1) { Gap.none with broken := false } (cursor.past taken) =
              some (gap', (cursor.past taken).past taken') := hscan
          have hblanks : blanks ≠ [] := by
            rintro rfl
            rw [List.nil_append] at hsplit
            rw [← hsplit] at hhead
            exact Bool.noConfusion ((hmore c rfl).symm.trans (hhead c rfl))
          have hnext' : ((cursor.past taken).past taken').rest =
              quotes.inside margin false rest ++ quotes.mark :: after := by
            refine Cursor.rest_past ?_
            rw [hnext, htaken', List.append_assoc]
          have htotal' : (cursor.past taken).rest.length =
              taken'.length + ((cursor.past taken).past taken').rest.length := by
            rw [hnext', hnext, htaken', List.append_assoc, List.length_append]
          have hpos := List.length_pos_iff.mpr hblanks
          have hrestFits := (List.forall_mem_append.mp (hsplit ▸ hmoreFits)).2
          have hshorter : rest.length < length := by
            rw [← h, hsplit, List.length_append, List.length_append]
            omega
          rw [hsplit, ← List.append_assoc] at hbroken hspaced
          rw [if_neg hmark, hscan']
          show scanQuoted quotes.single fuel (gap'.text.reverse ++ (word.reverse ++ done))
            ((cursor.past taken).past taken') = _
          rw [ih _ hshorter hnext' (by omega) hcolumn' hrestFits (anyNeighbours_append hbroken)
            (anyNeighbours_append hspaced) rfl, hgap'.text_eq, htaken, htaken', hsplit]
          simp only [spaces, List.replicate_zero, List.nil_append, List.reverse_append,
            List.reverse_reverse, List.append_assoc, Cursor.past_append]

end Scan

def singleQuotes : Quotes :=
  ⟨true, isBreak, fun c => if c = '\'' then ['\'', '\''] else [c]⟩

def doubleQuotes : Quotes :=
  ⟨false, fun _ => false, doubleQuotedChar⟩

theorem singleInside_eq (margin : Nat) (afterBreak : Bool) {cs : List Char} (h : '\n' ∉ cs) :
    singleInside margin afterBreak cs = singleQuotes.inside margin afterBreak cs := by
  induction cs generalizing afterBreak with
  | nil => rfl
  | cons c rest ih =>
      have hc : c ≠ '\n' := fun heq => h (heq ▸ List.mem_cons_self)
      have hrest := fun afterBreak => ih afterBreak fun hmem => h (List.mem_cons_of_mem c hmem)
      rw [singleInside, Quotes.inside, hrest, hrest, decide_eq_false hc, Bool.and_false,
        if_neg Bool.false_ne_true, List.nil_append]
      rfl

theorem flatMap_doubleQuotedChar (margin : Nat) (cs : List Char) :
    cs.flatMap doubleQuotedChar = doubleQuotes.inside margin false cs := by
  induction cs with
  | nil => rfl
  | cons c rest ih =>
      rw [List.flatMap_cons, ih]
      rfl

theorem feed_of_isPlainChar {c : Char} (hplain : isPlainChar c = true) (hbreak : isBreak c = true) :
    c = '\n' ∨ c = '\u2028' ∨ c = '\u2029' := by
  simp only [isBreak, Bool.or_eq_true, decide_eq_true_eq] at hbreak
  rcases hbreak with (((rfl | rfl) | rfl) | rfl) | rfl
  · exact .inl rfl
  · exact absurd hplain (by decide)
  · exact absurd hplain (by decide)
  · exact .inr (.inl rfl)
  · exact .inr (.inr rfl)

theorem isBlank_of_isPlainChar {c : Char} (hplain : isPlainChar c = true) (hspace : c ≠ ' ') :
    isBlank c = false := by
  have htab : c ≠ '\t' := fun heq => absurd (heq ▸ hplain) (by decide)
  simp [isBlank, hspace, htab]

theorem singleQuotes_fits {c : Char} (hplain : isPlainChar c = true) (hfeed : c ≠ '\n') :
    singleQuotes.Fits c where
  space h := by subst h; exact ⟨rfl, rfl⟩
  feed h := (feed_of_isPlainChar hplain h).resolve_left hfeed
  spelled h := by
    obtain ⟨hspace, hbreak⟩ := Bool.or_eq_false_iff.mp h
    have hblank := isBlank_of_isPlainChar hplain (of_decide_eq_false hspace)
    by_cases hquote : c = '\''
    · subst hquote
      exact ⟨'\'', ['\''], rfl, forall_mem_of_all (by decide), rfl⟩
    · have hspell : singleQuotes.spell c = [c] := if_neg hquote
      refine ⟨c, [], hspell, ?_, hblank⟩
      rw [hspell]
      exact fun d hd => List.mem_singleton.mp hd ▸ hbreak
  piece h {fuel done cursor after} hrest := by
    obtain ⟨hspace, hbreak⟩ := Bool.or_eq_false_iff.mp h
    have hblank := isBlank_of_isPlainChar hplain (of_decide_eq_false hspace)
    have hbreak : isBreak c = false := hbreak
    by_cases hquote : c = '\''
    · subst hquote
      have hrest : cursor.rest = '\'' :: '\'' :: after := hrest
      rw [quotedPiece, hrest]
      rfl
    · have hspell : singleQuotes.spell c = [c] := if_neg hquote
      rw [hspell, List.singleton_append] at hrest
      have hnext : blankNext (c :: after) = false := by
        rw [blankNext, hblank, hbreak]
        rfl
      rw [quotedPiece, hrest, hspell, hnext, if_neg Bool.false_ne_true]
      simp only [singleQuotes, if_true]
      split
      · rename_i heq
        exact absurd (List.cons.inj heq).1 hquote
      · rename_i heq
        exact absurd (List.cons.inj heq).1 hquote
      · rename_i heq
        obtain rfl := (List.cons.inj heq).1
        rfl
      · rename_i heq
        cases heq

theorem quotedPiece_escaped {c : Char} {fuel : Nat} {done after : List Char} {cursor : Cursor}
    (hrest : cursor.rest = escaped c ++ after) :
    quotedPiece false (fuel + 1) done cursor =
      quotedPiece false fuel (c :: done) (cursor.skip (escaped c).length) := by
  rcases escaped_cases c with ⟨letter, heq, hsimple, hwidth, hbreak⟩ |
    ⟨mark, width, heq, hwidth, hbreak, hpos, hfits⟩
  · rw [heq] at hrest ⊢
    have hrest : cursor.rest = '\\' :: letter :: after := hrest
    rw [quotedPiece, hrest]
    simp only [hbreak, hwidth, hsimple]
    rfl
  · rw [heq] at hrest ⊢
    have hrest : cursor.rest = '\\' :: mark :: (paddedHex width c.toNat ++ after) := hrest
    have hlength := length_paddedHex hpos hfits
    have htake : (paddedHex width c.toNat ++ after).take width = paddedHex width c.toNat :=
      List.take_left' hlength
    have hskip : ('\\' :: mark :: paddedHex width c.toNat).length = 2 + width := by
      rw [List.length_cons, List.length_cons, hlength, Nat.add_comm 2]
    rw [quotedPiece, hrest]
    simp only [hbreak, hwidth, htake, numberedChar?_paddedHex hpos c hfits, hskip]
    rfl

theorem doubleQuotes_fits (c : Char) : doubleQuotes.Fits c where
  space h := by subst h; exact ⟨rfl, rfl⟩
  feed h := by cases h
  spelled h := by
    have hspace : c ≠ ' ' := of_decide_eq_false (Bool.or_eq_false_iff.mp h).1
    show ∃ d rest, doubleQuotedChar c = d :: rest ∧ (∀ d ∈ doubleQuotedChar c, isBreak d = false) ∧
      isBlank d = false
    rw [doubleQuotedChar]
    split
    · have hbreak := fun d => @isBreak_of_mem_escaped c d
      rcases escaped_cases c with ⟨letter, heq, -⟩ | ⟨mark, width, heq, -⟩
      · exact ⟨'\\', _, heq, hbreak, rfl⟩
      · exact ⟨'\\', _, heq, hbreak, rfl⟩
    · rename_i hnot
      simp only [Bool.or_eq_true, Bool.not_eq_true', not_or, Bool.not_eq_false] at hnot
      obtain ⟨⟨⟨hplain, hbreak⟩, -⟩, -⟩ := hnot
      refine ⟨c, [], rfl, ?_, isBlank_of_isPlainChar hplain hspace⟩
      intro d hd
      exact List.mem_singleton.mp hd ▸ Bool.eq_false_iff.mpr hbreak
  piece h {fuel done cursor after} hrest := by
    have hspace : c ≠ ' ' := of_decide_eq_false (Bool.or_eq_false_iff.mp h).1
    have hrest : cursor.rest = doubleQuotedChar c ++ after := hrest
    show quotedPiece false (fuel + 1) done cursor =
      quotedPiece false fuel (c :: done) (cursor.skip (doubleQuotedChar c).length)
    rw [doubleQuotedChar] at hrest ⊢
    split at hrest
    · rename_i hescape
      rw [if_pos hescape]
      exact quotedPiece_escaped hrest
    · rename_i hnot
      rw [if_neg hnot]
      simp only [Bool.or_eq_true, Bool.not_eq_true', not_or, Bool.not_eq_false,
        decide_eq_true_eq] at hnot
      obtain ⟨⟨⟨hplain, hbreak⟩, hquote⟩, hslash⟩ := hnot
      have hnext : blankNext (c :: after) = false := by
        rw [blankNext, isBlank_of_isPlainChar hplain hspace, Bool.eq_false_iff.mpr hbreak]
        rfl
      have hrest : cursor.rest = c :: after := hrest
      rw [quotedPiece, hrest, hnext, if_neg Bool.false_ne_true]
      simp only [Bool.false_eq_true, if_false]
      split
      · rename_i heq
        exact absurd (List.cons.inj heq).1 hquote
      · rename_i heq
        exact absurd (List.cons.inj heq).1 hslash
      · rename_i heq
        exact absurd (List.cons.inj heq).1 hslash
      · rename_i heq
        obtain rfl := (List.cons.inj heq).1
        rfl
      · rename_i heq
        cases heq

end Dataflow.Yaml
