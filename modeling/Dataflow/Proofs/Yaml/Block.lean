import Dataflow.Proofs.Yaml.Cursor

namespace Dataflow.Yaml

-- How the last line break of a text is kept in a block.
def chompOf (cs : List Char) : Chomp :=
  match cs.reverse with
  | [] => .strip
  | last :: before =>
      if !isBreak last then .strip
      else if before.head?.all isBreak then .keep
      else .clip

-- Texts that begin with a line that is not empty, by how their last line break is kept.
inductive Lines : Chomp → List Char → Prop where
  | stripped {line : List Char} : line ≠ [] → (∀ c ∈ line, isBreak c = false) → Lines .strip line
  | clipped {line : List Char} {b : Char} : line ≠ [] → (∀ c ∈ line, isBreak c = false) →
      isBreak b = true → Lines .clip (line ++ [b])
  | kept {line breaks : List Char} : line ≠ [] → (∀ c ∈ line, isBreak c = false) →
      breaks ≠ [] → (∀ b ∈ breaks, isBreak b = true) → Lines .keep (line ++ breaks)
  | more {chomp : Chomp} {line breaks rest : List Char} : line ≠ [] →
      (∀ c ∈ line, isBreak c = false) → breaks ≠ [] → (∀ b ∈ breaks, isBreak b = true) →
      Lines chomp rest → Lines chomp (line ++ (breaks ++ rest))

theorem Lines.two_le_length {cs : List Char} (h : Lines .keep cs) : 2 ≤ cs.length := by
  cases h with
  | kept hline hsolid hbreaks hall =>
      have hl := List.length_pos_iff.mpr hline
      have hb := List.length_pos_iff.mpr hbreaks
      rw [List.length_append]
      omega
  | more hline hsolid hbreaks hall hrest =>
      have hl := List.length_pos_iff.mpr hline
      have hb := List.length_pos_iff.mpr hbreaks
      rw [List.length_append, List.length_append]
      omega

-- A character that is no line break joins the first line.
theorem Lines.cons {chomp : Chomp} {c : Char} {cs : List Char} (h : Lines chomp cs)
    (hc : isBreak c = false) : Lines chomp (c :: cs) := by
  have hsolid : ∀ {line : List Char}, (∀ c ∈ line, isBreak c = false) →
      ∀ d ∈ c :: line, isBreak d = false := fun h => List.forall_mem_cons.mpr ⟨hc, h⟩
  cases h with
  | stripped hline hall => exact .stripped (List.cons_ne_nil _ _) (hsolid hall)
  | clipped hline hall hb => exact .clipped (List.cons_ne_nil _ _) (hsolid hall) hb
  | kept hline hall hne hbreaks => exact .kept (List.cons_ne_nil _ _) (hsolid hall) hne hbreaks
  | more hline hall hne hbreaks hrest =>
      exact .more (List.cons_ne_nil _ _) (hsolid hall) hne hbreaks hrest

theorem chompOf_cons (c : Char) {cs : List Char} (h : chompOf cs = .keep → 2 ≤ cs.length)
    (hne : cs ≠ []) : chompOf (c :: cs) = chompOf cs := by
  rw [chompOf, chompOf, List.reverse_cons]
  have hlength : cs.reverse.length = cs.length := List.length_reverse
  rw [chompOf] at h
  cases hcs : cs.reverse with
  | nil => exact absurd (List.reverse_eq_nil_iff.mp hcs) hne
  | cons last before =>
      rw [hcs] at h hlength
      cases before with
      | nil =>
          cases hlast : isBreak last with
          | false => simp [hlast]
          | true =>
              have hkeep := h (by simp [hlast])
              rw [← hlength] at hkeep
              exact absurd hkeep (by simp)
      | cons d before => rfl

-- A text is a run of line breaks and, unless that is all, lines.
theorem exists_lines {cs : List Char} (hne : cs ≠ []) :
    ∃ breaks rest, cs = breaks ++ rest ∧ (∀ b ∈ breaks, isBreak b = true) ∧
      (rest = [] ∧ chompOf cs = .keep ∨ Lines (chompOf cs) rest) := by
  induction cs with
  | nil => exact absurd rfl hne
  | cons c cs ih =>
      by_cases hempty : cs = []
      · subst hempty
        cases hc : isBreak c with
        | true =>
            refine ⟨[c], [], rfl, fun b hb => List.mem_singleton.mp hb ▸ hc, .inl ⟨rfl, ?_⟩⟩
            simp [chompOf, hc]
        | false =>
            have hchomp : chompOf [c] = .strip := by simp [chompOf, hc]
            refine ⟨[], [c], rfl, nofun, .inr (hchomp ▸ .stripped (List.cons_ne_nil _ _) ?_)⟩
            exact fun b hb => List.mem_singleton.mp hb ▸ hc
      · obtain ⟨breaks, rest, rfl, hbreaks, hrest⟩ := ih hempty
        have hsingle : ∀ b ∈ [c], isBreak c = false → isBreak b = false :=
          fun b hb hc => List.mem_singleton.mp hb ▸ hc
        rcases hrest with ⟨rfl, hkeep⟩ | hlines
        · rw [List.append_nil] at hempty hkeep ⊢
          match breaks, hempty, hbreaks, hkeep with
          | [b], _, hbreaks, _ =>
              have hb := hbreaks b List.mem_cons_self
              cases hc : isBreak c with
              | true =>
                  refine ⟨[c, b], [], rfl, List.forall_mem_cons.mpr ⟨hc, hbreaks⟩, .inl ⟨rfl, ?_⟩⟩
                  simp [chompOf, hc, hb]
              | false =>
                  have hchomp : chompOf [c, b] = .clip := by simp [chompOf, hc, hb]
                  refine ⟨[], [c, b], rfl, nofun, .inr (hchomp ▸ ?_)⟩
                  exact @Lines.clipped [c] b (List.cons_ne_nil _ _)
                    (fun d hd => hsingle d hd hc) hb
          | b :: d :: breaks, _, hbreaks, hkeep =>
              have hchomp : chompOf (c :: b :: d :: breaks) = .keep := by
                rw [chompOf_cons c (fun _ => by simp) (List.cons_ne_nil _ _), hkeep]
              cases hc : isBreak c with
              | true =>
                  exact ⟨c :: b :: d :: breaks, [], (List.append_nil _).symm,
                    List.forall_mem_cons.mpr ⟨hc, hbreaks⟩, .inl ⟨rfl, hchomp⟩⟩
              | false =>
                  refine ⟨[], _, rfl, nofun, .inr (hchomp ▸ ?_)⟩
                  exact @Lines.kept [c] _ (List.cons_ne_nil _ _) (fun d hd => hsingle d hd hc)
                    (List.cons_ne_nil _ _) hbreaks
        · have hchomp : chompOf (c :: (breaks ++ rest)) = chompOf (breaks ++ rest) := by
            refine chompOf_cons c (fun hkeep => ?_) hempty
            rw [hkeep] at hlines
            rw [List.length_append]
            exact Nat.le_trans hlines.two_le_length (Nat.le_add_left _ _)
          cases hc : isBreak c with
          | true =>
              exact ⟨c :: breaks, rest, rfl, List.forall_mem_cons.mpr ⟨hc, hbreaks⟩,
                .inr (hchomp ▸ hlines)⟩
          | false =>
              refine ⟨[], _, rfl, nofun, .inr (hchomp ▸ ?_)⟩
              by_cases hnone : breaks = []
              · subst hnone
                exact hlines.cons hc
              · exact @Lines.more _ [c] _ _ (List.cons_ne_nil _ _) (fun d hd => hsingle d hd hc) hnone
                  hbreaks hlines

section Scan

variable {margin fuel widest : Nat} {breaks more : List Char} {cursor : Cursor}

def isFeed (c : Char) : Prop :=
  c = '\n' ∨ c = '\u2028' ∨ c = '\u2029'

theorem isFeed.isBreak {c : Char} (h : isFeed c) : isBreak c = true := by
  rcases h with rfl | rfl | rfl <;> rfl

-- Lines without any character, not even a margin.
theorem scanMargin_breaks {feeds : List Char} (hfeeds : ∀ b ∈ feeds, isFeed b)
    (hrest : cursor.rest = feeds ++ more) (hcolumn : cursor.column = 0)
    (hfuel : feeds.length ≤ fuel) :
    scanMargin (some margin) fuel widest breaks cursor =
        scanMargin (some margin) (fuel - feeds.length) widest (feeds.reverse ++ breaks)
          (cursor.past feeds) ∧
      (cursor.past feeds).column = 0 := by
  induction feeds generalizing fuel breaks cursor with
  | nil => exact ⟨rfl, hcolumn⟩
  | cons b feeds ih =>
      obtain ⟨fuel, rfl⟩ : ∃ n, fuel = n + 1 := ⟨fuel - 1, by rw [List.length_cons] at hfuel; omega⟩
      obtain ⟨hb, hall⟩ := List.forall_mem_cons.mp hfeeds
      have hcons : cursor.rest = b :: (feeds ++ more) := hrest
      have hnext : (cursor.nextLine 1).rest = feeds ++ more :=
        Cursor.rest_nextLine hcons
      have hspace : b ≠ ' ' ∧ b ≠ '\t' := by rcases hb with rfl | rfl | rfl <;> decide
      have hblanks : cursor.rest.takeWhile (· = ' ') = [] := by
        rw [hcons, List.takeWhile_cons_of_neg (by simpa using hspace.1)]
      have hstep : scanMargin (some margin) (fuel + 1) widest breaks cursor =
          scanMargin (some margin) fuel widest (b :: breaks) (cursor.nextLine 1) := by
        rw [scanMargin]
        simp only [hblanks, List.length_nil, Nat.zero_min, Cursor.skip_zero, hcolumn, Nat.max_zero]
        simp only [hcons, hspace.2, decide_false, Bool.and_false, Bool.false_eq_true, if_false,
          hb.isBreak, if_true, Cursor.takeBreak_feed hcons hb]
        rfl
      obtain ⟨hscan, hend⟩ := ih hall hnext rfl (Nat.le_of_succ_le_succ hfuel)
      rw [hstep, hscan, Cursor.past, if_pos hb.isBreak, List.length_cons, Nat.add_sub_add_right,
        List.reverse_cons, List.append_assoc]
      exact ⟨rfl, hend⟩

-- The margin of a line that has something on it.
theorem scanMargin_line {c : Char} (hrest : cursor.rest = spaces margin ++ c :: more)
    (hbreak : isBreak c = false) (hcolumn : cursor.column = 0) :
    scanMargin (some margin) (fuel + 1) widest breaks cursor =
      some (max widest margin, breaks, cursor.skip margin) := by
  have htaken : min (cursor.rest.takeWhile (· = ' ')).length (margin - 0) = margin := by
    rw [hrest, List.takeWhile_append_of_pos (by simp [spaces]), List.length_append, spaces,
      List.length_replicate]
    omega
  have hnext : (cursor.skip margin).rest = c :: more := by
    rw [← Cursor.past_spaces, Cursor.rest_past hrest]
  have hend : (cursor.skip margin).column = margin := by
    rw [Cursor.skip, hcolumn, Nat.zero_add]
  rw [scanMargin]
  simp only [hcolumn, htaken, hnext, hend, Option.all_some, Nat.lt_irrefl, decide_false,
    Bool.false_and, Bool.false_eq_true, if_false, hbreak]

-- A line that begins before the margin.
theorem scanMargin_end {count : Nat} (hrest : cursor.rest = spaces count ++ more)
    (hbegins : Begins more) (hcount : count < margin) (hcolumn : cursor.column = 0) :
    scanMargin (some margin) (fuel + 1) widest breaks cursor =
      some (max widest count, breaks, cursor.skip count) := by
  have hnone : more.takeWhile (· = ' ') = [] := by
    cases more with
    | nil => rfl
    | cons c more =>
        have hc : c ≠ ' ' := fun heq => absurd (heq ▸ (hbegins c rfl).1) (by decide)
        rw [List.takeWhile_cons_of_neg (by simpa using hc)]
  have htaken : min (cursor.rest.takeWhile (· = ' ')).length (margin - 0) = count := by
    rw [hrest, List.takeWhile_append_of_pos (by simp [spaces]), hnone, List.length_append, spaces,
      List.length_replicate, List.length_nil]
    omega
  have hnext : (cursor.skip count).rest = more := by
    rw [← Cursor.past_spaces, Cursor.rest_past hrest]
  have hend : (cursor.skip count).column = count := by
    rw [Cursor.skip, hcolumn, Nat.zero_add]
  rw [scanMargin]
  simp only [hcolumn, htaken, hnext, hend]
  cases more with
  | nil => rfl
  | cons c more =>
      obtain ⟨hblank, hbreak, -, -⟩ := hbegins c rfl
      have htab : c ≠ '\t' := fun heq => absurd (heq ▸ hblank) (by decide)
      simp only [htab, decide_false, Bool.and_false, Bool.false_eq_true, if_false, hbreak]

section Written

theorem blockLines_line {line : List Char} (hline : ∀ c ∈ line, isBreak c = false)
    (rest : List Char) :
    blockLines margin false (line ++ rest) = line ++ blockLines margin false rest := by
  induction line with
  | nil => rfl
  | cons c line ih =>
      obtain ⟨hc, hall⟩ := List.forall_mem_cons.mp hline
      rw [List.cons_append, blockLines, hc, ih hall]
      rfl

theorem blockLines_breaks {feeds : List Char} (hfeeds : ∀ b ∈ feeds, isBreak b = true)
    (hne : feeds ≠ []) (afterBreak : Bool) (rest : List Char) :
    blockLines margin afterBreak (feeds ++ rest) = feeds ++ blockLines margin true rest := by
  induction feeds generalizing afterBreak with
  | nil => exact absurd rfl hne
  | cons b feeds ih =>
      obtain ⟨hb, hall⟩ := List.forall_mem_cons.mp hfeeds
      rw [List.cons_append, blockLines, hb, if_pos rfl]
      cases feeds with
      | nil => rfl
      | cons d feeds =>
          rw [ih hall (List.cons_ne_nil _ _)]
          rfl

theorem Lines.exists_cons {chomp : Chomp} {cs : List Char} (h : Lines chomp cs) :
    ∃ c rest, cs = c :: rest ∧ isBreak c = false := by
  have hcons : ∀ {line : List Char} (after : List Char), line ≠ [] →
      (∀ c ∈ line, isBreak c = false) →
      ∃ c rest, line ++ after = c :: rest ∧ isBreak c = false := by
    intro line after hne hall
    cases line with
    | nil => exact absurd rfl hne
    | cons c line => exact ⟨c, line ++ after, rfl, hall c List.mem_cons_self⟩
  cases h with
  | stripped hline hall =>
      have h := hcons [] hline hall
      rwa [List.append_nil] at h
  | clipped hline hall hb => exact hcons _ hline hall
  | kept hline hall hne hbreaks => exact hcons _ hline hall
  | more hline hall hne hbreaks hrest => exact hcons _ hline hall

theorem blockLines_of_lines {chomp : Chomp} {cs : List Char} (h : Lines chomp cs) :
    ∃ c rest, blockLines margin true cs = spaces margin ++ c :: rest ∧
      blockLines margin false cs = c :: rest ∧ isBreak c = false ∧ cs.head? = some c := by
  obtain ⟨c, rest, rfl, hc⟩ := h.exists_cons
  refine ⟨c, blockLines margin false rest, ?_, ?_, hc, rfl⟩
  · rw [blockLines, hc]
    rfl
  · rw [blockLines, hc]
    rfl

end Written

-- What is kept of the line breaks at the end, last first.
def Chomp.kept (chomp : Chomp) (mark breaks : List Char) : List Char :=
  match chomp with
  | .strip => []
  | .clip => mark
  | .keep => breaks ++ mark

section Loop

variable {chomp : Chomp} {done mark : List Char} {indented : Bool} {line : List Char} {b : Char}

theorem scanLines_stop (h : cursor.column ≠ margin) :
    scanLines true chomp margin (fuel + 1) done mark indented breaks cursor =
      some ((chomp.kept mark breaks ++ done).reverse, cursor) := by
  rw [scanLines.eq_def]
  simp only [h, false_and, if_false]
  cases chomp <;> rfl

-- One line with its break, and what the next one begins with.
theorem scanLines_step (hline : ∀ c ∈ line, isBreak c = false) (hb : isFeed b)
    (hrest : cursor.rest = line ++ b :: more) (hcolumn : cursor.column = margin)
    {found : Nat} {breaks' : List Char} {next : Cursor}
    (hscan : scanMargin (some margin) (fuel + 1) 0 [] ((cursor.skip line.length).nextLine 1) =
      some (found, breaks', next)) :
    ∃ indented', scanLines true chomp margin (fuel + 1) done mark indented breaks cursor =
      scanLines true chomp margin fuel (line.reverse ++ breaks ++ mark ++ done) [b] indented'
        breaks' next := by
  refine ⟨cursor.rest.head?.any isBlank, ?_⟩
  have hend : cursor.atEnd = false := by
    rw [Cursor.atEnd, hrest]
    cases line <;> rfl
  have htaken : cursor.rest.takeWhile (fun c => !isBreak c) = line := by
    rw [hrest, List.takeWhile_append_of_pos fun c hc => by rw [hline c hc]; rfl,
      List.takeWhile_cons_of_neg (by rw [hb.isBreak]; decide), List.append_nil]
  have hnext := Cursor.rest_skip_append hrest
  rw [scanLines.eq_def]
  simp only [hcolumn, hend, Bool.not_false, and_self, if_true, htaken,
    Cursor.takeBreak_feed hnext hb, hscan, Bool.not_true, Bool.false_and, Bool.false_eq_true,
    if_false]

-- Line breaks without anything else are passed over.
theorem scanMargin_feeds {feeds tail : List Char} (hfeeds : ∀ b ∈ feeds, isFeed b)
    (hrest : cursor.rest = feeds ++ tail) (hcolumn : cursor.column = 0)
    (hfuel : cursor.rest.length < fuel) :
    ∃ left here, here.rest = tail ∧ here.column = 0 ∧ cursor.line ≤ here.line ∧
      scanMargin (some margin) fuel 0 [] cursor =
        scanMargin (some margin) (left + 1) 0 feeds.reverse here := by
  have hlength : feeds.length < fuel := by
    rw [hrest, List.length_append] at hfuel
    omega
  obtain ⟨hscan, hzero⟩ := @scanMargin_breaks margin fuel 0 [] _ _ feeds hfeeds hrest hcolumn
    (Nat.le_of_lt hlength)
  obtain ⟨left, hleft⟩ : ∃ n, fuel - feeds.length = n + 1 := ⟨fuel - feeds.length - 1, by omega⟩
  rw [hleft, List.append_nil] at hscan
  exact ⟨left, _, Cursor.rest_past hrest, hzero, Cursor.line_le_past feeds, hscan⟩

-- So are those behind a line and its break.
theorem scanMargin_after {feeds tail : List Char} (hfeeds : ∀ b ∈ feeds, isFeed b)
    (hrest : cursor.rest = line ++ b :: (feeds ++ tail)) (hfuel : cursor.rest.length < fuel) :
    ∃ left here, here.rest = tail ∧ here.column = 0 ∧ cursor.line < here.line ∧
      scanMargin (some margin) fuel 0 [] ((cursor.skip line.length).nextLine 1) =
        scanMargin (some margin) (left + 1) 0 feeds.reverse here := by
  have hnext : ((cursor.skip line.length).nextLine 1).rest = feeds ++ tail :=
    Cursor.rest_nextLine (Cursor.rest_skip_append hrest)
  refine scanMargin_feeds hfeeds hnext rfl ?_
  rw [hnext]
  rw [hrest, List.length_append, List.length_cons] at hfuel
  omega

-- The last line with the breaks after it.
theorem scanLines_last (chomp : Chomp) (done mark : List Char) (indented : Bool)
    (breaks : List Char) (hline : ∀ c ∈ line, isBreak c = false) (hb : isFeed b)
    {feeds rest : List Char} {count : Nat} (hfeeds : ∀ b ∈ feeds, isFeed b)
    (hrest : cursor.rest = line ++ b :: (feeds ++ (spaces count ++ rest)))
    (hcolumn : cursor.column = margin) (hbegins : Begins rest) (hcount : count < margin)
    (hfuel : cursor.rest.length < fuel) :
    ∃ stop, scanLines true chomp margin fuel done mark indented breaks cursor =
        some (done.reverse ++ mark.reverse ++ breaks.reverse ++ line ++
          (chomp.kept [b] feeds.reverse).reverse, stop) ∧
      stop.rest = rest ∧ stop.column = count ∧ cursor.line < stop.line := by
  obtain ⟨left, here, hhere, hzero, hlater, hscan⟩ :=
    @scanMargin_after margin fuel _ line b feeds _ hfeeds hrest hfuel
  have hlength := congrArg List.length hrest
  simp only [List.length_append, List.length_cons] at hlength
  obtain ⟨fuel, rfl⟩ : ∃ n, fuel = n + 1 + 1 := ⟨fuel - 2, by omega⟩
  rw [scanMargin_end hhere hbegins hcount hzero] at hscan
  obtain ⟨indented', hstep⟩ : ∃ indented', scanLines true chomp margin (fuel + 1 + 1) done mark
      indented breaks cursor = scanLines true chomp margin (fuel + 1)
        (line.reverse ++ breaks ++ mark ++ done) [b] indented' feeds.reverse (here.skip count) :=
    scanLines_step hline hb hrest hcolumn hscan
  have hstop : (here.skip count).column ≠ margin := by
    rw [Cursor.skip, hzero, Nat.zero_add]
    exact Nat.ne_of_lt hcount
  refine ⟨here.skip count, ?_, ?_, ?_, hlater⟩
  · rw [hstep, scanLines_stop hstop]
    simp only [List.reverse_append, List.reverse_reverse, List.append_assoc]
  · rw [← Cursor.past_spaces]
    exact Cursor.rest_past hhere
  · rw [Cursor.skip, hzero, Nat.zero_add]

-- All lines of a block, with the end of the last one where the text has none.
theorem scanLines_lines {cs rest : List Char} {count : Nat} (h : Lines chomp cs)
    (hfeeds : ∀ c ∈ cs, isBreak c = true → isFeed c)
    (hrest : cursor.rest = blockLines margin false cs ++
      ((if chomp = .strip then ['\n'] else []) ++ (spaces count ++ rest)))
    (hcolumn : cursor.column = margin) (hbegins : Begins rest) (hcount : count < margin)
    (hfuel : cursor.rest.length < fuel) :
    ∃ stop, scanLines true chomp margin fuel done mark indented breaks cursor =
        some (done.reverse ++ mark.reverse ++ breaks.reverse ++ cs, stop) ∧
      stop.rest = rest ∧ stop.column = count ∧ cursor.line < stop.line := by
  induction h generalizing fuel done mark indented breaks cursor with
  | @stripped line hne hline =>
      have hrest' : cursor.rest = line ++ '\n' :: ([] ++ (spaces count ++ rest)) := by
        have hwritten := @blockLines_line margin line hline []
        rw [List.append_nil] at hwritten
        rw [hrest, hwritten, if_pos rfl, blockLines, List.append_nil]
        rfl
      obtain ⟨stop, hscan, hstop⟩ := scanLines_last .strip done mark indented breaks hline (.inl rfl)
        (List.forall_mem_nil _) hrest' hcolumn hbegins hcount hfuel
      refine ⟨stop, ?_, hstop⟩
      rw [hscan, Chomp.kept, List.reverse_nil, List.append_nil]
  | @clipped line b hne hline hb =>
      have hfeed := hfeeds b (by simp) hb
      have hrest' : cursor.rest = line ++ b :: ([] ++ (spaces count ++ rest)) := by
        rw [hrest, blockLines_line hline, blockLines, if_pos hb, if_neg nofun, blockLines,
          List.append_assoc]
        rfl
      obtain ⟨stop, hscan, hstop⟩ := scanLines_last .clip done mark indented breaks hline hfeed
        (List.forall_mem_nil _) hrest' hcolumn hbegins hcount hfuel
      refine ⟨stop, ?_, hstop⟩
      rw [hscan, Chomp.kept, List.reverse_singleton, List.append_assoc _ line]
  | @kept line breaks' hne hline hsome hall =>
      cases breaks' with
      | nil => exact absurd rfl hsome
      | cons b feeds =>
          have hbreaks : ∀ b' ∈ b :: feeds, isFeed b' := fun b' hmem =>
            hfeeds b' (List.mem_append_right line hmem) (hall b' hmem)
          obtain ⟨hb, hrestFeeds⟩ := List.forall_mem_cons.mp hbreaks
          have hrest' : cursor.rest = line ++ b :: (feeds ++ (spaces count ++ rest)) := by
            have hwritten := @blockLines_breaks margin (b :: feeds) hall hsome false []
            rw [List.append_nil, blockLines, List.append_nil] at hwritten
            rw [hrest, blockLines_line hline, hwritten, if_neg nofun, List.append_assoc]
            rfl
          obtain ⟨stop, hscan, hstop⟩ := scanLines_last .keep done mark indented breaks hline hb
            hrestFeeds hrest' hcolumn hbegins hcount hfuel
          refine ⟨stop, ?_, hstop⟩
          rw [hscan, Chomp.kept, List.reverse_append, List.reverse_reverse, List.append_assoc _ line]
          rfl
  | @more chomp line breaks' rest' hne hline hsome hall hlines ih =>
      cases breaks' with
      | nil => exact absurd rfl hsome
      | cons b feeds =>
          have hbreaks : ∀ b' ∈ b :: feeds, isFeed b' := fun b' hmem =>
            hfeeds b' (List.mem_append_right line (List.mem_append_left rest' hmem)) (hall b' hmem)
          obtain ⟨hb, hrestFeeds⟩ := List.forall_mem_cons.mp hbreaks
          obtain ⟨c, written, hmargin, hline', hc, -⟩ := @blockLines_of_lines margin chomp rest' hlines
          have hrest' : cursor.rest = line ++ b :: (feeds ++ (spaces margin ++ c :: (written ++
              ((if chomp = .strip then ['\n'] else []) ++ (spaces count ++ rest))))) := by
            rw [hrest, blockLines_line hline, blockLines_breaks hall hsome, hmargin]
            simp only [List.append_assoc, List.cons_append]
          obtain ⟨left, here, hhere, hzero, hlater, hscan⟩ :=
            @scanMargin_after margin fuel _ line b feeds _ hrestFeeds hrest' hfuel
          have hlength := congrArg List.length hrest'
          simp only [List.length_append, List.length_cons] at hlength
          obtain ⟨fuel, rfl⟩ : ∃ n, fuel = n + 1 := ⟨fuel - 1, by omega⟩
          rw [scanMargin_line hhere hc hzero] at hscan
          obtain ⟨indented', hstep⟩ : ∃ indented', scanLines true chomp margin (fuel + 1) done mark
              indented breaks cursor = scanLines true chomp margin fuel
                (line.reverse ++ breaks ++ mark ++ done) [b] indented' feeds.reverse
                (here.skip margin) := scanLines_step hline hb hrest' hcolumn hscan
          have hthere : (here.skip margin).rest = blockLines margin false rest' ++
              ((if chomp = .strip then ['\n'] else []) ++ (spaces count ++ rest)) := by
            rw [← Cursor.past_spaces, Cursor.rest_past hhere, hline', List.cons_append]
          have hcolumn' : (here.skip margin).column = margin := by
            rw [Cursor.skip, hzero, Nat.zero_add]
          have hshorter : (here.skip margin).rest.length < fuel := by
            rw [hthere, hline']
            simp only [List.length_append, List.length_cons]
            omega
          obtain ⟨stop, hscan, hstopRest, hstopColumn, hstopLine⟩ := @ih fuel feeds.reverse _
            (line.reverse ++ breaks ++ mark ++ done) [b] indented'
            (fun d hd => hfeeds d (List.mem_append_right line (List.mem_append_right _ hd)))
            hthere hcolumn' hshorter
          refine ⟨stop, ?_, hstopRest, hstopColumn, Nat.lt_trans hlater hstopLine⟩
          rw [hstep, hscan]
          simp only [List.reverse_append, List.reverse_reverse, List.append_assoc,
            List.reverse_singleton, List.cons_append, List.nil_append]

end Loop

end Scan

section Block

-- Whether the first line of a text hides the indentation.
def hidesIndent (cs : List Char) : Bool :=
  cs.head?.any fun c => c = ' ' || isBreak c

def Chomp.sign : Chomp → List Char
  | .strip => ['-']
  | .clip => []
  | .keep => ['+']

theorem blockHints_eq (cs : List Char) :
    (blockHints cs).toList = (if hidesIndent cs then ['2'] else []) ++ (chompOf cs).sign := by
  have hdigit : (if (cs.head?.any fun c => c = ' ' || isBreak c) then "2" else "" : String).toList =
      if hidesIndent cs then ['2'] else [] := by
    rw [← hidesIndent]
    cases hidesIndent cs <;> rfl
  simp only [blockHints, chompOf]
  generalize (if (cs.head?.any fun c => c = ' ' || isBreak c) then "2" else "" : String) = digit
    at hdigit ⊢
  rw [← hdigit]
  cases cs.reverse with
  | nil => exact String.toList_append
  | cons last before =>
      cases hlast : isBreak last with
      | false =>
          simp only [hlast, Bool.not_false, if_true, String.toList_append]
          rfl
      | true =>
          cases hbefore : before.head?.all isBreak with
          | false =>
              simp only [hlast, hbefore, Bool.not_true, Bool.false_eq_true, if_false]
              exact (List.append_nil _).symm
          | true =>
              simp only [hlast, hbefore, Bool.not_true, Bool.false_eq_true, if_false, if_true,
                String.toList_append]
              rfl

variable {cs more : List Char} {cursor : Cursor} {margin : Nat}

theorem scanBlockHeader_hints (hrest : cursor.rest = (blockHints cs).toList ++ '\n' :: more) :
    ∃ next, scanBlockHeader cursor =
        some (chompOf cs, if hidesIndent cs then some 2 else none, next) ∧
      next.rest = '\n' :: more ∧ next.line = cursor.line := by
  rw [blockHints_eq] at hrest
  refine ⟨cursor.skip ((if hidesIndent cs then ['2'] else []) ++ (chompOf cs).sign).length, ?_,
    Cursor.rest_skip_append hrest, rfl⟩
  rw [scanBlockHeader, hrest]
  cases hidesIndent cs <;> cases chompOf cs <;> rfl

theorem endLine?_feed (hrest : cursor.rest = '\n' :: more) :
    cursor.endLine? = some (cursor.nextLine 1) := by
  have hblanks : cursor.skipWhile isBlank = cursor := by
    rw [Cursor.skipWhile, hrest]
    rfl
  have hcomment : cursor.skipComment = cursor := by
    rw [Cursor.skipComment, hrest]
    rfl
  have hnext : breakNext cursor.rest = true := by
    rw [hrest]
    rfl
  rw [Cursor.endLine?, hblanks, hcomment, Cursor.takeBreak_feed hrest (.inl rfl)]
  exact if_pos hnext

-- The margin of the first line where it shows the indentation.
theorem scanMargin_first {fuel : Nat} {c : Char} (hrest : cursor.rest = spaces margin ++ c :: more)
    (hblank : isBlank c = false) (hbreak : isBreak c = false) (hcolumn : cursor.column = 0) :
    scanMargin none (fuel + 1) 0 [] cursor = some (margin, [], cursor.skip margin) := by
  have hspace : c ≠ ' ' := fun heq => absurd (heq ▸ hblank) (by decide)
  have htab : c ≠ '\t' := fun heq => absurd (heq ▸ hblank) (by decide)
  have htaken : (cursor.rest.takeWhile (· = ' ')).length = margin := by
    rw [hrest, List.takeWhile_append_of_pos (by simp [spaces]),
      List.takeWhile_cons_of_neg (by simpa using hspace), List.append_nil, spaces,
      List.length_replicate]
  have hnext : (cursor.skip margin).rest = c :: more := by
    rw [← Cursor.past_spaces, Cursor.rest_past hrest]
  have hend : (cursor.skip margin).column = margin := by
    rw [Cursor.skip, hcolumn, Nat.zero_add]
  rw [scanMargin]
  simp only [htaken, hnext, hend, htab, decide_false, Bool.and_false, Bool.false_eq_true, if_false,
    hbreak, Nat.zero_max]

theorem lineEnd_eq (hne : cs ≠ []) :
    lineEnd .literal cs = if chompOf cs = .strip then ['\n'] else [] := by
  have hlast : cs.getLast? = cs.reverse.head? := List.head?_reverse.symm
  rw [lineEnd, hlast, chompOf]
  cases hcs : cs.reverse with
  | nil => exact absurd (List.reverse_eq_nil_iff.mp hcs) hne
  | cons last before =>
      cases hbreak : isBreak last with
      | false => simp [hbreak]
      | true =>
          simp only [List.head?_cons, Option.all_some, hbreak, if_true, Bool.not_true,
            Bool.false_eq_true, if_false]
          cases before.head?.all isBreak <;> rfl

-- A text that shows its indentation begins with a line that does not begin with a blank.
theorem lines_of_shown {breaks lines : List Char} (hbreaks : ∀ b ∈ breaks, isBreak b = true)
    (hne : breaks ++ lines ≠ []) (hshown : hidesIndent (breaks ++ lines) = false)
    (hlines : lines = [] ∧ chompOf (breaks ++ lines) = .keep ∨
      Lines (chompOf (breaks ++ lines)) lines) :
    breaks = [] ∧ Lines (chompOf lines) lines := by
  cases breaks with
  | cons b breaks => simp [hidesIndent, hbreaks b List.mem_cons_self] at hshown
  | nil => exact ⟨rfl, hlines.resolve_left fun hnone => hne hnone.1⟩

theorem scanMargin_shown {chomp : Chomp} (hlines : Lines chomp cs) (hchars : ∀ c ∈ cs, c ≠ '\t')
    (hshown : hidesIndent cs = false) (hrest : cursor.rest = blockLines margin true cs ++ more)
    (hcolumn : cursor.column = 0) (fuel : Nat) :
    scanMargin none (fuel + 1) 0 [] cursor = some (margin, [], cursor.skip margin) ∧
      (cursor.skip margin).rest = blockLines margin false cs ++ more := by
  obtain ⟨c, written, hmargin, hline, hc, hhead⟩ := @blockLines_of_lines margin _ _ hlines
  have hspace : c ≠ ' ' := by
    rintro rfl
    simp [hidesIndent, hhead] at hshown
  have htab : c ≠ '\t' := hchars c (List.mem_of_mem_head? hhead)
  rw [hmargin, List.append_assoc] at hrest
  refine ⟨scanMargin_first hrest (by simp [isBlank, hspace, htab]) hc hcolumn, ?_⟩
  rw [← Cursor.past_spaces, Cursor.rest_past hrest, hline]

-- The lines of a block are read back once the margin of the first one is known.
theorem scanLines_first {chomp : Chomp} {breaks lines rest : List Char} {count : Nat}
    (hlines : Lines chomp lines) (hfeeds : ∀ c ∈ lines, isBreak c = true → isFeed c)
    (hrest : cursor.rest = blockLines margin false lines ++
      ((if chomp = .strip then ['\n'] else []) ++ (spaces count ++ rest)))
    (hcolumn : cursor.column = margin) (hbegins : Begins rest) (hcount : count < margin) :
    ∃ stop, scanLines true chomp margin (cursor.rest.length + 1) [] [] false breaks.reverse cursor =
        some (breaks ++ lines, stop) ∧ stop.rest = rest ∧ stop.column = count ∧
      cursor.line < stop.line := by
  obtain ⟨stop, hscan, hstop⟩ := @scanLines_lines margin (cursor.rest.length + 1) breaks.reverse
    cursor _ [] [] false _ _ _ hlines hfeeds hrest hcolumn hbegins hcount (Nat.lt_succ_self _)
  refine ⟨stop, ?_, hstop⟩
  rw [hscan, List.reverse_reverse]
  rfl

-- A block scalar is read back.
theorem scanBlock_literal (hne : cs ≠ []) (hchars : ∀ c ∈ cs, c ≠ '\t')
    (hfeeds : ∀ c ∈ cs, isBreak c = true → isFeed c) {count : Nat} {rest : List Char}
    (hrest : cursor.rest = (blockHints cs).toList ++ '\n' :: (blockLines (margin + 2) true cs ++
      (lineEnd .literal cs ++ (spaces count ++ rest))))
    (hbegins : Begins rest) (hcount : count ≤ margin) :
    ∃ stop, scanBlock true (some margin) cursor = some (cs, stop) ∧ stop.rest = rest ∧
      stop.column = count ∧ cursor.line < stop.line := by
  obtain ⟨header, hheader, hheaderRest, hheaderLine⟩ := scanBlockHeader_hints hrest
  have hnext := Cursor.rest_nextLine hheaderRest
  rw [lineEnd_eq hne] at hnext
  rw [scanBlock, hheader]
  simp only [Option.bind_eq_bind, Option.bind_some, endLine?_feed hheaderRest]
  obtain ⟨breaks, lines, rfl, hbreaks, hlines⟩ := exists_lines hne
  have hlineFeeds : ∀ c ∈ lines, isBreak c = true → isFeed c :=
    fun c hc => hfeeds c (List.mem_append_right breaks hc)
  have hlater : cursor.line < (header.nextLine 1).line := hheaderLine ▸ Nat.lt_succ_self _
  cases hhides : hidesIndent (breaks ++ lines) with
  | false =>
      obtain ⟨rfl, hall⟩ := lines_of_shown hbreaks hne hhides hlines
      obtain ⟨hscan, hthere⟩ := scanMargin_shown hall hchars hhides hnext rfl
        (header.nextLine 1).rest.length
      have hindent : max (max (margin + 2) (margin + 1)) 1 = margin + 2 := by omega
      simp only [List.nil_append, Bool.false_eq_true, if_false, Option.map_none, hscan,
        Option.bind_some, Option.getD_none, Option.map_some, Option.getD_some, hindent]
      obtain ⟨stop, hstop, hstopRest, hstopColumn, hstopLine⟩ := @scanLines_first _ _ _ [] _ _ _
        hall hlineFeeds hthere (Nat.zero_add _) hbegins (by omega)
      exact ⟨stop, hstop, hstopRest, hstopColumn, Nat.lt_trans hlater hstopLine⟩
  | true =>
      have hwritten : blockLines (margin + 2) true (breaks ++ lines) =
          breaks ++ blockLines (margin + 2) true lines := by
        by_cases hnone : breaks = []
        · subst hnone
          rfl
        · exact blockLines_breaks hbreaks hnone true lines
      rw [hwritten, List.append_assoc] at hnext
      obtain ⟨left, here, hhere, hzero, hbefore, hscan⟩ := @scanMargin_feeds (margin + 2) _ _ breaks _
        (fun b hb => hfeeds b (List.mem_append_left lines hb) (hbreaks b hb)) hnext rfl
        (Nat.lt_succ_self _)
      simp only [if_true, Option.map_some, Option.getD_some, hscan]
      rcases hlines with ⟨rfl, hkeep⟩ | hlines
      · rw [blockLines, List.nil_append, hkeep, if_neg Chomp.noConfusion, List.nil_append] at hhere
        have hstop : (here.skip count).column ≠ margin + 2 := by
          rw [Cursor.skip, hzero, Nat.zero_add]
          show count ≠ margin + 2
          omega
        rw [scanMargin_end hhere hbegins (by omega) hzero, hkeep]
        simp only [Option.bind_some, scanLines_stop hstop, Chomp.kept, List.append_nil,
          List.reverse_reverse]
        refine ⟨_, rfl, ?_, ?_, Nat.lt_of_lt_of_le hlater hbefore⟩
        · rw [← Cursor.past_spaces]
          exact Cursor.rest_past hhere
        · rw [Cursor.skip, hzero, Nat.zero_add]
      · obtain ⟨c, written, hmargin, hsolid, hc, -⟩ := @blockLines_of_lines (margin + 2) _ _ hlines
        rw [hmargin, List.append_assoc] at hhere
        rw [scanMargin_line hhere hc hzero]
        have hthere := Cursor.rest_past hhere
        rw [← hsolid, Cursor.past_spaces] at hthere
        obtain ⟨stop, hstop, hstopRest, hstopColumn, hstopLine⟩ := @scanLines_first _ _ _ breaks _ _ _
          hlines hlineFeeds hthere (by rw [Cursor.skip, hzero, Nat.zero_add]) hbegins (by omega)
        exact ⟨stop, hstop, hstopRest, hstopColumn,
          Nat.lt_trans (Nat.lt_of_lt_of_le hlater hbefore) hstopLine⟩

end Block

end Dataflow.Yaml
