import Dataflow.Proofs.Yaml.Cursor
import Dataflow.Yaml.Token

namespace Dataflow.Yaml

namespace Scan

section Skip

variable {scan : Scan} {rest : List Char} {count : Nat}

-- To the next token of the line.
theorem skipToToken_spaces (hrest : scan.cursor.rest = spaces count ++ rest) (h : Begins rest)
    (fuel : Nat) : skipToToken (fuel + 1) scan = { scan with cursor := scan.cursor.skip count } := by
  have hmark : ¬(scan.cursor.column = 0 ∧ scan.cursor.rest.head? = some '\ufeff') := by
    rw [hrest]
    rintro ⟨-, hhead⟩
    cases count with
    | zero => exact (h '\ufeff' hhead).2.2.2 rfl
    | succ count => cases hhead
  have hblanks : ∀ tabs : Bool, scan.cursor.skipWhile (fun c => c = ' ' || (tabs && c = '\t')) =
      scan.cursor.skip count := by
    intro tabs
    have hnone : rest.takeWhile (fun c => c = ' ' || (tabs && c = '\t')) = [] := by
      cases rest with
      | nil => rfl
      | cons c rest =>
          have hblank := (h c rfl).1
          rw [isBlank, Bool.or_eq_false_iff] at hblank
          rw [List.takeWhile_cons_of_neg (by rw [hblank.1, hblank.2, Bool.and_false]; decide)]
    rw [Cursor.skipWhile, hrest, List.takeWhile_append_of_pos (by simp [spaces]), hnone,
      List.append_nil, spaces, List.length_replicate]
  have hnext : (scan.cursor.skip count).rest = rest := by
    rw [← Cursor.past_spaces, Cursor.rest_past hrest]
  have hcomment : (scan.cursor.skip count).skipComment = scan.cursor.skip count := by
    rw [Cursor.skipComment, hnext]
    split
    · exact absurd rfl (h '#' rfl).2.2.1
    · rfl
  have hstop : (!(scan.cursor.skip count).atEnd && breakNext (scan.cursor.skip count).rest) =
      false := by
    rw [Cursor.atEnd, hnext]
    cases rest with
    | nil => rfl
    | cons c rest =>
        rw [breakNext, (h c rfl).2.1]
        rfl
  rw [skipToToken]
  simp only [if_neg hmark, hblanks, hcomment, hstop, Bool.false_eq_true, if_false]

-- To the first token of the next line.
theorem skipToToken_line (hrest : scan.cursor.rest = '\n' :: (spaces count ++ rest))
    (h : Begins rest) (hflow : scan.outer = []) (fuel : Nat) :
    skipToToken (fuel + 2) scan =
      { scan with
        cursor := ⟨rest, scan.cursor.index + (1 + count), scan.cursor.line + 1, count⟩
        keyAllowed := true } := by
  have hmark : ¬(scan.cursor.column = 0 ∧ scan.cursor.rest.head? = some '\ufeff') := by
    rw [hrest]
    rintro ⟨-, hhead⟩
    cases hhead
  have hblanks : ∀ tabs : Bool, scan.cursor.skipWhile (fun c => c = ' ' || (tabs && c = '\t')) =
      scan.cursor := by
    intro tabs
    rw [Cursor.skipWhile, hrest, List.takeWhile_cons_of_neg (by cases tabs <;> decide)]
    rfl
  have hcomment : scan.cursor.skipComment = scan.cursor := by
    rw [Cursor.skipComment, hrest]
    rfl
  have hgo : (!scan.cursor.atEnd && breakNext scan.cursor.rest) = true := by
    rw [Cursor.atEnd, hrest]
    rfl
  have hnext : (scan.cursor.nextLine 1).rest = spaces count ++ rest :=
    Cursor.rest_nextLine hrest
  have hskip : (scan.cursor.nextLine 1).skip count =
      ⟨rest, scan.cursor.index + (1 + count), scan.cursor.line + 1, count⟩ := by
    rw [Cursor.skip, hnext, spaces, List.drop_left' List.length_replicate]
    simp only [Cursor.nextLine, Nat.zero_add, Nat.add_assoc]
  rw [skipToToken]
  simp only [if_neg hmark, hblanks, hcomment, hgo, if_true, inFlow, hflow, List.isEmpty_nil,
    Bool.not_true, Bool.not_false, Bool.true_or, Cursor.takeBreak_feed hrest (.inl rfl)]
  rw [skipToToken_spaces (by exact hnext) h, ← hskip]

end Skip

-- The state in which no token found so far may still become a key.
def settled (indents : List Nat) (tokens : List Token) (keyAllowed : Bool) (cursor : Cursor) :
    Scan :=
  ⟨cursor, tokens, tokens.length, indents, keyAllowed, none, []⟩

-- A scan finds these tokens in the end.
def Yields (scan : Scan) (found : List Token) : Prop :=
  ∀ fuel, scan.cursor.rest.length < fuel → run fuel scan = some found

variable {indents : List Nat} {tokens found : List Token} {keyAllowed : Bool} {cursor : Cursor}
  {rest : List Char}

-- A scan goes on as it does from where the next token begins.
theorem yields_of_skip {scan landed : Scan} (h : Begins landed.cursor.rest)
    (hlength : landed.cursor.rest.length ≤ scan.cursor.rest.length)
    (hskip : ∀ fuel, scan.cursor.rest.length ≤ fuel →
      (skipToToken (fuel + 1) scan).expireKeys = some landed)
    (hexpired : landed.expireKeys = some landed) (hyields : landed.Yields found) :
    scan.Yields found := by
  intro fuel hfuel
  obtain ⟨fuel, rfl⟩ : ∃ n, fuel = n + 1 := ⟨fuel - 1, by omega⟩
  have hsame : skipToToken (fuel + 1) landed = landed := by
    exact @skipToToken_spaces landed _ 0 rfl h fuel
  have hrun := hyields (fuel + 1) (by omega)
  rw [run, hsame, hexpired] at hrun
  rw [run, hskip fuel (by omega)]
  exact hrun

-- A key that no colon can reach any more.
def Forgotten (cursor : Cursor) (pending : Option PendingKey) : Prop :=
  ∀ key ∈ pending, key.required = false ∧ key.at_.line < cursor.line

theorem expire_of_forgotten {pending : Option PendingKey} (h : Forgotten cursor pending) :
    expire cursor pending = some none := by
  cases pending with
  | none => rfl
  | some key =>
      obtain ⟨hrequired, hline⟩ := h key rfl
      have hstale : isStale cursor key = true := by
        rw [isStale, decide_eq_true hline, Bool.true_or]
      rw [expire, hstale, hrequired]
      rfl

-- What was a key no longer is one, where the scan stands before the next token.
theorem yields_of_forgotten {pending : Option PendingKey} (h : Begins cursor.rest)
    (hpending : Forgotten cursor pending)
    (hyields : (settled indents tokens keyAllowed cursor).Yields found) :
    Yields ⟨cursor, tokens, tokens.length, indents, keyAllowed, pending, []⟩ found := by
  refine @yields_of_skip found _ (settled indents tokens keyAllowed cursor) h (Nat.le_refl _)
    (fun fuel _ => ?_) rfl hyields
  have hskip := @skipToToken_spaces ⟨cursor, tokens, tokens.length, indents, keyAllowed, pending, []⟩
    _ 0 rfl h fuel
  rw [hskip, expireKeys]
  simp only [Cursor.skip_zero, expire_of_forgotten hpending]
  rfl

-- The next token stands on the same line.
theorem yields_of_spaces {count : Nat} (hrest : cursor.rest = spaces count ++ rest)
    (h : Begins rest)
    (hyields : (settled indents tokens keyAllowed (cursor.skip count)).Yields found) :
    (settled indents tokens keyAllowed cursor).Yields found := by
  have hnext : (cursor.skip count).rest = rest := by
    rw [← Cursor.past_spaces, Cursor.rest_past hrest]
  refine yields_of_skip (by exact hnext ▸ h) ?_ (fun fuel _ => ?_) rfl hyields
  · show (cursor.skip count).rest.length ≤ cursor.rest.length
    rw [Cursor.skip, List.length_drop]
    exact Nat.sub_le _ _
  · rw [skipToToken_spaces hrest h]
    rfl

-- The next token stands on the next line.
theorem yields_of_line {pending : Option PendingKey} {count : Nat}
    (hrest : cursor.rest = '\n' :: (spaces count ++ rest)) (h : Begins rest)
    (hpending : ∀ key ∈ pending, key.required = false ∧ key.at_.line ≤ cursor.line)
    (hyields : (settled indents tokens true
      ⟨rest, cursor.index + (1 + count), cursor.line + 1, count⟩).Yields found) :
    Yields ⟨cursor, tokens, tokens.length, indents, keyAllowed, pending, []⟩ found := by
  have hlength : cursor.rest.length = count + rest.length + 1 := by
    rw [hrest, List.length_cons, List.length_append, spaces, List.length_replicate]
  refine yields_of_skip h ?_ (fun fuel hfuel => ?_) rfl hyields
  · show rest.length ≤ cursor.rest.length
    omega
  · have hfuel : cursor.rest.length ≤ fuel := hfuel
    obtain ⟨fuel, rfl⟩ : ∃ n, fuel = n + 1 := ⟨fuel - 1, by omega⟩
    have hforgotten : Forgotten ⟨rest, cursor.index + (1 + count), cursor.line + 1, count⟩ pending :=
      fun key hkey => ⟨(hpending key hkey).1, Nat.lt_succ_of_le (hpending key hkey).2⟩
    rw [skipToToken_line hrest h rfl, expireKeys]
    simp only [expire_of_forgotten hforgotten]
    rfl

-- A block that the next token stands before is over.
theorem yields_of_blockEnd {indent : Nat} (h : Begins cursor.rest) (hindent : cursor.column < indent)
    (hyields : (settled indents (.blockEnd :: tokens) keyAllowed cursor).Yields found) :
    (settled (indent :: indents) tokens keyAllowed cursor).Yields found := by
  intro fuel hfuel
  obtain ⟨fuel, rfl⟩ : ∃ n, fuel = n + 1 := ⟨fuel - 1, by omega⟩
  have hrun := hyields (fuel + 1) hfuel
  have hsame : ∀ indents tokens, skipToToken (fuel + 1) (settled indents tokens keyAllowed cursor) =
      settled indents tokens keyAllowed cursor :=
    fun indents tokens => @skipToToken_spaces (settled indents tokens keyAllowed cursor) _ 0 rfl h fuel
  have hclose : (settled (indent :: indents) tokens keyAllowed cursor).closeBlocks
      (some cursor.column) =
      (settled indents (.blockEnd :: tokens) keyAllowed cursor).closeBlocks (some cursor.column) := by
    have htaken : (indent :: indents).takeWhile (fun indent => (some cursor.column).all (· < indent)) =
        indent :: indents.takeWhile (fun indent => (some cursor.column).all (· < indent)) :=
      List.takeWhile_cons_of_pos (by simpa using hindent)
    simp only [closeBlocks, inFlow, settled, List.isEmpty_nil, Bool.not_true, Bool.false_eq_true,
      if_false, htaken, List.map_cons, List.map_const', List.length_cons, List.drop_succ_cons,
      List.cons_append, Scan.mk.injEq, and_true, true_and]
    refine ⟨?_, by omega⟩
    rw [← List.cons_append, ← List.replicate_succ, List.replicate_succ', List.append_assoc,
      List.singleton_append]
  rw [run, hsame] at hrun ⊢
  show (do
    let scan := (settled (indent :: indents) tokens keyAllowed cursor).closeBlocks
      (some cursor.column)
    if scan.cursor.atEnd then
      let scan ← scan.closeAll
      pure scan.tokens.reverse
    else
      run fuel (← step (fuel + 1) scan)) = _
  rw [hclose]
  exact hrun

theorem closeBlocks_of_le {scan : Scan} {column : Nat}
    (h : scan.inFlow = true ∨ ∀ indent ∈ scan.indents.head?, indent ≤ column) :
    scan.closeBlocks (some column) = scan := by
  rcases h with hflow | hindents
  · rw [closeBlocks, if_pos hflow]
  · have hnone : scan.indents.takeWhile (fun indent => (some column).all (· < indent)) = [] := by
      cases hs : scan.indents with
      | nil => rfl
      | cons indent indents =>
          have hle := hindents indent (by rw [hs]; rfl)
          exact List.takeWhile_cons_of_neg (by simpa using hle)
    rw [closeBlocks]
    simp only [hnone]
    split <;> rfl

-- One step of a scan that stands before a token inside all its blocks.
theorem yields_of_step {scan next : Scan} (h : Begins scan.cursor.rest) (hne : scan.cursor.rest ≠ [])
    (hexpire : scan.expireKeys = some scan)
    (hclose : scan.inFlow = true ∨ ∀ indent ∈ scan.indents.head?, indent ≤ scan.cursor.column)
    (hstep : ∀ fuel, scan.cursor.rest.length < fuel → step fuel scan = some next)
    (hshorter : next.cursor.rest.length < scan.cursor.rest.length) (hyields : next.Yields found) :
    scan.Yields found := by
  intro fuel hfuel
  obtain ⟨fuel, rfl⟩ : ∃ n, fuel = n + 1 := ⟨fuel - 1, by omega⟩
  have hsame : skipToToken (fuel + 1) scan = scan := @skipToToken_spaces scan _ 0 rfl h fuel
  have hend : scan.cursor.atEnd = false := by
    rw [Cursor.atEnd]
    exact List.isEmpty_eq_false_iff.mpr hne
  rw [run, hsame, hexpire]
  show (do
    let scan := scan.closeBlocks (some scan.cursor.column)
    if scan.cursor.atEnd then
      let scan ← scan.closeAll
      pure scan.tokens.reverse
    else
      run fuel (← step (fuel + 1) scan)) = _
  rw [closeBlocks_of_le hclose]
  simp only [hend, Bool.false_eq_true, if_false, hstep (fuel + 1) hfuel]
  exact hyields fuel (by omega)

-- The outermost block ends with the text.
theorem yields_end (hrest : cursor.rest = []) :
    (settled [0] tokens keyAllowed cursor).Yields (tokens.reverse ++ [.blockEnd]) := by
  intro fuel hfuel
  obtain ⟨fuel, rfl⟩ : ∃ n, fuel = n + 1 := ⟨fuel - 1, by omega⟩
  have hbegins : Begins cursor.rest := by
    rw [hrest]
    exact nofun
  have hsame : skipToToken (fuel + 1) (settled [0] tokens keyAllowed cursor) =
      settled [0] tokens keyAllowed cursor :=
    @skipToToken_spaces (settled [0] tokens keyAllowed cursor) cursor.rest 0 rfl hbegins fuel
  have hclose : (settled [0] tokens keyAllowed cursor).closeBlocks (some cursor.column) =
      settled [0] tokens keyAllowed cursor :=
    closeBlocks_of_le (.inr fun indent hindent => by
      obtain rfl := Option.mem_some_iff.mp hindent
      exact Nat.zero_le _)
  rw [run, hsame]
  show (do
    let scan := (settled [0] tokens keyAllowed cursor).closeBlocks (some cursor.column)
    if scan.cursor.atEnd then
      let scan ← scan.closeAll
      pure scan.tokens.reverse
    else
      run fuel (← step (fuel + 1) scan)) = _
  rw [hclose]
  have hend : (settled [0] tokens keyAllowed cursor).cursor.atEnd = true := by
    rw [settled, Cursor.atEnd, hrest]
    rfl
  simp only [hend, if_true]
  show some (Token.blockEnd :: tokens).reverse = _
  rw [List.reverse_cons]

section Marks

-- A block that is entered at a column or that was entered there before.
inductive Enters (column : Nat) (opening : Token) (indents : List Nat) (tokens : List Token) :
    List Nat → List Token → Prop where
  | opened : indents.head?.all (· < column) = true →
      Enters column opening indents tokens (column :: indents) (opening :: tokens)
  | stayed : indents.head? = some column → Enters column opening indents tokens indents tokens

theorem Enters.head {column : Nat} {opening : Token} {indents' : List Nat} {tokens' : List Token}
    (h : Enters column opening indents tokens indents' tokens') : indents'.head? = some column := by
  cases h with
  | opened hall => rfl
  | stayed hhead => exact hhead

theorem Enters.head_le {column : Nat} {opening : Token} {indents' : List Nat} {tokens' : List Token}
    (h : Enters column opening indents tokens indents' tokens') :
    ∀ indent ∈ indents.head?, indent ≤ column := by
  intro indent hindent
  cases h with
  | opened hall =>
      rw [Option.mem_def.mp hindent] at hall
      exact Nat.le_of_lt (of_decide_eq_true hall)
  | stayed hhead =>
      rw [hhead] at hindent
      exact Nat.le_of_eq (Option.mem_some_iff.mp hindent).symm

theorem openBlock_of_enters {column : Nat} {opening : Token} {indents' : List Nat}
    {tokens' : List Token} (h : Enters column opening indents tokens indents' tokens') :
    (settled indents tokens keyAllowed cursor).openBlock column tokens.length opening =
      settled indents' tokens' keyAllowed cursor := by
  cases h with
  | opened hall =>
      have hall : (settled indents tokens keyAllowed cursor).indent?.all (· < column) = true := hall
      rw [openBlock, if_neg nofun, if_pos hall, emitAt]
      simp only [settled, Nat.sub_self, List.take_zero, List.drop_zero, List.nil_append,
        List.length_cons]
  | stayed hhead =>
      have hhead : (settled indents tokens keyAllowed cursor).indent? = some column := hhead
      rw [openBlock, if_neg nofun, hhead]
      simp

-- A hyphen or a question mark with a blank after it.
theorem blockMark_eq {column : Nat} {opening token : Token} {indents' : List Nat}
    {tokens' : List Token} (h : Enters column opening indents tokens indents' tokens')
    (hcolumn : cursor.column = column) :
    (settled indents tokens true cursor).blockMark opening token true =
      some (settled indents' (token :: tokens') true (cursor.skip 1)) := by
  have hopen : (settled indents tokens true cursor).openBlock cursor.column tokens.length opening =
      settled indents' tokens' true cursor := hcolumn ▸ openBlock_of_enters h
  rw [blockMark, if_neg nofun]
  show ((((settled indents tokens true cursor).openBlock cursor.column tokens.length
    opening).dropKey).map _) = _
  rw [hopen]
  rfl

end Marks

end Scan

end Dataflow.Yaml
