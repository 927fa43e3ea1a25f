import Dataflow.Uuid
import Dataflow.Yaml.Cursor

namespace Dataflow.Yaml

-- How a scalar is written.
inductive Style where
  | plain
  | singleQuoted
  | doubleQuoted
  | literal
  | folded
deriving DecidableEq, Inhabited

-- The scans below are given as fuel one more than the number of characters left, and
-- every step takes one.

-- What lies between two pieces of a scalar: blanks of one line, or line breaks. The
-- first break is told from the others; blanks and later breaks are kept last first.
structure Gap where
  broken : Bool
  blanks : List Char
  firstBreak : List Char
  otherBreaks : List Char

namespace Gap

def none : Gap :=
  ⟨false, [], [], []⟩

def addBreak (gap : Gap) (mark : List Char) : Gap :=
  if gap.broken then { gap with otherBreaks := mark.reverse ++ gap.otherBreaks }
  else { gap with broken := true, blanks := [], firstBreak := mark }

def addBlank (gap : Gap) (c : Char) : Gap :=
  if gap.broken then gap else { gap with blanks := c :: gap.blanks }

-- The text the gap stands for. One line break folds to a blank; of several the first
-- is dropped.
def text (gap : Gap) : List Char :=
  if gap.broken then
    if gap.firstBreak = ['\n'] then
      if gap.otherBreaks.isEmpty then [' '] else gap.otherBreaks.reverse
    else gap.firstBreak ++ gap.otherBreaks.reverse
  else gap.blanks.reverse

end Gap

-- Blanks and line breaks from here on added to a gap. A tab may not stand in the margin
-- of `margin` columns on a later line.
def scanGap (margin : Nat) : Nat → Gap → Cursor → Option (Gap × Cursor)
  | 0, _, _ => none
  | fuel + 1, gap, cursor =>
      match cursor.rest with
      | [] => some (gap, cursor)
      | c :: _ =>
          if isBlank c then
            if gap.broken ∧ cursor.column < margin ∧ c = '\t' then none
            else scanGap margin fuel (gap.addBlank c) (cursor.skip 1)
          else if isBreak c then
            let (mark, next) := cursor.takeBreak
            scanGap margin fuel (gap.addBreak mark) next
          else some (gap, cursor)

-- The characters up to a blank or to a mark that ends a plain scalar. Inside brackets a
-- colon may not touch another mark.
def plainPiece (inFlow : Bool) : List Char → Option (List Char)
  | [] => some []
  | c :: rest =>
      if isBlank c || isBreak c then some []
      else if inFlow && c = ':' && (rest.head?.any fun d => ",?[]\x7b\x7d".toList.contains d) then
        none
      else if c = ':' && blankNext rest then some []
      else if inFlow && ",[]\x7b\x7d".toList.contains c then some []
      else (plainPiece inFlow rest).map (c :: ·)

-- A plain scalar from here on: `done` has its text so far, last character first. The
-- result says whether the scan ended after a line break.
def scanPlain (inFlow : Bool) (margin : Nat) :
    Nat → List Char → Gap → Cursor → Option (List Char × Bool × Cursor)
  | 0, _, _, _ => none
  | fuel + 1, done, gap, cursor =>
      if cursor.atDocumentMarker || cursor.rest.head? = some '#' then
        some (done.reverse, gap.broken, cursor)
      else
        match plainPiece inFlow cursor.rest with
        | none => none
        | some piece =>
            let next := cursor.skip piece.length
            let (done, gap) :=
              if piece.isEmpty then (done, gap)
              else (piece.reverse ++ gap.text.reverse ++ done, Gap.none)
            if next.atEnd || !blankNext next.rest then some (done.reverse, gap.broken, next)
            else
              match scanGap margin (fuel + 1) gap next with
              | none => none
              | some (gap, next) =>
                  if !inFlow && next.column < margin then some (done.reverse, gap.broken, next)
                  else scanPlain inFlow margin fuel done gap next

-- The characters that a backslash and one more character stand for.
def simpleEscape? : Char → Option Char
  | '0' => some '\x00'
  | 'a' => some '\x07'
  | 'b' => some '\x08'
  | 't' => some '\t'
  | '\t' => some '\t'
  | 'n' => some '\n'
  | 'v' => some '\x0b'
  | 'f' => some '\x0c'
  | 'r' => some '\r'
  | 'e' => some '\x1b'
  | ' ' => some ' '
  | '"' => some '"'
  | '/' => some '/'
  | '\\' => some '\\'
  | 'N' => some '\u0085'
  | '_' => some '\u00a0'
  | 'L' => some '\u2028'
  | 'P' => some '\u2029'
  | _ => none

-- How many hexadecimal digits follow the character after a backslash.
def escapeWidth? : Char → Option Nat
  | 'x' => some 2
  | 'u' => some 4
  | 'U' => some 8
  | _ => none

-- The character with a number of exactly `width` digits. Surrogates are refused.
def numberedChar? (width : Nat) (digits : List Char) : Option Char := do
  let nibbles ← digits.mapM Uuid.hexValue?
  let code := nibbles.foldl (fun sum nibble => 16 * sum + nibble) 0
  if digits.length = width ∧ code ≤ 0x10FFFF ∧ ¬(0xD800 ≤ code ∧ code ≤ 0xDFFF) then
    pure (Char.ofNat code)
  else
    none

-- The characters of a quoted scalar up to a blank or the closing quote, last first
-- before those in `done`. The result says whether the line was continued by a
-- backslash.
def quotedPiece (single : Bool) : Nat → List Char → Cursor → Option (List Char × Bool × Cursor)
  | 0, _, _ => none
  | fuel + 1, done, cursor =>
      if blankNext cursor.rest then some (done, false, cursor)
      else if single then
        match cursor.rest with
        | '\'' :: '\'' :: _ => quotedPiece single fuel ('\'' :: done) (cursor.skip 2)
        | '\'' :: _ => some (done, false, cursor)
        | c :: _ => quotedPiece single fuel (c :: done) (cursor.skip 1)
        | [] => none
      else
        match cursor.rest with
        | '"' :: _ => some (done, false, cursor)
        | '\\' :: c :: rest =>
            if isBreak c then some (done, true, (cursor.skip 1).takeBreak.2)
            else
              match escapeWidth? c with
              | some width =>
                  match numberedChar? width (rest.take width) with
                  | some d => quotedPiece single fuel (d :: done) (cursor.skip (2 + width))
                  | none => none
              | none =>
                  match simpleEscape? c with
                  | some d => quotedPiece single fuel (d :: done) (cursor.skip 2)
                  | none => none
        | '\\' :: [] => none
        | c :: _ => quotedPiece single fuel (c :: done) (cursor.skip 1)
        | [] => none

-- A quoted scalar after its opening quote. No line in it may look like a document
-- marker.
def scanQuoted (single : Bool) : Nat → List Char → Cursor → Option (List Char × Cursor)
  | 0, _, _ => none
  | fuel + 1, done, cursor =>
      if cursor.atDocumentMarker || cursor.atEnd then none
      else
        match quotedPiece single (fuel + 1) done cursor with
        | none => none
        | some (done, continued, next) =>
            if next.rest.head? = some (if single then '\'' else '"') then
              some (done.reverse, next.skip 1)
            else
              match scanGap 0 (fuel + 1) { Gap.none with broken := continued } next with
              | none => none
              | some (gap, next) => scanQuoted single fuel (gap.text.reverse ++ done) next

-- What happens to the line breaks at the end of a block scalar.
inductive Chomp where
  | strip
  | clip
  | keep
deriving DecidableEq

-- The chomping mark and the indentation digit of a block scalar, in either order. The
-- digit zero is refused.
def scanBlockHeader (cursor : Cursor) : Option (Chomp × Option Nat × Cursor) :=
  let chomp? : Char → Option Chomp := fun c =>
    if c = '+' then some .keep else if c = '-' then some .strip else none
  let digit? : Char → Option (Option Nat) := fun c =>
    if c = '0' then some none
    else if isDigit c then some (some (c.toNat - '0'.toNat))
    else none
  match cursor.rest with
  | c :: rest =>
      match chomp? c with
      | some chomp =>
          match rest.head?.bind digit? with
          | some none => none
          | some (some digit) => some (chomp, some digit, cursor.skip 2)
          | none => some (chomp, none, cursor.skip 1)
      | none =>
          match digit? c with
          | some none => none
          | some (some digit) =>
              match rest.head?.bind chomp? with
              | some chomp => some (chomp, some digit, cursor.skip 2)
              | none => some (.clip, some digit, cursor.skip 1)
          | none => some (.clip, none, cursor)
  | [] => some (.clip, none, cursor)

-- The margin and empty lines before a line of a block scalar. While the indentation is
-- not known, `widest` is the widest margin so far. A tab may not stand in the margin.
def scanMargin (indent : Option Nat) :
    Nat → Nat → List Char → Cursor → Option (Nat × List Char × Cursor)
  | 0, _, _, _ => none
  | fuel + 1, widest, breaks, cursor =>
      let blanks := (cursor.rest.takeWhile (· = ' ')).length
      let taken :=
        match indent with
        | none => blanks
        | some indent => min blanks (indent - cursor.column)
      let cursor := cursor.skip taken
      let widest := max widest cursor.column
      let inMargin := indent.all (cursor.column < ·)
      match cursor.rest with
      | [] => some (widest, breaks, cursor)
      | c :: _ =>
          if inMargin && c = '\t' then none
          else if isBreak c then
            let (mark, next) := cursor.takeBreak
            scanMargin indent fuel widest (mark.reverse ++ breaks) next
          else some (widest, breaks, cursor)

-- The lines of a block scalar with a known indentation. `done` and `breaks` are kept
-- last first; `mark` is the break after the last line and `indented` says whether that
-- line began with a blank, which keeps its break from being folded.
def scanLines (literal : Bool) (chomp : Chomp) (indent : Nat) :
    Nat → List Char → List Char → Bool → List Char → Cursor → Option (List Char × Cursor)
  | 0, _, _, _, _, _ => none
  | fuel + 1, done, mark, indented, breaks, cursor =>
      if cursor.column = indent ∧ !cursor.atEnd then
        let blankStart := cursor.rest.head?.any isBlank
        let joint :=
          if !literal && mark = ['\n'] && !indented && !blankStart then
            if breaks.isEmpty then [' '] else []
          else mark
        let line := cursor.rest.takeWhile fun c => !isBreak c
        let (next, cursor) := (cursor.skip line.length).takeBreak
        let done := line.reverse ++ breaks ++ joint ++ done
        match scanMargin (some indent) (fuel + 1) 0 [] cursor with
        | none => none
        | some (_, breaks, cursor) =>
            scanLines literal chomp indent fuel done next blankStart breaks cursor
      else
        let tail :=
          match chomp with
          | .strip => []
          | .clip => mark
          | .keep => breaks ++ mark
        some ((tail ++ done).reverse, cursor)

-- A block scalar after its mark. `parent` is the indentation around it, if any. An
-- indentation that is not given is the widest margin before the first line, and at
-- least one more than around it.
def scanBlock (literal : Bool) (parent : Option Nat) (cursor : Cursor) :
    Option (List Char × Cursor) := do
  let (chomp, digit, cursor) ← scanBlockHeader cursor
  let cursor ← cursor.endLine?
  let given := digit.map fun digit => (parent.getD 0) + digit
  let (widest, breaks, cursor) ← scanMargin given (cursor.rest.length + 1) 0 [] cursor
  let least := (parent.map (· + 1)).getD 0
  let indent := given.getD (max (max widest least) 1)
  scanLines literal chomp indent (cursor.rest.length + 1) [] [] false breaks cursor

end Dataflow.Yaml
