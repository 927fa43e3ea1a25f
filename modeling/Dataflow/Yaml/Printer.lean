import Dataflow.Decimal.Layout
import Dataflow.Document.Tree
import Dataflow.Text.Escape
import Dataflow.Yaml.Resolve
import Dataflow.Yaml.Scalar

namespace Dataflow.Yaml

-- Numbers of double width: written out in place from 10 ^ -5 and below 10 ^ 16, with a
-- fraction always, and words for what is no number.
def doubleLayout : Layout where
  tieUp := false
  lowest := some (-5)
  highest := some 16
  whole := ".0"
  plus := ""
  nan := ".nan"
  infinity := ".inf"
  minusInfinity := "-.inf"

-- Numbers of single width: in place from 10 ^ -6 and below 10 ^ 13.
def singleLayout : Layout :=
  { doubleLayout with lowest := some (-6), highest := some 13 }

-- A text as it is written: its characters, last first, the column, whether the next
-- word needs no blank before it, and whether the line holds nothing but margin and
-- marks so far.
structure Sheet where
  chars : List Char
  column : Nat
  spaced : Bool
  fresh : Bool

namespace Sheet

def blank : Sheet :=
  ⟨[], 0, true, true⟩

def put (sheet : Sheet) (c : Char) : Sheet :=
  { sheet with chars := c :: sheet.chars, column := sheet.column + 1 }

-- A line break, or a character that counts as one.
def putBreak (sheet : Sheet) (c : Char) : Sheet :=
  { sheet with chars := c :: sheet.chars, column := 0 }

def putAll (sheet : Sheet) (cs : List Char) : Sheet :=
  cs.foldl put sheet

-- To the margin of a line: a new one unless this line has nothing past the margin.
def margin (sheet : Sheet) (indent : Nat) : Sheet :=
  let sheet :=
    if !sheet.fresh || indent < sheet.column || (sheet.column = indent && !sheet.spaced) then
      sheet.putBreak '\n'
    else sheet
  { sheet.putAll (List.replicate (indent - sheet.column) ' ') with spaced := true, fresh := true }

-- A mark, after a blank if it needs one.
def mark (sheet : Sheet) (text : String) (needsBlank spaced fresh : Bool) : Sheet :=
  let sheet := if needsBlank && !sheet.spaced then sheet.put ' ' else sheet
  { sheet.putAll text.toList with spaced := spaced, fresh := sheet.fresh && fresh }

-- The end of a word.
def close (sheet : Sheet) : Sheet :=
  { sheet with spaced := false, fresh := false }

end Sheet

-- Characters that are written as they are in a double-quoted scalar.
def isPlainChar (c : Char) : Bool :=
  let n := c.toNat
  n = 0x0A || (0x20 ≤ n && n ≤ 0x7E) || (0xA0 ≤ n && n ≤ 0xFFFD && n ≠ 0xFEFF) || 0x10000 ≤ n

-- What matters about a text when its style is chosen.
structure Traits where
  multiline : Bool
  plainAllowed : Bool
  singleAllowed : Bool
  blockAllowed : Bool

-- Whether two neighbours satisfy the test.
def anyNeighbours (test : Char → Char → Bool) : List Char → Bool
  | a :: b :: rest => test a b || anyNeighbours test (b :: rest)
  | _ => false

-- Marks at the front that would be taken for something else.
def isMarkStart (cs : List Char) : Bool :=
  match cs with
  | [] => false
  | c :: rest =>
      cs.take 3 = ['-', '-', '-'] || cs.take 3 = ['.', '.', '.'] ||
        "#,[]\x7b\x7d&*!|>'\"%@`".toList.contains c ||
        ((c = '?' || c = ':' || c = '-') && blankNext rest)

-- Marks further in: a colon before a gap, a hash sign after one.
def isMarkInside (c : Char) (rest : List Char) : Bool :=
  anyNeighbours (fun a b => a = ':' && (isBlank b || isBreak b)) rest ||
    rest.getLast? = some ':' ||
    anyNeighbours (fun a b => b = '#' && (isBlank a || isBreak a)) (c :: rest)

def traits (cs : List Char) : Traits :=
  match cs with
  | [] => ⟨false, true, true, false⟩
  | c :: rest =>
      let multiline := cs.any isBreak
      let special := cs.any fun c => !isPlainChar c
      let breakThenSpace := anyNeighbours (fun a b => isBreak a && b = ' ') cs
      let spaceThenBreak := anyNeighbours (fun a b => a = ' ' && isBreak b) cs
      let edge := fun d => d = ' ' || isBreak d
      let last := (c :: rest).getLast?
      { multiline := multiline
        plainAllowed :=
          !(edge c || last.any edge || breakThenSpace || spaceThenBreak || special || multiline ||
            isMarkStart cs || isMarkInside c rest)
        singleAllowed := !(breakThenSpace || spaceThenBreak || special)
        blockAllowed := !(last = some ' ' || spaceThenBreak || special) }

-- The style a text asks for: a block for several lines, quotes where it would be read
-- as something else than text.
def wantedStyle (cs : List Char) : Style :=
  if cs.contains '\n' then .literal
  else if resolve cs ≠ .text || isZeroPadded cs then .singleQuoted
  else .plain

-- The style it gets. A simple key stays on one line.
def chosenStyle (traits : Traits) (simpleKey : Bool) (cs : List Char) : Style :=
  let style := if simpleKey && traits.multiline then .doubleQuoted else wantedStyle cs
  let style :=
    if style = .plain && (!traits.plainAllowed || (cs.isEmpty && simpleKey)) then .singleQuoted
    else style
  let style := if style = .singleQuoted && !traits.singleAllowed then .doubleQuoted else style
  if style = .literal && (!traits.blockAllowed || simpleKey) then .doubleQuoted else style

-- The letter that stands for a character after a backslash.
def escapeLetter? : Char → Option Char
  | '\x00' => some '0'
  | '\x07' => some 'a'
  | '\x08' => some 'b'
  | '\t' => some 't'
  | '\n' => some 'n'
  | '\x0b' => some 'v'
  | '\x0c' => some 'f'
  | '\r' => some 'r'
  | '\x1b' => some 'e'
  | '"' => some '"'
  | '\\' => some '\\'
  | '\u0085' => some 'N'
  | '\u00a0' => some '_'
  | '\u2028' => some 'L'
  | '\u2029' => some 'P'
  | _ => none

-- Upper-case hexadecimal digits, filled up with zeros.
def paddedHex (width n : Nat) : List Char :=
  let digits := (Text.hexDigits n).map Char.toUpper
  List.replicate (width - digits.length) '0' ++ digits

def escaped (c : Char) : List Char :=
  match escapeLetter? c with
  | some letter => ['\\', letter]
  | none =>
      let n := c.toNat
      if n ≤ 0xFF then '\\' :: 'x' :: paddedHex 2 n
      else if n ≤ 0xFFFF then '\\' :: 'u' :: paddedHex 4 n
      else '\\' :: 'U' :: paddedHex 8 n

def doubleQuotedChar (c : Char) : List Char :=
  if !isPlainChar c || isBreak c || c = '"' || c = '\\' then escaped c else [c]

-- The inside of single quotes: a quote is written twice, and a line break is followed
-- by the margin.
def putSingle (indent : Nat) (afterBreak : Bool) (sheet : Sheet) : List Char → Sheet
  | [] => if afterBreak then sheet.margin indent else sheet
  | c :: rest =>
      if isBreak c then
        let sheet := if !afterBreak && c = '\n' then sheet.putBreak '\n' else sheet
        putSingle indent true { sheet.putBreak c with fresh := true } rest
      else
        let sheet := if afterBreak then sheet.margin indent else sheet
        let sheet := if c = '\'' then sheet.put '\'' else sheet
        let sheet := sheet.put c
        putSingle indent false (if c = ' ' then sheet else { sheet with fresh := false }) rest

-- The lines of a block, each at the margin.
def putLines (indent : Nat) (afterBreak : Bool) (sheet : Sheet) : List Char → Sheet
  | [] => sheet
  | c :: rest =>
      if isBreak c then putLines indent true { sheet.putBreak c with fresh := true } rest
      else
        let sheet := if afterBreak then sheet.margin indent else sheet
        putLines indent false { sheet.put c with fresh := false } rest

-- What stands after the mark of a block: a digit if its first line does not show the
-- indentation, and how its last line break is kept.
def blockHints (cs : List Char) : String :=
  let digit := if cs.head?.any fun c => c = ' ' || isBreak c then "2" else ""
  match cs.reverse with
  | [] => digit ++ "-"
  | last :: before =>
      if !isBreak last then digit ++ "-"
      else if before.head?.all isBreak then digit ++ "+"
      else digit

-- A text in the style that suits it, `indent` being the margin of its further lines.
def putText (indent : Nat) (simpleKey : Bool) (sheet : Sheet) (cs : List Char) : Sheet :=
  match chosenStyle (traits cs) simpleKey cs with
  | .plain =>
      let sheet := if !sheet.spaced && !cs.isEmpty then sheet.put ' ' else sheet
      (sheet.putAll cs).close
  | .singleQuoted =>
      ((putSingle indent false (sheet.mark "'" true false false) cs).mark "'" false false
        false).close
  | .doubleQuoted =>
      (((sheet.mark "\"" true false false).putAll (cs.flatMap doubleQuotedChar)).mark "\"" false
        false false).close
  | .literal | .folded =>
      let sheet := (sheet.mark "|" true false false).mark (blockHints cs) false false false
      putLines indent true { sheet.putBreak '\n' with spaced := true, fresh := true } cs

-- Margins grow by two; the outermost block has none.
def deeper (indent : Option Nat) : Nat :=
  match indent with
  | none => 0
  | some indent => indent + 2

def scalarMargin (indent : Option Nat) : Nat :=
  match indent with
  | none => 2
  | some indent => indent + 2

def putWord (sheet : Sheet) (word : String) : Sheet :=
  let sheet := if sheet.spaced then sheet else sheet.put ' '
  (sheet.putAll word.toList).close

-- A tree without parts.
def putLeaf (indent : Option Nat) (simpleKey : Bool) (sheet : Sheet) : Tree → Sheet
  | .null => putWord sheet "null"
  | .bool truth => putWord sheet (if truth then "true" else "false")
  | .int i => putWord sheet (toString i)
  | .float x => putWord sheet (doubleLayout.writeFloat x)
  | .single x => putWord sheet (singleLayout.writeFloat32 x)
  | .text s => putText (scalarMargin indent) simpleKey sheet s.toList
  | .seq _ => (sheet.mark "[" true true false).mark "]" false false false
  | .map _ => (sheet.mark "\x7b" true true false).mark "\x7d" false false false

-- A key that fits before its colon: one line of at most 128 bytes.
def isSimpleKey : Tree → Bool
  | .text s => !(traits s.toList).multiline && s.utf8ByteSize ≤ 128
  | _ => true

-- A key with the mark that leads to its value.
def putKey (indent : Nat) (sheet : Sheet) (key : Tree) : Sheet :=
  let sheet := sheet.margin indent
  if isSimpleKey key then
    (putLeaf (some indent) true sheet key).mark ":" false false false
  else
    let sheet := putLeaf (some indent) false (sheet.mark "?" true false true) key
    (sheet.margin indent).mark ":" true false true

mutual
-- A tree at the given margin; `afterKey` says whether it stands as the value of a key,
-- where lists need no margin of their own.
def putTree (indent : Option Nat) (afterKey : Bool) (sheet : Sheet) : Tree → Sheet
  | .seq (item :: items) =>
      let inner := if afterKey && !sheet.fresh then indent.getD 0 else deeper indent
      putItems inner sheet (item :: items)
  | .map (field :: fields) => putFields (deeper indent) sheet (field :: fields)
  | leaf => putLeaf indent false sheet leaf

def putItems (indent : Nat) (sheet : Sheet) : List Tree → Sheet
  | [] => sheet
  | item :: rest =>
      putItems indent
        (putTree (some indent) false ((sheet.margin indent).mark "-" true false true) item) rest

def putFields (indent : Nat) (sheet : Sheet) : List (Tree × Tree) → Sheet
  | [] => sheet
  | (key, value) :: rest =>
      putFields indent (putTree (some indent) true (putKey indent sheet key) value) rest
end

-- A document of one tree, with a line break at its end.
def print (tree : Tree) : String :=
  String.ofList ((putTree none false .blank tree).margin 0).chars.reverse

end Dataflow.Yaml
