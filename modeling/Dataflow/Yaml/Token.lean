import Dataflow.Yaml.Scalar

namespace Dataflow.Yaml

-- The marks and words of a text. Starts and ends of blocks stand where the indentation
-- grows and shrinks.
inductive Token where
  | version (major minor : Nat)
  | shorthand (handle start : List Char)
  | documentStart
  | documentEnd
  | blockSequenceStart
  | blockMappingStart
  | blockEnd
  | flowSequenceStart
  | flowSequenceEnd
  | flowMappingStart
  | flowMappingEnd
  | blockEntry
  | flowEntry
  | key
  | value
  | reference (name : List Char)
  | anchor (name : List Char)
  | tag (handle suffix : List Char)
  | scalar (style : Style) (text : List Char)
deriving DecidableEq, Inhabited

-- A token that turns out to be a key if a colon follows in time. `required` marks the
-- places where nothing but a key may stand.
structure PendingKey where
  token : Nat
  at_ : Cursor
  required : Bool

-- The state of a scan. `tokens` holds what has been found, last first, and `count` how
-- many they are; `indents` holds the enclosing indentations, innermost first; `pending`
-- is the possible key of the innermost brackets and `outer` those of the brackets
-- around them.
structure Scan where
  cursor : Cursor
  tokens : List Token
  count : Nat
  indents : List Nat
  keyAllowed : Bool
  pending : Option PendingKey
  outer : List (Option PendingKey)

namespace Scan

def start (text : List Char) : Scan :=
  ⟨.start text, [], 0, [], true, none, []⟩

def inFlow (scan : Scan) : Bool :=
  !scan.outer.isEmpty

def indent? (scan : Scan) : Option Nat :=
  scan.indents.head?

def emit (scan : Scan) (token : Token) : Scan :=
  { scan with tokens := token :: scan.tokens, count := scan.count + 1 }

-- A token put before those from the given number on.
def emitAt (scan : Scan) (number : Nat) (token : Token) : Scan :=
  let later := scan.count - number
  { scan with
    tokens := scan.tokens.take later ++ token :: scan.tokens.drop later
    count := scan.count + 1 }

def skip (scan : Scan) (count : Nat) : Scan :=
  { scan with cursor := scan.cursor.skip count }

-- A deeper column opens a block, whose start goes before the token of that number.
def openBlock (scan : Scan) (column number : Nat) (token : Token) : Scan :=
  if scan.inFlow then scan
  else if scan.indent?.all (· < column) then
    { scan.emitAt number token with indents := column :: scan.indents }
  else scan

-- Blocks further in than the column end. No column ends them all.
def closeBlocks (scan : Scan) (column : Option Nat) : Scan :=
  if scan.inFlow then scan
  else
    let closed := scan.indents.takeWhile fun indent => column.all (· < indent)
    { scan with
      tokens := closed.map (fun _ => Token.blockEnd) ++ scan.tokens
      count := scan.count + closed.length
      indents := scan.indents.drop closed.length }

-- A possible key is given up; where one was required that is an error.
def dropKey (scan : Scan) : Option Scan :=
  match scan.pending with
  | some key => if key.required then none else some { scan with pending := none }
  | none => some scan

-- Where a key may stand, the next token is remembered as a possible one.
def noteKey (scan : Scan) : Option Scan :=
  if scan.keyAllowed then
    let required := !scan.inFlow && scan.indent? = some scan.cursor.column
    scan.dropKey.map fun scan =>
      { scan with pending := some ⟨scan.count, scan.cursor, required⟩ }
  else
    some scan

-- Whether a possible key has come too far: a key stays on one line and within 1024
-- characters.
def isStale (cursor : Cursor) (key : PendingKey) : Bool :=
  key.at_.line < cursor.line || key.at_.index + 1024 < cursor.index

def expire (cursor : Cursor) (pending : Option PendingKey) : Option (Option PendingKey) :=
  match pending with
  | some key =>
      if isStale cursor key then (if key.required then none else some none) else some pending
  | none => some none

def expireKeys (scan : Scan) : Option Scan := do
  let pending ← expire scan.cursor scan.pending
  let outer ← scan.outer.mapM (expire scan.cursor)
  pure { scan with pending := pending, outer := outer }

-- Past blanks, comments and line breaks. A new line outside brackets may start with a
-- key; tabs may not stand where one could.
def skipToToken : Nat → Scan → Scan
  | 0, scan => scan
  | fuel + 1, scan =>
      let cursor := scan.cursor
      let cursor :=
        if cursor.column = 0 ∧ cursor.rest.head? = some '\ufeff' then cursor.skip 1 else cursor
      let tabs := scan.inFlow || !scan.keyAllowed
      let cursor := (cursor.skipWhile fun c => c = ' ' || (tabs && c = '\t')).skipComment
      if !cursor.atEnd && breakNext cursor.rest then
        skipToToken fuel
          { scan with cursor := cursor.takeBreak.2, keyAllowed := !scan.inFlow || scan.keyAllowed }
      else
        { scan with cursor := cursor }

-- Blocks and possible keys end here, and no key may follow.
def closeAll (scan : Scan) : Option Scan :=
  (scan.closeBlocks none).dropKey.map fun scan => { scan with keyAllowed := false }

def openFlow (scan : Scan) (token : Token) : Option Scan :=
  scan.noteKey.map fun scan =>
    ({ scan with
        outer := scan.pending :: scan.outer
        pending := none
        keyAllowed := true }.skip 1).emit token

def closeFlow (scan : Scan) (token : Token) : Option Scan :=
  scan.dropKey.map fun scan =>
    let scan := { scan with keyAllowed := false }
    match scan.outer with
    | pending :: outer => ({ scan with pending := pending, outer := outer }.skip 1).emit token
    | [] => (scan.skip 1).emit token

def flowEntry (scan : Scan) : Option Scan :=
  scan.dropKey.map fun scan => ({ scan with keyAllowed := true }.skip 1).emit .flowEntry

-- A hyphen or question mark that opens a block where one may start.
def blockMark (scan : Scan) (opening token : Token) (keyAllowed : Bool) : Option Scan :=
  if !scan.inFlow && !scan.keyAllowed then none
  else
    (scan.openBlock scan.cursor.column scan.count opening).dropKey.map fun scan =>
      ({ scan with keyAllowed := keyAllowed }.skip 1).emit token

-- A colon: what came before it on the line becomes a key after all, or else the key was
-- introduced by a question mark or left out.
def valueMark (scan : Scan) : Option Scan :=
  match scan.pending with
  | some key =>
      let scan := scan.emitAt key.token .key
      let scan := scan.openBlock key.at_.column key.token .blockMappingStart
      some (({ scan with pending := none, keyAllowed := false }.skip 1).emit .value)
  | none =>
      if scan.inFlow then
        some (({ scan with keyAllowed := false }.skip 1).emit .value)
      else if scan.keyAllowed then
        let scan := scan.openBlock scan.cursor.column scan.count .blockMappingStart
        some (({ scan with keyAllowed := true }.skip 1).emit .value)
      else
        none

end Scan

-- The name of an anchor or of an alias to one.
def scanName (cursor : Cursor) : Option (List Char × Cursor) :=
  let name := cursor.rest.takeWhile isWordChar
  let next := cursor.skip name.length
  if !name.isEmpty &&
      (blankNext next.rest || next.rest.head?.any fun c => "?:,]\x7d%@`".toList.contains c) then
    some (name, next)
  else
    none

-- A handle is an exclamation mark, or a word between two. In a directive it must be one.
def scanHandle (directive : Bool) (cursor : Cursor) : Option (List Char × Cursor) :=
  match cursor.rest with
  | '!' :: rest =>
      let word := rest.takeWhile isWordChar
      let next := cursor.skip (1 + word.length)
      if next.rest.head? = some '!' then some ('!' :: word ++ ['!'], next.skip 1)
      else if directive && !word.isEmpty then none
      else some ('!' :: word, next)
  | _ => none

def isUriChar (verbatim : Bool) (c : Char) : Bool :=
  isWordChar c || ";/?:@&=+$.!~*'()".toList.contains c || (verbatim && ",[]".toList.contains c)

-- One byte written as a percent sign and two digits.
def escapedByte? : List Char → Option Nat
  | '%' :: a :: b :: _ => do
      pure (16 * (← Uuid.hexValue? a) + (← Uuid.hexValue? b))
  | _ => none

-- How many bytes a character has that starts with the given one.
def utf8Width? (first : Nat) : Option Nat :=
  if first < 0x80 then some 1
  else if first < 0xC0 then none
  else if first < 0xE0 then some 2
  else if first < 0xF0 then some 3
  else if first < 0xF8 then some 4
  else none

-- A character written as escaped bytes, and how many characters that takes.
def escapedChar? (cs : List Char) : Option (Char × Nat) := do
  let first ← escapedByte? cs
  let width ← utf8Width? first
  let more ← (List.range (width - 1)).mapM fun i => do
    let byte ← escapedByte? (cs.drop (3 * (i + 1)))
    if byte / 64 = 2 then pure (byte % 64) else none
  let lead := if width = 1 then first else first % Nat.pow 2 (7 - width)
  let code := more.foldl (fun sum bits => 64 * sum + bits) lead
  if code.isValidChar then pure (Char.ofNat code, 3 * width) else none

-- The characters of an address as long as they last, last first before those in `done`.
def scanUri (verbatim : Bool) : Nat → List Char → Cursor → Option (List Char × Cursor)
  | 0, _, _ => none
  | fuel + 1, done, cursor =>
      match cursor.rest with
      | '%' :: _ =>
          match escapedChar? cursor.rest with
          | some (c, width) => scanUri verbatim fuel (c :: done) (cursor.skip width)
          | none => none
      | c :: _ =>
          if isUriChar verbatim c then scanUri verbatim fuel (c :: done) (cursor.skip 1)
          else some (done.reverse, cursor)
      | [] => some (done.reverse, cursor)

-- A tag: an address between angle brackets, a handle with a suffix, or a suffix alone.
-- An exclamation mark alone is a tag of its own.
def scanTag (inFlow : Bool) (fuel : Nat) (cursor : Cursor) :
    Option (List Char × List Char × Cursor) := do
  let (handle, suffix, cursor) ←
    match cursor.rest with
    | '!' :: '<' :: _ => do
        let (suffix, cursor) ← scanUri true fuel [] (cursor.skip 2)
        if suffix.isEmpty || cursor.rest.head? ≠ some '>' then none
        else pure ([], suffix, cursor.skip 1)
    | _ => do
        let (handle, next) ← scanHandle false cursor
        if 2 ≤ handle.length ∧ handle.getLast? = some '!' then
          let (suffix, next) ← scanUri false fuel [] next
          if suffix.isEmpty then none else pure (handle, suffix, next)
        else
          let (suffix, next) ← scanUri false fuel (handle.drop 1).reverse next
          if suffix.isEmpty then pure ([], ['!'], next) else pure (['!'], suffix, next)
  if blankNext cursor.rest || (inFlow && cursor.rest.head? = some ',') then
    pure (handle, suffix, cursor)
  else
    none

-- A part of a version, of at most nine digits.
def scanVersionNumber (cursor : Cursor) : Option (Nat × Cursor) :=
  let digits := cursor.rest.takeWhile isDigit
  if digits.isEmpty || 9 < digits.length then none
  else
    some (digits.foldl (fun sum c => 10 * sum + (c.toNat - '0'.toNat)) 0,
      cursor.skip digits.length)

-- A directive after its percent sign: the version of the language, or a shorthand for
-- tags. Any other is an error.
def scanDirective (fuel : Nat) (cursor : Cursor) : Option (Token × Cursor) := do
  let name := cursor.rest.takeWhile isWordChar
  let cursor := cursor.skip name.length
  if !blankNext cursor.rest then none
  else
    let cursor := cursor.skipWhile isBlank
    if name = "YAML".toList then
      let (major, cursor) ← scanVersionNumber cursor
      if cursor.rest.head? ≠ some '.' then none
      else
        let (minor, cursor) ← scanVersionNumber (cursor.skip 1)
        pure (.version major minor, ← cursor.endLine?)
    else if name = "TAG".toList then
      let (handle, cursor) ← scanHandle true cursor
      if !cursor.rest.head?.any isBlank then none
      else
        let cursor := cursor.skipWhile isBlank
        let (start, cursor) ← scanUri true fuel [] cursor
        if start.isEmpty || !blankNext cursor.rest then none
        else pure (.shorthand handle start, ← cursor.endLine?)
    else
      none

namespace Scan

def name (scan : Scan) (token : List Char → Token) : Option Scan := do
  let scan ← scan.noteKey
  let (found, cursor) ← scanName (scan.cursor.skip 1)
  pure ({ scan with cursor := cursor, keyAllowed := false }.emit (token found))

def tag (scan : Scan) (fuel : Nat) : Option Scan := do
  let scan ← scan.noteKey
  let (handle, suffix, cursor) ← scanTag scan.inFlow fuel scan.cursor
  pure ({ scan with cursor := cursor, keyAllowed := false }.emit (.tag handle suffix))

def directive (scan : Scan) (fuel : Nat) : Option Scan := do
  let scan ← scan.closeAll
  let (token, cursor) ← scanDirective fuel (scan.cursor.skip 1)
  pure ({ scan with cursor := cursor }.emit token)

def documentMarker (scan : Scan) (token : Token) : Option Scan :=
  scan.closeAll.map fun scan => (scan.skip 3).emit token

def blockScalar (scan : Scan) (literal : Bool) : Option Scan := do
  let scan ← scan.dropKey
  let (text, cursor) ← scanBlock literal scan.indent? (scan.cursor.skip 1)
  pure ({ scan with cursor := cursor, keyAllowed := true }.emit
    (.scalar (if literal then .literal else .folded) text))

def quotedScalar (scan : Scan) (fuel : Nat) (single : Bool) : Option Scan := do
  let scan ← scan.noteKey
  let (text, cursor) ← scanQuoted single fuel [] (scan.cursor.skip 1)
  pure ({ scan with cursor := cursor, keyAllowed := false }.emit
    (.scalar (if single then .singleQuoted else .doubleQuoted) text))

def plainScalar (scan : Scan) (fuel : Nat) : Option Scan := do
  let scan ← scan.noteKey
  let margin := (scan.indent?.map (· + 1)).getD 0
  let (text, broken, cursor) ←
    scanPlain scan.inFlow margin fuel [] Gap.none scan.cursor
  pure ({ scan with cursor := cursor, keyAllowed := broken }.emit (.scalar .plain text))

-- The next token, by the character it starts with. `fuel` is more than the number of
-- characters left.
def step (fuel : Nat) (scan : Scan) : Option Scan :=
  let cursor := scan.cursor
  match cursor.rest with
  | [] => none
  | c :: rest =>
      let gap := blankNext rest
      if cursor.column = 0 && c = '%' then scan.directive fuel
      else if cursor.atMarker '-' then scan.documentMarker .documentStart
      else if cursor.atMarker '.' then scan.documentMarker .documentEnd
      else if c = '[' then scan.openFlow .flowSequenceStart
      else if c = '\x7b' then scan.openFlow .flowMappingStart
      else if c = ']' then scan.closeFlow .flowSequenceEnd
      else if c = '\x7d' then scan.closeFlow .flowMappingEnd
      else if c = ',' then scan.flowEntry
      else if c = '-' && gap then scan.blockMark .blockSequenceStart .blockEntry true
      else if c = '?' && (scan.inFlow || gap) then
        scan.blockMark .blockMappingStart .key (!scan.inFlow)
      else if c = ':' && (scan.inFlow || gap) then scan.valueMark
      else if c = '*' then scan.name .reference
      else if c = '&' then scan.name .anchor
      else if c = '!' then scan.tag fuel
      else if c = '|' && !scan.inFlow then scan.blockScalar true
      else if c = '>' && !scan.inFlow then scan.blockScalar false
      else if c = '\'' then scan.quotedScalar fuel true
      else if c = '"' then scan.quotedScalar fuel false
      else if "-?:,[]\x7b\x7d#&*!|>'\"%@`".toList.contains c || isBlank c then
        if (c = '-' && !rest.head?.any isBlank) || ((c = '?' || c = ':') && !scan.inFlow && !gap)
        then scan.plainScalar fuel
        else none
      else scan.plainScalar fuel

-- All tokens from here on. Each step takes at least one character.
def run : Nat → Scan → Option (List Token)
  | 0, _ => none
  | fuel + 1, scan => do
      let scan ← (skipToToken (fuel + 1) scan).expireKeys
      let scan := scan.closeBlocks (some scan.cursor.column)
      if scan.cursor.atEnd then
        let scan ← scan.closeAll
        pure scan.tokens.reverse
      else
        run fuel (← step (fuel + 1) scan)

end Scan

-- The characters that a text may consist of.
def isTextChar (c : Char) : Bool :=
  let n := c.toNat
  n = 0x09 || n = 0x0A || n = 0x0D || (0x20 ≤ n && n ≤ 0x7E) || n = 0x85 ||
    (0xA0 ≤ n && n ≤ 0xD7FF) || (0xE000 ≤ n && n ≤ 0xFFFD) || 0x10000 ≤ n

-- The tokens of a text, which may begin with a byte order mark.
def tokens? (text : List Char) : Option (List Token) :=
  let text := if text.head? = some '\ufeff' then text.drop 1 else text
  if text.all isTextChar then Scan.run (text.length + 1) (.start text) else none

end Dataflow.Yaml
