namespace Dataflow.Yaml

def isBlank (c : Char) : Bool :=
  c = ' ' || c = '\t'

def isBreak (c : Char) : Bool :=
  c = '\n' || c = '\r' || c = '\u0085' || c = '\u2028' || c = '\u2029'

-- Letters, digits, underscores and hyphens: what names are made of.
def isWordChar (c : Char) : Bool :=
  c.isAlphanum || c = '_' || c = '-'

def isDigit (c : Char) : Bool :=
  '0' ≤ c && c ≤ '9'

-- Whether a text ends here, or goes on with a blank or a line break.
def blankNext : List Char → Bool
  | [] => true
  | c :: _ => isBlank c || isBreak c

def breakNext : List Char → Bool
  | [] => true
  | c :: _ => isBreak c

-- A place in a text: what is left of it, how many characters lie behind, and the line
-- and column.
structure Cursor where
  rest : List Char
  index : Nat
  line : Nat
  column : Nat

namespace Cursor

def start (rest : List Char) : Cursor :=
  ⟨rest, 0, 0, 0⟩

def atEnd (cursor : Cursor) : Bool :=
  cursor.rest.isEmpty

-- Past `count` characters of the same line.
def skip (cursor : Cursor) (count : Nat) : Cursor :=
  { cursor with
    rest := cursor.rest.drop count
    index := cursor.index + count
    column := cursor.column + count }

-- Past the characters of the same line that pass the test.
def skipWhile (cursor : Cursor) (test : Char → Bool) : Cursor :=
  cursor.skip (cursor.rest.takeWhile test).length

-- To the start of the next line, over `count` characters.
def nextLine (cursor : Cursor) (count : Nat) : Cursor :=
  ⟨cursor.rest.drop count, cursor.index + count, cursor.line + 1, 0⟩

-- Past a line break, if one is here, and the character it counts as: only the two
-- separators are kept apart from the ordinary line feed.
def takeBreak (cursor : Cursor) : List Char × Cursor :=
  match cursor.rest with
  | '\r' :: '\n' :: _ => (['\n'], cursor.nextLine 2)
  | c :: _ =>
      if c = '\u2028' ∨ c = '\u2029' then ([c], cursor.nextLine 1)
      else if isBreak c then (['\n'], cursor.nextLine 1)
      else ([], cursor)
  | [] => ([], cursor)

-- Past a comment up to the end of its line.
def skipComment (cursor : Cursor) : Cursor :=
  match cursor.rest with
  | '#' :: _ => cursor.skipWhile fun c => !isBreak c
  | _ => cursor

-- Past blanks, a comment and the line break, where nothing else may stand.
def endLine? (cursor : Cursor) : Option Cursor :=
  let cursor := (cursor.skipWhile isBlank).skipComment
  if breakNext cursor.rest then some cursor.takeBreak.2 else none

-- Whether a line begins here with three of the given character and then a gap.
def atMarker (cursor : Cursor) (mark : Char) : Bool :=
  cursor.column = 0 && cursor.rest.take 3 = [mark, mark, mark] && blankNext (cursor.rest.drop 3)

-- A line that starts or ends a document.
def atDocumentMarker (cursor : Cursor) : Bool :=
  cursor.atMarker '-' || cursor.atMarker '.'

end Cursor

end Dataflow.Yaml
