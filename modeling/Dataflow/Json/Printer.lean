import Dataflow.Decimal.Layout
import Dataflow.Document.Tree
import Dataflow.Text.Escape

namespace Dataflow.Json

-- Numbers of double width: written out in place from 10 ^ -5 and below 10 ^ 16, with a
-- fraction always, and null where there is no number.
def doubleLayout : Layout where
  tieUp := false
  lowest := some (-5)
  highest := some 16
  whole := ".0"
  plus := "+"
  nan := "null"
  infinity := "null"
  minusInfinity := "null"

-- Numbers of single width: in place from 10 ^ -6 and below 10 ^ 13.
def singleLayout : Layout :=
  { doubleLayout with lowest := some (-6), highest := some 13 }

-- One character of a string: quotes, backslashes and control characters are escaped.
def escapeChar (c : Char) : List Char :=
  if c = '"' then ['\\', '"']
  else if c = '\\' then ['\\', '\\']
  else if c = '\x08' then ['\\', 'b']
  else if c = '\x0c' then ['\\', 'f']
  else if c = '\n' then ['\\', 'n']
  else if c = '\r' then ['\\', 'r']
  else if c = '\t' then ['\\', 't']
  else if c.toNat < 0x20 then
    '\\' :: 'u' :: '0' :: '0' ::
      (if c.toNat < 0x10 then '0' :: Text.hexDigits c.toNat else Text.hexDigits c.toNat)
  else [c]

def quoted (text : String) : String :=
  String.ofList ('"' :: text.toList.flatMap escapeChar ++ ['"'])

-- The text of a tree without parts; trees with parts have none of their own.
def leafText : Tree → String
  | .null => "null"
  | .bool truth => if truth then "true" else "false"
  | .int i => toString i
  | .float x => doubleLayout.writeFloat x
  | .single x => singleLayout.writeFloat32 x
  | .text s => quoted s
  | .seq _ => ""
  | .map _ => ""

-- Keys are strings, whatever they were.
def keyText : Tree → String
  | .text s => quoted s
  | tree => "\"" ++ leafText tree ++ "\""

mutual
-- Everything on one line, nothing between the parts but their marks.
def compact : Tree → String
  | .seq items => "[" ++ String.intercalate "," (compactAll [] items) ++ "]"
  | .map fields => "\x7b" ++ String.intercalate "," (compactFields [] fields) ++ "\x7d"
  | tree => leafText tree

def compactAll (done : List String) : List Tree → List String
  | [] => done.reverse
  | item :: rest => compactAll (compact item :: done) rest

def compactFields (done : List String) : List (Tree × Tree) → List String
  | [] => done.reverse
  | (key, value) :: rest => compactFields ((keyText key ++ ":" ++ compact value) :: done) rest
end

-- A line break and the margin of a level.
def newLine (level : Nat) : String :=
  String.ofList ('\n' :: List.replicate (2 * level) ' ')

-- Parts on lines of their own, one level in; no parts leave the brackets together.
def block (opening closing : String) (level : Nat) (parts : List String) : String :=
  if parts.isEmpty then opening ++ closing
  else
    opening ++ newLine (level + 1) ++ String.intercalate ("," ++ newLine (level + 1)) parts ++
      newLine level ++ closing

mutual
-- Every part on its own line, two blanks in for each level.
def pretty (level : Nat) : Tree → String
  | .seq items => block "[" "]" level (prettyAll (level + 1) [] items)
  | .map fields => block "\x7b" "\x7d" level (prettyFields (level + 1) [] fields)
  | tree => leafText tree

def prettyAll (level : Nat) (done : List String) : List Tree → List String
  | [] => done.reverse
  | item :: rest => prettyAll level (pretty level item :: done) rest

def prettyFields (level : Nat) (done : List String) : List (Tree × Tree) → List String
  | [] => done.reverse
  | (key, value) :: rest =>
      prettyFields level ((keyText key ++ ": " ++ pretty level value) :: done) rest
end

end Dataflow.Json
