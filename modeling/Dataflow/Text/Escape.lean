import Dataflow.Text.Printable
import Dataflow.Text.Extending

namespace Dataflow.Text

-- The hexadecimal digits of a number in lower case, without zeros in front.
def hexDigits (n : Nat) : List Char :=
  Nat.toDigits 16 n

-- One character as it is shown between quotes: what would break the quotes, has no
-- picture or joins its neighbour is spelled out.
def escapeChar (c : Char) : List Char :=
  if c = '"' then ['\\', '"']
  else if c = '\\' then ['\\', '\\']
  else if c = '\n' then ['\\', 'n']
  else if c = '\r' then ['\\', 'r']
  else if c = '\t' then ['\\', 't']
  else if c = '\x00' then ['\\', '0']
  else if isPrintable c && !isExtending c then [c]
  else ['\\', 'u', '\x7b'] ++ hexDigits c.toNat ++ ['\x7d']

def quoted (text : String) : String :=
  String.ofList ('"' :: text.toList.flatMap escapeChar ++ ['"'])

end Dataflow.Text
