import Concord.Text.Digits
import Concord.Text.Visible

/-!
Text between double quotes, in which everything that would not be seen is written as an escape.
-/

namespace Concord.Text

def escapeChar (c : Char) : List Char :=
  if c = '\x00' then ['\\', '0']
  else if c = '\t' then ['\\', 't']
  else if c = '\r' then ['\\', 'r']
  else if c = '\n' then ['\\', 'n']
  else if c = '"' then ['\\', '"']
  else if c = '\\' then ['\\', '\\']
  else if isJoining c || isHidden c then
    "\\u\x7b".toList ++ (hexText c.toNat).toList ++ ['\x7d']
  else [c]

def quoted (s : String) : String :=
  String.ofList ('"' :: s.toList.flatMap escapeChar ++ ['"'])

end Concord.Text
