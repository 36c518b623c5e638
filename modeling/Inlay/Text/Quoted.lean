import Inlay.Text.Basic
import Inlay.Text.Unprintable
import Inlay.Text.Combining

namespace Inlay.Text.Quoted

/-- The escape for one character, a code point in lower-case hexadecimal if it has no letter. -/
def encodeChar (c : Char) : Text :=
  if c = '"' then ['\\', '"']
  else if c = '\\' then ['\\', '\\']
  else if c = '\t' then ['\\', 't']
  else if c = '\r' then ['\\', 'r']
  else if c = '\n' then ['\\', 'n']
  else if c = '\x00' then ['\\', '0']
  else if isUnprintable c || isCombining c then
    ['\\', 'u', '\x7b'] ++ Nat.toDigits 16 c.toNat ++ ['\x7d']
  else [c]

def encode (t : Text) : Text :=
  ['"'] ++ t.flatMap encodeChar ++ ['"']

end Inlay.Text.Quoted
