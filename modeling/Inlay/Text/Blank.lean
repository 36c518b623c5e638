import Inlay.Text.Basic

/-!
White space: the 25 characters with the property `White_Space`. The zero-width space, the byte
order mark and the separators U+001C to U+001F are not among them.
-/
namespace Inlay.Text

def isBlank (c : Char) : Bool :=
  let n := c.toNat
  (9 ≤ n && n ≤ 13) || n = 0x20 || n = 0x85 || n = 0xA0 || n = 0x1680 ||
    (0x2000 ≤ n && n ≤ 0x200A) || n = 0x2028 || n = 0x2029 || n = 0x202F || n = 0x205F ||
    n = 0x3000

def trimBlank (t : Text) : Text :=
  t.trim isBlank

end Inlay.Text
