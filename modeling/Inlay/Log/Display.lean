import Inlay.Log

namespace Inlay.Log

def paint (coloured : Bool) (code : Nat) (t : Text) : Text :=
  if coloured then s!"\x1b[{code}m".toList ++ t ++ "\x1b[0m".toList else t

namespace Level

def colour : Level → Nat
  | error => 31
  | warn => 33
  | info => 32
  | debug => 34
  | trace => 35

def column (l : Level) : Text :=
  List.replicate (5 - l.label.length) ' ' ++ l.label.toList

end Level

/-- The code of the faint style, in which time stamps are shown. -/
def faint : Nat := 2

/-- Control characters that could act on a terminal are written out. -/
def shownChar (c : Char) : Text :=
  if c = '\x1b' then "\\x1b".toList
  else if c = '\x07' then "\\x07".toList
  else if c = '\x08' then "\\x08".toList
  else if c = '\x0c' then "\\x0c".toList
  else if c = '\x7f' then "\\x7f".toList
  else if '\u0080' ≤ c && c ≤ '\u009f' then
    "\\u\x7b".toList ++ Nat.toDigits 16 c.toNat ++ ['\x7d']
  else [c]

def Line.shown (coloured : Bool) (stamp : Text) (l : Line) : Text :=
  paint coloured faint stamp ++ [' '] ++ paint coloured l.level.colour l.level.column ++ [' '] ++
    l.message.flatMap shownChar

end Inlay.Log
