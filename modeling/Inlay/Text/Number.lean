import Inlay.Text.Basic

/-!
Decimal numbers of one machine word. A sign `+` may stand in front; the digits are read from the
left, and the first thing that is wrong is what is reported.
-/
namespace Inlay.Text

def wordLimit : Nat := 18446744073709551615

inductive NumberFault where
  | empty
  | invalidDigit
  | tooLarge
  deriving DecidableEq, Repr

def NumberFault.message : NumberFault → Text
  | empty => "cannot parse integer from empty string".toList
  | invalidDigit => "invalid digit found in string".toList
  | tooLarge => "number too large to fit in target type".toList

def withDigit (n : Nat) (c : Char) : Except NumberFault Nat :=
  if !c.isDigit then .error .invalidDigit
  else
    let m := n * 10 + (c.toNat - '0'.toNat)
    if m ≤ wordLimit then .ok m else .error .tooLarge

/-- Reads a number; a sign alone has no digit. -/
def readWord : Text → Except NumberFault Nat
  | [] => .error .empty
  | ['+'] => .error .invalidDigit
  | '+' :: digits => digits.foldlM withDigit 0
  | digits => digits.foldlM withDigit 0

end Inlay.Text
