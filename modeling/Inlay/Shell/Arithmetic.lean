import Inlay.Shell.Lexer

namespace Inlay.Shell.Arithmetic

inductive Token where
  | number (n : Int)
  | operator (o : String)
  deriving DecidableEq, Repr

def operators : List String :=
  ["||", "&&", "==", "!=", "<=", ">=", "<<", ">>", "<", ">", "+", "-", "*", "/", "%", "!", "~",
    "(", ")", "&", "|", "^"]

/-- The number that digits write; a leading zero means octal, `0x` hexadecimal. -/
def literal (t : Text) : Int :=
  let digit (c : Char) : Nat := if c.isDigit then c.toNat - 48 else c.toLower.toNat - 87
  match t with
  | '0' :: 'x' :: hex => hex.foldl (fun n c => n * 16 + (digit c : Int)) 0
  | '0' :: oct => oct.foldl (fun n c => n * 8 + (digit c : Int)) 0
  | dec => dec.foldl (fun n c => n * 10 + (digit c : Int)) 0

/-- The tokens of an expression, with `value` for its variables. -/
def tokens (value : Text → Int) : (limit : Nat) → Text → Option (List Token)
  | 0, _ => none
  | _, [] => some []
  | limit + 1, c :: t =>
    if c.isWhitespace || c = '$' then tokens value limit t
    else if c.isDigit then
      let digits := (c :: t).takeWhile Char.isAlphanum
      (tokens value limit ((c :: t).drop digits.length)).map (.number (literal digits) :: ·)
    else if isNameStart c then
      let name := (c :: t).takeWhile isNameChar
      (tokens value limit ((c :: t).drop name.length)).map (.number (value name) :: ·)
    else match operators.find? fun o => o.toList.isPrefixOf (c :: t) with
      | some o => (tokens value limit ((c :: t).drop o.length)).map (.operator o :: ·)
      | none => none

def rank? (o : String) : Option Nat :=
  if o = "||" then some 1 else if o = "&&" then some 2
  else if o = "|" then some 3 else if o = "^" then some 4 else if o = "&" then some 5
  else if o ∈ ["==", "!="] then some 6
  else if o ∈ ["<", "<=", ">", ">="] then some 7
  else if o ∈ ["<<", ">>"] then some 8
  else if o ∈ ["+", "-"] then some 9
  else if o ∈ ["*", "/", "%"] then some 10
  else none

def truth (b : Bool) : Int := if b then 1 else 0

def apply (o : String) (a b : Int) : Option Int :=
  match o with
  | "||" => some (truth (a ≠ 0 || b ≠ 0))
  | "&&" => some (truth (a ≠ 0 && b ≠ 0))
  | "==" => some (truth (a = b))
  | "!=" => some (truth (a ≠ b))
  | "<" => some (truth (a < b))
  | "<=" => some (truth (a ≤ b))
  | ">" => some (truth (a > b))
  | ">=" => some (truth (a ≥ b))
  | "+" => some (a + b)
  | "-" => some (a - b)
  | "*" => some (a * b)
  | "/" => if b = 0 then none else some (a.tdiv b)
  | "%" => if b = 0 then none else some (a.tmod b)
  | "<<" => some (a * Nat.shiftLeft 1 b.toNat)
  | ">>" => some (a / Nat.shiftLeft 1 b.toNat)
  | "&" => some (Nat.land a.toNat b.toNat : Nat)
  | "|" => some (Nat.lor a.toNat b.toNat : Nat)
  | "^" => some (Nat.xor a.toNat b.toNat : Nat)
  | _ => none

mutual

def operand : (limit : Nat) → List Token → Option (Int × List Token)
  | 0, _ => none
  | _, .number n :: rest => some (n, rest)
  | limit + 1, .operator "-" :: rest => (operand limit rest).map fun (n, r) => (-n, r)
  | limit + 1, .operator "+" :: rest => operand limit rest
  | limit + 1, .operator "!" :: rest => (operand limit rest).map fun (n, r) => (truth (n = 0), r)
  | limit + 1, .operator "~" :: rest => (operand limit rest).map fun (n, r) => (-n - 1, r)
  | limit + 1, .operator "(" :: rest =>
    match expression limit 1 rest with
    | some (n, .operator ")" :: rest) => some (n, rest)
    | _ => none
  | _, _ => none

/-- An expression of operators that bind at least as tightly as a rank. -/
def expression : (limit : Nat) → (rank : Nat) → List Token → Option (Int × List Token)
  | 0, _, _ => none
  | limit + 1, rank, ts => do
    let (n, rest) ← operand limit ts
    climb limit rank n rest

def climb : (limit : Nat) → (rank : Nat) → Int → List Token → Option (Int × List Token)
  | limit + 1, rank, n, .operator o :: rest =>
    match rank? o with
    | none => some (n, .operator o :: rest)
    | some r =>
      if r < rank then some (n, .operator o :: rest)
      else do
        let (m, rest) ← expression limit (r + 1) rest
        climb limit rank (← apply o n m) rest
  | _, _, n, rest => some (n, rest)

end

/-- The value of an expression; an empty one is zero. -/
def value? (value : Text → Int) (t : Text) : Option Int := do
  let ts ← tokens value (t.length + 1) t
  if ts.isEmpty then some 0
  else match expression (2 * ts.length + 8) 1 ts with
    | some (n, []) => some n
    | _ => none

end Inlay.Shell.Arithmetic
