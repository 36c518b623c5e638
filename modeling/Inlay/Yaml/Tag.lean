import Inlay.Yaml.Scalar

/-!
Tags and directives. A tag is a stretch of octets, in which percent signs escape single octets, and
it may begin with a handle that stands for a longer beginning.
-/
namespace Inlay.Yaml

/-- The characters of an address; one that ends at a mark of its own may have more of them. -/
def isAddressChar (marked : Bool) (c : Char) : Bool :=
  isNameChar c || c ∈ ";/?:@&=+$.!~*'()".toList || (marked && c ∈ ",[]".toList)

/-- How many octets a character has that begins with this one. -/
def octets? (first : Nat) : Option Nat :=
  if first < 0x80 then some 1
  else if first < 0xC0 then none
  else if first < 0xE0 then some 2
  else if first < 0xF0 then some 3
  else if first < 0xF8 then some 4
  else none

/-- How many escaped octets must still follow one, when so many were due before it. -/
def stillDue? (due octet : Nat) : Option Nat :=
  if due = 0 then (octets? octet).map (· - 1)
  else if 0x80 ≤ octet && octet < 0xC0 then some (due - 1)
  else none

/-- The octets of an address, and what follows it; escaped characters are escaped as a whole. -/
def address? (marked : Bool) (due : Nat) : Text → Option (Bytes × Text)
  | [] => if due = 0 then some ([], []) else none
  | '%' :: a :: b :: rest => do
    let octet := 16 * (← hexDigit? a) + (← hexDigit? b)
    let (octets, after) ← address? marked (← stillDue? due octet) rest
    return (UInt8.ofNat octet :: octets, after)
  | c :: rest =>
    if due ≠ 0 || c = '%' then none
    else if isAddressChar marked c then
      (address? marked 0 rest).map fun (octets, after) => (Text.encode [c] ++ octets, after)
    else some ([], c :: rest)

/-- A tag after its exclamation mark, and what follows it. -/
def tag? (t : Text) : Option (Token × Text) :=
  match t with
  | '<' :: rest =>
    match address? true 0 rest with
    | some (full@(_ :: _), '>' :: after) => some (.tag [] full, after)
    | _ => none
  | _ =>
    let word := t.takeWhile isNameChar
    match t.drop word.length with
    | '!' :: rest =>
      match address? false 0 rest with
      | some (name@(_ :: _), after) => some (.tag ('!' :: word ++ ['!']) name, after)
      | _ => none
    | _ => (address? false 0 t).map fun (name, after) =>
      (if name = [] then .tag [] (Text.encode ['!']) else .tag ['!'] name, after)

def versionNumber? (t : Text) : Option (Nat × Text) :=
  let digits := t.takeWhile Char.isDigit
  if digits = [] || 9 < digits.length then none
  else some (digits.foldl (fun n c => n * 10 + (c.toNat - '0'.toNat)) 0, t.drop digits.length)

def version? (t : Text) : Option (Token × Text) := do
  let (major, rest) ← versionNumber? t
  let (minor, after) ← versionNumber? (← Text.after? ['.'] rest)
  if major = 1 && (minor = 1 || minor = 2) then return (.version, after) else none

def family? (t : Text) : Option (Token × Text) := do
  let rest ← Text.after? ['!'] t
  let word := rest.takeWhile isNameChar
  let (handle, rest) ← match rest.drop word.length with
    | '!' :: rest => some ('!' :: word ++ ['!'], rest)
    | rest => if word = [] then some (['!'], rest) else none
  let (stem, after) ← address? true 0 (rest.dropWhile isBlank)
  if rest.head?.any isBlank && stem ≠ [] && atGap after then return (.family handle stem, after)
  else none

/-- A directive after its percent sign, and what follows it. -/
def directive? (line : Text) : Option (Token × Text) :=
  let name := line.takeWhile isNameChar
  let value := line.drop name.length
  if !atGap value then none
  else if name = "YAML".toList then version? (value.dropWhile isBlank)
  else if name = "TAG".toList then family? (value.dropWhile isBlank)
  else none

end Inlay.Yaml
