import Inlay.Text.Basic

/-!
UTF-8 as a decoder of bytes to text. Reading takes one part at a time from the front: a whole
character, or as much as could still have begun one. Each part of the second sort is invalid and
becomes one replacement character, so every sequence of bytes can be read as text.
-/
namespace Inlay

abbrev Bytes := List UInt8

namespace Text

def encode (t : Text) : Bytes :=
  t.flatMap String.utf8EncodeChar

def isContinuation (b : UInt8) : Bool :=
  0x80 ≤ b && b ≤ 0xBF

/--
How a lead byte goes on: the number of continuation bytes, and the least and greatest value of
the first of them, which exclude overlong forms, surrogates and numbers past the last code point.
-/
def leadRange (b : UInt8) : Option (Nat × UInt8 × UInt8) :=
  if 0xC2 ≤ b && b ≤ 0xDF then some (1, 0x80, 0xBF)
  else if b = 0xE0 then some (2, 0xA0, 0xBF)
  else if b = 0xED then some (2, 0x80, 0x9F)
  else if 0xE1 ≤ b && b ≤ 0xEF then some (2, 0x80, 0xBF)
  else if b = 0xF0 then some (3, 0x90, 0xBF)
  else if 0xF1 ≤ b && b ≤ 0xF3 then some (3, 0x80, 0xBF)
  else if b = 0xF4 then some (3, 0x80, 0x8F)
  else none

/-- The number that the low six bits of each continuation byte add to. -/
def withContinuations (n : Nat) (bytes : Bytes) : Nat :=
  bytes.foldl (fun n b => n * 64 + (b.toNat - 0x80)) n

/--
Reads one part: the character, or `none` for an invalid part, and the bytes after it. The part
ends before the first byte that cannot go on with it.
-/
def decodePart (lead : UInt8) (rest : Bytes) : Option Char × Bytes :=
  if lead < 0x80 then (some (Char.ofNat lead.toNat), rest)
  else match leadRange lead, rest with
    | none, _ => (none, rest)
    | some _, [] => (none, [])
    | some (more, lo, hi), second :: rest' =>
      if second < lo || hi < second then (none, rest)
      else
        let tail := (rest'.take (more - 1)).takeWhile isContinuation
        let bits := lead.toNat % (if more = 1 then 32 else if more = 2 then 16 else 8)
        let after := rest'.drop tail.length
        let char? := if tail.length = more - 1 then
            some (Char.ofNat (withContinuations bits (second :: tail)))
          else none
        (char?, after)

theorem decodePart_length_le (lead : UInt8) (rest : Bytes) :
    (decodePart lead rest).2.length ≤ rest.length := by
  unfold decodePart
  split
  · simp
  · split
    · simp
    · simp
    · split
      · simp
      · simp only [List.length_drop, List.length_cons]
        omega

/-- The parts of a byte sequence in order: a character, or `none` for an invalid part. -/
def decodeParts : Bytes → List (Option Char)
  | [] => []
  | lead :: rest =>
    let part := decodePart lead rest
    part.1 :: decodeParts part.2
termination_by bytes => bytes.length
decreasing_by
  have := decodePart_length_le lead rest
  simp only [List.length_cons]
  omega

/-- Text from bytes, with a replacement character for each invalid part. -/
def decodeLossy (bytes : Bytes) : Text :=
  (decodeParts bytes).map fun part => part.getD '\uFFFD'

def decode? (bytes : Bytes) : Option Text :=
  (decodeParts bytes).mapM id

end Text
end Inlay
