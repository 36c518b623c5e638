import Inlay.Text.Utf8

/-!
Streams of bytes between programs: so many bytes, and then perhaps others that come again and again
without end. A reader that wants only a part of an endless stream gets it.
-/
namespace Inlay

structure Stream where
  head : Bytes := []
  /-- What repeats without end after the head; empty for a stream that ends. -/
  cycle : Bytes := []
  deriving DecidableEq, Repr

namespace Stream

def ofText (t : Text) : Stream := ⟨Text.encode t, []⟩

def ofString (s : String) : Stream := ofText s.toList

def isEndless (s : Stream) : Bool := s.cycle ≠ []

/-- One stream after the other; nothing comes after an endless one. -/
def append (s u : Stream) : Stream :=
  if s.isEndless then s else ⟨s.head ++ u.head, u.cycle⟩

def map (f : UInt8 → UInt8) (s : Stream) : Stream := ⟨s.head.map f, s.cycle.map f⟩

def filter (p : UInt8 → Bool) (s : Stream) : Stream := ⟨s.head.filter p, s.cycle.filter p⟩

/-- The head of the stream with its cycle written out so many times. -/
def unrolled (s : Stream) (times : Nat) : Bytes :=
  s.head ++ (List.replicate times s.cycle).flatten

def takeBytes (n : Nat) (s : Stream) : Bytes :=
  (s.unrolled (if n ≤ s.head.length then 0 else n)).take n

def newline : UInt8 := 10

/-- The lines of a byte sequence, each with its newline; only the last may lack one. -/
def lines (b : Bytes) : List Bytes :=
  let (last, done) := b.foldl (fun (line, done) c =>
    if c = newline then ([], (c :: line).reverse :: done) else (c :: line, done)) ([], [])
  (if last = [] then done else last.reverse :: done).reverse

def takeLines (n : Nat) (s : Stream) : Bytes :=
  ((lines (s.unrolled (if s.isEndless then n else 0))).take n).flatten

end Stream
end Inlay
