/-!
Text as a list of characters. Positions in a text are byte offsets of its UTF-8 form, so the
measure of a text is its size in bytes and a position is the size of what stands before it.
-/
namespace Inlay

abbrev Text := List Char

namespace Text

def size : Text → Nat
  | [] => 0
  | c :: t => c.utf8Size + size t

@[simp] theorem size_nil : size [] = 0 := rfl

@[simp] theorem size_cons (c : Char) (t : Text) : size (c :: t) = c.utf8Size + size t := rfl

@[simp] theorem size_append (t u : Text) : size (t ++ u) = size t + size u := by
  induction t with
  | nil => simp
  | cons c t ih => simp [ih, Nat.add_assoc]

/-- What stands from a byte offset on. There is nothing past the end or inside a character. -/
def fromByte? : Text → Nat → Option Text
  | t, 0 => some t
  | [], _ + 1 => none
  | c :: t, n + 1 => if c.utf8Size ≤ n + 1 then fromByte? t (n + 1 - c.utf8Size) else none

@[simp] theorem fromByte?_zero (t : Text) : t.fromByte? 0 = some t := by
  cases t <;> rfl

theorem fromByte?_append (t u : Text) : fromByte? (t ++ u) t.size = some u := by
  induction t with
  | nil => simp
  | cons c t ih =>
    have hc := c.utf8Size_pos
    obtain ⟨n, hn⟩ : ∃ n, c.utf8Size + size t = n + 1 := ⟨c.utf8Size + size t - 1, by omega⟩
    rw [List.cons_append, size_cons, hn, fromByte?, if_pos (by omega)]
    rw [show n + 1 - c.utf8Size = size t by omega, ih]

/-- The rest of a text after a head that it begins with. -/
def after? : Text → Text → Option Text
  | [], t => some t
  | _ :: _, [] => none
  | a :: head, c :: t => if a = c then after? head t else none

theorem after?_eq_some_iff {head t rest : Text} :
    after? head t = some rest ↔ t = head ++ rest := by
  induction head generalizing t with
  | nil => simp [after?]
  | cons a head ih =>
    cases t with
    | nil => simp [after?]
    | cons c t =>
      by_cases h : a = c
      · simp [after?, h, ih]
      · simp [after?, h, Ne.symm h]

/--
The byte offsets at which a pattern stands in the text, when the text itself begins at `start`.
-/
def occurrences (pattern : Text) (start : Nat) : Text → List Nat
  | [] => if pattern = [] then [start] else []
  | c :: t =>
    if pattern.isPrefixOf (c :: t) then start :: occurrences pattern (start + c.utf8Size) t
    else occurrences pattern (start + c.utf8Size) t

/-- The text cut at every occurrence of a character, which is itself left out. -/
def cutAt (sep : Char) (t : Text) : List Text :=
  t.foldr (fun c pieces =>
    if c = sep then [] :: pieces
    else match pieces with
      | [] => [[c]]
      | piece :: rest => (c :: piece) :: rest) [[]]

/-- The pieces written one after the other with a separator between them. -/
def joinWith (sep : Text) : List Text → Text
  | [] => []
  | [t] => t
  | t :: u :: rest => t ++ sep ++ joinWith sep (u :: rest)

/-- The order of the code points, character by character. -/
def notAfter : Text → Text → Bool
  | [], _ => true
  | _ :: _, [] => false
  | a :: t, b :: u => a.toNat < b.toNat || (a = b && notAfter t u)

/-- Everything but a trailing run of characters of a class. -/
def trimEnd (inClass : Char → Bool) (t : Text) : Text :=
  (t.reverse.dropWhile inClass).reverse

/-- Everything but the runs of characters of a class at both ends. -/
def trim (inClass : Char → Bool) (t : Text) : Text :=
  trimEnd inClass (t.dropWhile inClass)

end Text
end Inlay
