import Inlay.Marker.Stray
import Inlay.Proofs.Text.Bytes
import Inlay.Proofs.Text.Slice

namespace Inlay

/--
The byte offsets at which the characters of a text begin, when the text itself begins at `start`.
-/
def Text.offsets (start : Nat) : Text → List Nat
  | [] => []
  | c :: t => start :: offsets (start + c.utf8Size) t

theorem Text.getElem?_offsets (start : Nat) (t : Text) (n : Nat) :
    (offsets start t)[n]? = if n < t.length then some (start + size (t.take n)) else none := by
  induction t generalizing start n with
  | nil => rfl
  | cons c t ih =>
    cases n with
    | zero => simp [offsets]
    | succ n =>
      rw [offsets, List.getElem?_cons_succ, ih]
      simp only [List.length_cons, Nat.add_lt_add_iff_right, List.take_succ_cons, size_cons,
        Nat.add_assoc]

namespace Marker

def lineAt (t : Text) (offset : Nat) : Text :=
  ((Text.fromByte? t offset).getD []).takeWhile (· ≠ '\n')

/--
The byte offset at which the snippet ends: where its line has one character too many, or ends.
-/
def snippetStop (t : Text) (offset : Nat) : Nat :=
  ((lineAt t offset).offsets offset)[snippetLength]?.getD (offset + (lineAt t offset).size)

theorem snippetAt_eq (t : Text) (offset : Nat) :
    snippetAt t offset = (lineAt t offset).take snippetLength := rfl

theorem snippetStop_eq (t : Text) (offset : Nat) :
    snippetStop t offset = offset + (snippetAt t offset).size := by
  rw [snippetStop, Text.getElem?_offsets, snippetAt_eq]
  split
  · rfl
  · rename_i hshort
    rw [List.take_of_length_le (Nat.le_of_not_lt hshort)]
    rfl

theorem snippetAt_begins (before rest : Text) :
    snippetAt (before ++ rest) before.size <+: rest := by
  rw [snippetAt_eq, lineAt, Text.fromByte?_append]
  exact (List.take_prefix _ _).trans (List.takeWhile_prefix _)

theorem newline_not_mem_snippetAt (t : Text) (offset : Nat) : '\n' ∉ snippetAt t offset := by
  intro h
  rw [snippetAt_eq, lineAt] at h
  have hline := List.mem_takeWhile_imp (List.mem_of_mem_take h)
  exact of_decide_eq_true hline rfl

theorem length_snippetAt_le (t : Text) (offset : Nat) : (snippetAt t offset).length ≤ 24 :=
  List.length_take_le snippetLength _

/--
A beginning of the rest that has no line end and is no longer than a snippet begins the snippet.
-/
theorem begins_snippetAt {before piece rest : Text} (hpiece : piece <+: rest)
    (hline : '\n' ∉ piece) (hlength : piece.length ≤ 24) :
    piece <+: snippetAt (before ++ rest) before.size := by
  obtain ⟨after, rfl⟩ := hpiece
  have hall : ∀ c ∈ piece, decide (c ≠ '\n') = true := by
    intro c hc
    refine decide_eq_true ?_
    rintro rfl
    exact hline hc
  rw [snippetAt_eq, lineAt, Text.fromByte?_append, Option.getD_some,
    List.takeWhile_append_of_pos hall, List.take_append]
  apply List.prefix_append_of_prefix
  exact (List.take_of_length_le hlength).symm ▸ List.prefix_rfl

/--
Where a character begins or the text ends, the snippet is the longest piece of the text that stands
there with no line end and at most 24 characters, and the byte offset that it is cut at is no place
inside a character. At all other offsets there is no snippet.
-/
theorem snippetAt_longest (t : Text) (offset : Nat) :
    (t.IsBoundary offset →
      t.slice? offset (snippetStop t offset) = some (snippetAt t offset) ∧
      t.IsBoundary (snippetStop t offset) ∧
      (snippetAt t offset).StandsAt t offset ∧
      '\n' ∉ snippetAt t offset ∧ (snippetAt t offset).length ≤ 24 ∧
      ∀ piece : Text, piece.StandsAt t offset → '\n' ∉ piece → piece.length ≤ 24 →
        piece <+: snippetAt t offset) ∧
    (¬ t.IsBoundary offset → snippetAt t offset = []) := by
  constructor
  · intro hboundary
    obtain ⟨before, rest, rfl, rfl⟩ := Text.isBoundary_iff.1 hboundary
    obtain ⟨after, hafter⟩ := snippetAt_begins before rest
    have hslice : (before ++ rest).slice? before.size (snippetStop (before ++ rest) before.size) =
        some (snippetAt (before ++ rest) before.size) := by
      rw [snippetStop_eq]
      refine Text.slice?_eq_some_iff.2 ⟨before, after, ?_, rfl, rfl⟩
      rw [hafter]
    have hstop : (before ++ rest).IsBoundary (snippetStop (before ++ rest) before.size) := by
      refine Text.isBoundary_iff.2 ⟨before ++ snippetAt (before ++ rest) before.size, after, ?_, ?_⟩
      · rw [List.append_assoc, hafter]
      · rw [Text.size_append, snippetStop_eq]
    -- A piece that stands at a boundary is one that the rest of the text begins with.
    have hdrop : (Text.encode (before ++ rest)).drop before.size = Text.encode rest := by
      rw [Text.encode_append, ← Text.length_encode, List.drop_left]
    have hstands :
        (snippetAt (before ++ rest) before.size).StandsAt (before ++ rest) before.size := by
      rw [Text.StandsAt, hdrop]
      exact Text.encode_prefix_encode_iff.2 (snippetAt_begins before rest)
    refine ⟨hslice, hstop, hstands, newline_not_mem_snippetAt _ _, length_snippetAt_le _ _, ?_⟩
    intro piece hpiece hline hlength
    rw [Text.StandsAt, hdrop] at hpiece
    exact begins_snippetAt (Text.encode_prefix_encode_iff.1 hpiece) hline hlength
  · intro hinside
    have hnone : Text.fromByte? t offset = none := by
      rw [Option.eq_none_iff_forall_not_mem]
      intro rest hrest
      obtain ⟨before, ht, hsize⟩ := Text.fromByte?_eq_some_iff.1 hrest
      exact hinside (Text.isBoundary_iff.2 ⟨before, rest, ht, hsize⟩)
    rw [snippetAt_eq, lineAt, hnone]
    rfl

/-- A letter before a long line of three-byte characters. -/
def euros : Text := 'a' :: List.replicate 30 '€'

/-- Behind the letter the snippet ends 72 bytes on; one byte further in there is no snippet. -/
theorem snippetAt_longest_euros :
    euros.IsBoundary 1 ∧ euros.slice? 1 73 = some (snippetAt euros 1) ∧ euros.IsBoundary 73 ∧
      ['€', '€'] <+: snippetAt euros 1 ∧ ¬ euros.IsBoundary 2 ∧ snippetAt euros 2 = [] := by
  have hstart : euros.IsBoundary 1 :=
    Text.isBoundary_iff.2 ⟨['a'], List.replicate 30 '€', rfl, rfl⟩
  have hinside : ¬ euros.IsBoundary 2 := by
    rintro (h | ⟨b, hb, hfirst⟩)
    · exact absurd h (by decide)
    · obtain rfl : 0x82 = b := Option.some.inj hb
      exact absurd hfirst (by unfold UInt8.IsUTF8FirstByte; decide)
  have hstands : Text.StandsAt ['€', '€'] euros 1 :=
    (Text.standsAt_iff (by decide)).2 ⟨['a'], List.replicate 28 '€', rfl, rfl⟩
  have hstop : snippetStop euros 1 = 73 := by decide
  obtain ⟨hslice, hboundary, -, -, -, hlongest⟩ := (snippetAt_longest euros 1).1 hstart
  rw [hstop] at hslice hboundary
  exact ⟨hstart, hslice, hboundary, hlongest ['€', '€'] hstands (by decide) (by decide), hinside,
    (snippetAt_longest euros 2).2 hinside⟩

end Marker
end Inlay
