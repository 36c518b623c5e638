import Inlay.Text.Utf8

/-!
Where a text stands in the bytes of another. No byte inside a character begins one, so a text that
is found among the bytes is found among the characters, and the offset is where one of them begins.
The byte at an offset alone tells whether a character begins there.
-/
namespace Inlay.Text

@[simp] theorem encode_nil : encode [] = [] := rfl

theorem encode_cons (c : Char) (t : Text) :
    encode (c :: t) = String.utf8EncodeChar c ++ encode t := rfl

@[simp] theorem encode_append (t u : Text) : encode (t ++ u) = encode t ++ encode u := by
  simp [encode]

@[simp] theorem length_encode (t : Text) : (encode t).length = size t := by
  induction t with
  | nil => rfl
  | cons c t ih => rw [encode_cons, List.length_append, String.length_utf8EncodeChar, ih, size_cons]

theorem head_eq_of_append_eq {c d : Char} {rest rest' : Bytes}
    (h : String.utf8EncodeChar c ++ rest = String.utf8EncodeChar d ++ rest') :
    c = d ∧ rest = rest' := by
  have hread := congrArg (fun bytes : Bytes => bytes.toByteArray.utf8DecodeChar? 0) h
  simp only [List.toByteArray_append, ByteArray.utf8DecodeChar?_utf8EncodeChar_append] at hread
  obtain rfl : c = d := Option.some.inj hread
  exact ⟨rfl, List.append_cancel_left h⟩

theorem encode_prefix_encode_iff {t u : Text} : encode t <+: encode u ↔ t <+: u := by
  constructor
  · rintro ⟨rest, h⟩
    induction t generalizing u with
    | nil => exact List.nil_prefix
    | cons c t ih =>
      cases u with
      | nil =>
        have hsize := congrArg List.length h
        have hc := c.utf8Size_pos
        simp only [List.length_append, length_encode, size_cons, size_nil] at hsize
        omega
      | cons d u =>
        rw [encode_cons, encode_cons, List.append_assoc] at h
        obtain ⟨rfl, hrest⟩ := head_eq_of_append_eq h
        exact List.prefix_cons_inj c |>.2 (ih hrest)
  · rintro ⟨rest, rfl⟩
    rw [encode_append]
    exact List.prefix_append _ _

/-- The bytes of the piece stand among the bytes of the text at an offset. -/
def StandsAt (piece t : Text) (offset : Nat) : Prop :=
  encode piece <+: (encode t).drop offset

theorem not_prefix_drop_utf8EncodeChar {piece : Text} (hpiece : piece ≠ []) {c : Char}
    {offset : Nat}
    (hpos : 0 < offset) (hlt : offset < c.utf8Size) (rest : Bytes) :
    ¬ encode piece <+: (String.utf8EncodeChar c).drop offset ++ rest := by
  rintro ⟨tail, h⟩
  obtain ⟨d, piece, rfl⟩ := List.exists_cons_of_ne_nil hpiece
  have hin : offset < (String.utf8EncodeChar c).length := by
    rwa [String.length_utf8EncodeChar]
  have hfirst : 0 < (String.utf8EncodeChar d).length := by
    rw [String.length_utf8EncodeChar]
    exact d.utf8Size_pos
  have hleft : 0 < ((String.utf8EncodeChar c).drop offset).length := by
    rw [List.length_drop]
    omega
  have hbyte : (String.utf8EncodeChar d)[0] = (String.utf8EncodeChar c)[offset] := by
    have hget := congrArg (·[0]?) h
    simp only [encode_cons, List.append_assoc] at hget
    rw [List.getElem?_append_left hfirst, List.getElem?_append_left hleft, List.getElem?_drop,
      Nat.add_zero, List.getElem?_eq_getElem hfirst, List.getElem?_eq_getElem hin] at hget
    exact Option.some.inj hget
  have hbegins : (String.utf8EncodeChar c)[offset].IsUTF8FirstByte := by
    rw [← hbyte]
    exact UInt8.isUTF8FirstByte_getElem_zero_utf8EncodeChar
  rw [UInt8.isUTF8FirstByte_getElem_utf8EncodeChar] at hbegins
  omega

theorem standsAt_iff {piece t : Text} (hpiece : piece ≠ []) {offset : Nat} :
    piece.StandsAt t offset ↔
      ∃ before after, t = before ++ (piece ++ after) ∧ size before = offset := by
  constructor
  · intro h
    unfold StandsAt at h
    induction t generalizing offset with
    | nil =>
      rw [encode_nil, List.drop_nil, List.prefix_nil] at h
      rw [← encode_nil] at h
      have hnil : piece <+: [] := encode_prefix_encode_iff.1 (h ▸ List.prefix_rfl)
      exact absurd (List.prefix_nil.1 hnil) hpiece
    | cons c t ih =>
      rcases Nat.eq_zero_or_pos offset with rfl | hpos
      · obtain ⟨after, hafter⟩ := encode_prefix_encode_iff.1 h
        exact ⟨[], after, hafter.symm, rfl⟩
      · rw [encode_cons, List.drop_append, String.length_utf8EncodeChar] at h
        rcases Nat.lt_or_ge offset c.utf8Size with hlt | hge
        · -- No piece begins inside a character.
          exact absurd h (not_prefix_drop_utf8EncodeChar hpiece hpos hlt _)
        · rw [List.drop_eq_nil_of_le (by simpa using hge), List.nil_append] at h
          obtain ⟨before, after, rfl, hsize⟩ := ih h
          refine ⟨c :: before, after, rfl, ?_⟩
          rw [size_cons, hsize]
          omega
  · rintro ⟨before, after, rfl, rfl⟩
    unfold StandsAt
    rw [encode_append, ← length_encode, List.drop_left, encode_append]
    exact List.prefix_append _ _

/-- A character begins at the byte offset, as its byte there shows, or the text ends there. -/
def IsBoundary (t : Text) (offset : Nat) : Prop :=
  offset = t.size ∨ ∃ b ∈ (encode t)[offset]?, b.IsUTF8FirstByte

theorem getElem?_encode_append_cons (before : Text) (c : Char) (after : Text) :
    (encode (before ++ c :: after))[size before]? = (String.utf8EncodeChar c)[0]? := by
  have hfirst : 0 < (String.utf8EncodeChar c).length := by
    rw [String.length_utf8EncodeChar]
    exact c.utf8Size_pos
  rw [encode_append, encode_cons, List.getElem?_append_right (by simp), length_encode, Nat.sub_self,
    List.getElem?_append_left hfirst]

theorem eq_zero_of_isUTF8FirstByte {c : Char} {t : Text} {offset : Nat} (hlt : offset < c.utf8Size)
    {b : UInt8} (hb : (encode (c :: t))[offset]? = some b) (hfirst : b.IsUTF8FirstByte) :
    offset = 0 := by
  have hin : offset < (String.utf8EncodeChar c).length := by
    rwa [String.length_utf8EncodeChar]
  rw [encode_cons, List.getElem?_append_left hin, List.getElem?_eq_getElem hin] at hb
  obtain rfl := Option.some.inj hb
  exact UInt8.isUTF8FirstByte_getElem_utf8EncodeChar.1 hfirst

theorem isBoundary_iff {t : Text} {offset : Nat} :
    t.IsBoundary offset ↔ ∃ before after, t = before ++ after ∧ size before = offset := by
  constructor
  · intro h
    -- Along the text: an offset past the first character is one in the rest.
    induction t generalizing offset with
    | nil =>
      rcases h with rfl | ⟨b, hb, -⟩
      · exact ⟨[], [], rfl, rfl⟩
      · simp at hb
    | cons c t ih =>
      rcases Nat.lt_or_ge offset c.utf8Size with hlt | hge
      · have hzero : offset = 0 := by
          rcases h with rfl | ⟨b, hb, hfirst⟩
          · rw [size_cons] at hlt
            omega
          · exact eq_zero_of_isUTF8FirstByte hlt hb hfirst
        exact ⟨[], c :: t, rfl, hzero.symm⟩
      · have hrest : IsBoundary t (offset - c.utf8Size) := by
          rcases h with rfl | ⟨b, hb, hfirst⟩
          · left
            rw [size_cons]
            omega
          · right
            have hle : (String.utf8EncodeChar c).length ≤ offset := by
              rwa [String.length_utf8EncodeChar]
            rw [encode_cons, List.getElem?_append_right hle, String.length_utf8EncodeChar] at hb
            exact ⟨b, hb, hfirst⟩
        obtain ⟨before, after, rfl, hsize⟩ := ih hrest
        refine ⟨c :: before, after, rfl, ?_⟩
        rw [size_cons, hsize]
        omega
  · rintro ⟨before, after, rfl, rfl⟩
    cases after with
    | nil =>
      left
      rw [List.append_nil]
    | cons c after =>
      right
      have hfirst : 0 < (String.utf8EncodeChar c).length := by
        rw [String.length_utf8EncodeChar]
        exact c.utf8Size_pos
      refine ⟨(String.utf8EncodeChar c)[0], ?_, UInt8.isUTF8FirstByte_getElem_zero_utf8EncodeChar⟩
      rw [Option.mem_def, getElem?_encode_append_cons, List.getElem?_eq_getElem hfirst]

end Inlay.Text
