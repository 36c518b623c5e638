import Mathlib.Data.List.Basic
import Mathlib.Data.List.TakeWhile
import Inlay.Proofs.Text.Bytes

namespace Inlay.Text

section Encoding

variable {n : Nat}

theorem toNat_val_ofNat (h : n.isValidChar) : (Char.ofNat n).val.toNat = n := by
  rw [Char.ofNat, dif_pos h]
  rfl

theorem utf8EncodeChar_one (h : n < 0x80) :
    String.utf8EncodeChar (Char.ofNat n) = [UInt8.ofNat n] := by
  rw [String.utf8EncodeChar, toNat_val_ofNat (.inl (by omega)), if_pos (by omega)]

theorem utf8EncodeChar_two (h : 0x80 ≤ n) (h' : n < 0x800) :
    String.utf8EncodeChar (Char.ofNat n) =
      [UInt8.ofNat (n / 64 + 0xC0), UInt8.ofNat (n % 64 + 0x80)] := by
  have hlead : n / 64 % 32 = n / 64 := by omega
  rw [String.utf8EncodeChar, toNat_val_ofNat (.inl (by omega)), if_neg (by omega),
    if_pos (by omega), hlead]

theorem utf8EncodeChar_three (h : 0x800 ≤ n) (h' : n < 0x10000) (hvalid : n.isValidChar) :
    String.utf8EncodeChar (Char.ofNat n) =
      [UInt8.ofNat (n / 4096 + 0xE0), UInt8.ofNat (n / 64 % 64 + 0x80),
        UInt8.ofNat (n % 64 + 0x80)] := by
  have hlead : n / 4096 % 16 = n / 4096 := by omega
  rw [String.utf8EncodeChar, toNat_val_ofNat hvalid, if_neg (by omega), if_neg (by omega),
    if_pos (by omega), hlead]

theorem utf8EncodeChar_four (h : 0x10000 ≤ n) (h' : n < 0x110000) :
    String.utf8EncodeChar (Char.ofNat n) =
      [UInt8.ofNat (n / 262144 + 0xF0), UInt8.ofNat (n / 4096 % 64 + 0x80),
        UInt8.ofNat (n / 64 % 64 + 0x80), UInt8.ofNat (n % 64 + 0x80)] := by
  have hlead : n / 262144 % 8 = n / 262144 := by omega
  rw [String.utf8EncodeChar, toNat_val_ofNat (.inr (by omega)), if_neg (by omega),
    if_neg (by omega), if_neg (by omega), hlead]

end Encoding

section Parts

variable {a b : UInt8} {rest : Bytes}

theorem isContinuation_iff : isContinuation b = true ↔ 0x80 ≤ b.toNat ∧ b.toNat ≤ 0xBF := by
  simp [isContinuation, UInt8.le_iff_toNat_le]

theorem eq_ofNat {n : Nat} (h : a.toNat = n) : a = UInt8.ofNat n := by
  rw [← h, UInt8.ofNat_toNat]

theorem toNat_ofNat_of_lt {n : Nat} (h : n < 256) : (UInt8.ofNat n).toNat = n := by
  rw [UInt8.toNat_ofNat']
  omega

theorem leadRange_eq (a : UInt8) :
    leadRange a =
      if 0xC2 ≤ a.toNat ∧ a.toNat ≤ 0xDF then some (1, 0x80, 0xBF)
      else if 0xE0 ≤ a.toNat ∧ a.toNat ≤ 0xEF then
        some (2, if a.toNat = 0xE0 then 0xA0 else 0x80, if a.toNat = 0xED then 0x9F else 0xBF)
      else if 0xF0 ≤ a.toNat ∧ a.toNat ≤ 0xF4 then
        some (3, if a.toNat = 0xF0 then 0x90 else 0x80, if a.toNat = 0xF4 then 0x8F else 0xBF)
      else none := by
  have hE0 : (a = 0xE0) = (a.toNat = 0xE0) := propext UInt8.toNat_inj.symm
  have hED : (a = 0xED) = (a.toNat = 0xED) := propext UInt8.toNat_inj.symm
  have hF0 : (a = 0xF0) = (a.toNat = 0xF0) := propext UInt8.toNat_inj.symm
  have hF4 : (a = 0xF4) = (a.toNat = 0xF4) := propext UInt8.toNat_inj.symm
  simp only [leadRange, Bool.and_eq_true, decide_eq_true_eq, UInt8.le_iff_toNat_le,
    UInt8.reduceToNat,
    hE0, hED, hF0, hF4]
  split_ifs <;> first | rfl | omega

theorem leadRange_two (h : 0xC2 ≤ a.toNat) (h' : a.toNat ≤ 0xDF) :
    ∃ lo hi, leadRange a = some (1, lo, hi) ∧ lo.toNat = 0x80 ∧ hi.toNat = 0xBF := by
  rw [leadRange_eq, if_pos ⟨h, h'⟩]
  exact ⟨_, _, rfl, rfl, rfl⟩

theorem leadRange_three (h : 0xE0 ≤ a.toNat) (h' : a.toNat ≤ 0xEF) :
    ∃ lo hi, leadRange a = some (2, lo, hi) ∧
      lo.toNat = (if a.toNat = 0xE0 then 0xA0 else 0x80) ∧
      hi.toNat = (if a.toNat = 0xED then 0x9F else 0xBF) := by
  rw [leadRange_eq, if_neg (by omega), if_pos ⟨h, h'⟩]
  exact ⟨_, _, rfl, apply_ite UInt8.toNat _ _ _, apply_ite UInt8.toNat _ _ _⟩

theorem leadRange_four (h : 0xF0 ≤ a.toNat) (h' : a.toNat ≤ 0xF4) :
    ∃ lo hi, leadRange a = some (3, lo, hi) ∧
      lo.toNat = (if a.toNat = 0xF0 then 0x90 else 0x80) ∧
      hi.toNat = (if a.toNat = 0xF4 then 0x8F else 0xBF) := by
  rw [leadRange_eq, if_neg (by omega), if_neg (by omega), if_pos ⟨h, h'⟩]
  exact ⟨_, _, rfl, apply_ite UInt8.toNat _ _ _, apply_ite UInt8.toNat _ _ _⟩

theorem leadRange_cases {more : Nat} {lo hi : UInt8} (h : leadRange a = some (more, lo, hi)) :
    (more = 1 ∧ 0xC2 ≤ a.toNat ∧ a.toNat ≤ 0xDF ∧ lo.toNat = 0x80 ∧ hi.toNat = 0xBF) ∨
    (more = 2 ∧ 0xE0 ≤ a.toNat ∧ a.toNat ≤ 0xEF ∧
      lo.toNat = (if a.toNat = 0xE0 then 0xA0 else 0x80) ∧
      hi.toNat = (if a.toNat = 0xED then 0x9F else 0xBF)) ∨
    (more = 3 ∧ 0xF0 ≤ a.toNat ∧ a.toNat ≤ 0xF4 ∧
      lo.toNat = (if a.toNat = 0xF0 then 0x90 else 0x80) ∧
      hi.toNat = (if a.toNat = 0xF4 then 0x8F else 0xBF)) := by
  rw [leadRange_eq] at h
  split at h
  · rename_i hrange
    cases h
    exact .inl ⟨rfl, hrange.1, hrange.2, rfl, rfl⟩
  split at h
  · rename_i hrange
    cases h
    exact .inr (.inl ⟨rfl, hrange.1, hrange.2, apply_ite UInt8.toNat _ _ _,
      apply_ite UInt8.toNat _ _ _⟩)
  split at h
  · rename_i hrange
    cases h
    exact .inr (.inr ⟨rfl, hrange.1, hrange.2, apply_ite UInt8.toNat _ _ _,
      apply_ite UInt8.toNat _ _ _⟩)
  · cases h

/-- The continuation bytes that a part takes are all that it needs, or the part is invalid. -/
theorem exists_continuations {more : Nat}
    (h : ((rest.take more).takeWhile isContinuation).length = more) :
    ∃ tail after, rest = tail ++ after ∧ tail.length = more ∧
      (∀ c ∈ tail, 0x80 ≤ c.toNat ∧ c.toNat ≤ 0xBF) ∧
      (rest.take more).takeWhile isContinuation = tail := by
  have hle : ((rest.take more).takeWhile isContinuation).length ≤ (rest.take more).length :=
    (List.takeWhile_prefix _).length_le
  have htake : (rest.take more).length = more := by
    have := List.length_take_le more rest
    omega
  have hwhole : (rest.take more).takeWhile isContinuation = rest.take more :=
    (List.takeWhile_prefix _).eq_of_length (by rw [h, htake])
  refine ⟨rest.take more, rest.drop more, (List.take_append_drop more rest).symm, htake, ?_, hwhole⟩
  intro c hc
  rw [← hwhole] at hc
  exact isContinuation_iff.1 (List.mem_takeWhile_imp hc)

theorem takeWhile_take_continuations {tail : Bytes} (after : Bytes)
    (htail : ∀ c ∈ tail, 0x80 ≤ c.toNat ∧ c.toNat ≤ 0xBF) :
    ((tail ++ after).take tail.length).takeWhile isContinuation = tail := by
  rw [List.take_left, List.takeWhile_eq_self_iff]
  exact fun c hc => isContinuation_iff.2 (htail c hc)

theorem not_ascii_iff : ¬ a < 0x80 ↔ 0x80 ≤ a.toNat := by
  rw [UInt8.not_lt, UInt8.le_iff_toNat_le]
  rfl

theorem decodePart_of_leadRange {more : Nat} {lo hi : UInt8} (tail after : Bytes)
    (hlead : leadRange a = some (more, lo, hi)) (ha : 0x80 ≤ a.toNat)
    (hlo : lo.toNat ≤ b.toNat) (hhi : b.toNat ≤ hi.toNat) (hmore : tail.length = more - 1)
    (htail : ∀ c ∈ tail, 0x80 ≤ c.toNat ∧ c.toNat ≤ 0xBF) :
    decodePart a (b :: (tail ++ after)) =
      (some (Char.ofNat (withContinuations
        (a.toNat % (if more = 1 then 32 else if more = 2 then 16 else 8)) (b :: tail))),
        after) := by
  have hrange : ¬ ((b < lo || hi < b) = true) := by
    simp only [Bool.or_eq_true, decide_eq_true_eq, UInt8.lt_iff_toNat_lt]
    omega
  rw [decodePart.eq_def, if_neg (not_ascii_iff.2 ha), hlead]
  dsimp only
  rw [if_neg hrange, ← hmore, takeWhile_take_continuations after htail, if_pos rfl, List.drop_left]

section

variable {n : Nat} {c d : UInt8}

theorem decodePart_one (hn : n < 0x80) (ha : a.toNat = n) :
    decodePart a rest = (some (Char.ofNat n), rest) := by
  have hascii : a < 0x80 := UInt8.lt_iff_toNat_lt.2 (ha ▸ hn)
  rw [decodePart.eq_def, if_pos hascii, ha]

theorem decodePart_two (hn : 0x80 ≤ n) (hn' : n < 0x800) (ha : a.toNat = n / 64 + 0xC0)
    (hb : b.toNat = n % 64 + 0x80) : decodePart a (b :: rest) = (some (Char.ofNat n), rest) := by
  obtain ⟨lo, hi, hlead, hlo, hhi⟩ := leadRange_two (a := a) (by omega) (by omega)
  have hbits : withContinuations (a.toNat % 32) [b] = n := by
    simp only [withContinuations, List.foldl_cons, List.foldl_nil]
    omega
  have hpart := decodePart_of_leadRange (b := b) [] rest hlead (by omega) (by omega)
    (by omega) rfl (by simp)
  rwa [if_pos rfl, hbits] at hpart

theorem decodePart_three (hn : 0x800 ≤ n) (hn' : n < 0x10000) (hvalid : n.isValidChar)
    (ha : a.toNat = n / 4096 + 0xE0) (hb : b.toNat = n / 64 % 64 + 0x80)
    (hc : c.toNat = n % 64 + 0x80) :
    decodePart a (b :: c :: rest) = (some (Char.ofNat n), rest) := by
  obtain ⟨lo, hi, hlead, hlo, hhi⟩ := leadRange_three (a := a) (by omega) (by omega)
  have hbits : withContinuations (a.toNat % 16) [b, c] = n := by
    simp only [withContinuations, List.foldl_cons, List.foldl_nil]
    omega
  have hsecond : lo.toNat ≤ b.toNat ∧ b.toNat ≤ hi.toNat := by
    rw [hlo, hhi]
    -- The lead byte bounds the second one where a shorter form or a surrogate would begin.
    unfold Nat.isValidChar at hvalid
    split_ifs <;> omega
  have hpart := decodePart_of_leadRange [c] rest hlead (by omega) hsecond.1 hsecond.2 rfl
    (by simp only [List.mem_singleton, forall_eq]; omega)
  rwa [if_neg (by decide), if_pos rfl, hbits] at hpart

theorem decodePart_four (hn : 0x10000 ≤ n) (hn' : n < 0x110000) (ha : a.toNat = n / 262144 + 0xF0)
    (hb : b.toNat = n / 4096 % 64 + 0x80) (hc : c.toNat = n / 64 % 64 + 0x80)
    (hd : d.toNat = n % 64 + 0x80) :
    decodePart a (b :: c :: d :: rest) = (some (Char.ofNat n), rest) := by
  obtain ⟨lo, hi, hlead, hlo, hhi⟩ := leadRange_four (a := a) (by omega) (by omega)
  have hbits : withContinuations (a.toNat % 8) [b, c, d] = n := by
    simp only [withContinuations, List.foldl_cons, List.foldl_nil]
    omega
  have hsecond : lo.toNat ≤ b.toNat ∧ b.toNat ≤ hi.toNat := by
    rw [hlo, hhi]
    split_ifs <;> omega
  have htail : ∀ e ∈ [c, d], 0x80 ≤ e.toNat ∧ e.toNat ≤ 0xBF := by
    simp only [List.mem_cons, List.not_mem_nil, or_false, forall_eq_or_imp, forall_eq]
    omega
  have hpart := decodePart_of_leadRange [c, d] rest hlead (by omega) hsecond.1 hsecond.2 rfl
    htail
  rwa [if_neg (by decide), if_neg (by decide), hbits] at hpart

end

end Parts

theorem decodeParts_utf8EncodeChar (c : Char) (rest : Bytes) :
    decodeParts (String.utf8EncodeChar c ++ rest) = some c :: decodeParts rest := by
  have hparts : ∀ {lead : UInt8} {tail : Bytes}, decodePart lead (tail ++ rest) = (some c, rest) →
      decodeParts (lead :: tail ++ rest) = some c :: decodeParts rest := by
    intro lead tail hpart
    rw [List.cons_append, decodeParts, hpart]
  obtain ⟨n, hvalid, rfl⟩ : ∃ n : Nat, n.isValidChar ∧ Char.ofNat n = c :=
    ⟨c.toNat, c.valid, Char.ofNat_toNat c⟩
  have htop : n < 0x110000 := by
    unfold Nat.isValidChar at hvalid
    omega
  have hbyte : ∀ {m : Nat}, m < 256 → (UInt8.ofNat m).toNat = m := toNat_ofNat_of_lt
  -- A character has as many octets as the bounds of the encoding say.
  rcases Nat.lt_or_ge n 0x80 with h1 | h1
  · rw [utf8EncodeChar_one h1]
    exact hparts (decodePart_one h1 (hbyte (by omega)))
  rcases Nat.lt_or_ge n 0x800 with h2 | h2
  · rw [utf8EncodeChar_two h1 h2]
    exact hparts (decodePart_two h1 h2 (hbyte (by omega)) (hbyte (by omega)))
  rcases Nat.lt_or_ge n 0x10000 with h3 | h3
  · rw [utf8EncodeChar_three h2 h3 hvalid]
    exact hparts (decodePart_three h2 h3 hvalid (hbyte (by omega)) (hbyte (by omega))
      (hbyte (by omega)))
  · rw [utf8EncodeChar_four h3 htop]
    exact hparts (decodePart_four h3 htop (hbyte (by omega)) (hbyte (by omega)) (hbyte (by omega))
      (hbyte (by omega)))

theorem decodeParts_encode (t : Text) : decodeParts (encode t) = t.map some := by
  induction t with
  | nil => rw [encode_nil, decodeParts, List.map_nil]
  | cons c t ih => rw [encode_cons, decodeParts_utf8EncodeChar, ih, List.map_cons]

theorem decodeLossy_encode (t : Text) : decodeLossy (encode t) = t := by
  rw [decodeLossy, decodeParts_encode, List.map_map]
  exact List.map_id t

/--
The continuation bytes of a character, the first of them in the range that the lead byte gives.
-/
theorem exists_of_decodePart {lead : UInt8} {rest after : Bytes} {c : Char} (ha : ¬ lead < 0x80)
    (h : decodePart lead rest = (some c, after)) :
    ∃ more lo hi second tail, leadRange lead = some (more, lo, hi) ∧
      rest = second :: (tail ++ after) ∧ lo.toNat ≤ second.toNat ∧ second.toNat ≤ hi.toNat ∧
      tail.length = more - 1 ∧ (∀ d ∈ tail, 0x80 ≤ d.toNat ∧ d.toNat ≤ 0xBF) ∧
      c = Char.ofNat (withContinuations
        (lead.toNat % (if more = 1 then 32 else if more = 2 then 16 else 8)) (second :: tail)) := by
  rw [decodePart.eq_def, if_neg ha] at h
  split at h
  · cases h
  · cases h
  · rename_i more lo hi second rest hlead
    split at h
    · cases h
    · rename_i hrange
      simp only [Bool.or_eq_true, decide_eq_true_eq, UInt8.lt_iff_toNat_lt, not_or, Nat.not_lt]
        at hrange
      obtain ⟨hchar, hafter⟩ := Prod.mk.inj h
      split at hchar
      · rename_i hlength
        obtain ⟨tail, behind, rfl, hmore, htail, htake⟩ := exists_continuations hlength
        rw [htake] at hchar hafter
        rw [List.drop_left] at hafter
        obtain rfl := hafter
        exact ⟨more, lo, hi, second, tail, hlead, rfl, hrange.1, hrange.2, hmore, htail,
          (Option.some.inj hchar).symm⟩
      · cases hchar

section

variable {a b c d : UInt8}

theorem utf8EncodeChar_bits_two (ha : 0xC2 ≤ a.toNat ∧ a.toNat ≤ 0xDF)
    (hb : 0x80 ≤ b.toNat ∧ b.toNat ≤ 0xBF) :
    String.utf8EncodeChar (Char.ofNat (withContinuations (a.toNat % 32) [b])) = [a, b] := by
  obtain ⟨n, hn⟩ : ∃ n, withContinuations (a.toNat % 32) [b] = n := ⟨_, rfl⟩
  have hbits := hn
  simp only [withContinuations, List.foldl_cons, List.foldl_nil] at hbits
  rw [hn, utf8EncodeChar_two (by omega) (by omega), ← eq_ofNat (a := a) (by omega),
    ← eq_ofNat (a := b) (by omega)]

theorem utf8EncodeChar_bits_three (ha : 0xE0 ≤ a.toNat ∧ a.toNat ≤ 0xEF)
    (hlo : (if a.toNat = 0xE0 then 0xA0 else 0x80) ≤ b.toNat)
    (hhi : b.toNat ≤ if a.toNat = 0xED then 0x9F else 0xBF)
    (hc : 0x80 ≤ c.toNat ∧ c.toNat ≤ 0xBF) :
    String.utf8EncodeChar (Char.ofNat (withContinuations (a.toNat % 16) [b, c])) = [a, b, c] := by
  obtain ⟨n, hn⟩ : ∃ n, withContinuations (a.toNat % 16) [b, c] = n := ⟨_, rfl⟩
  have hbits := hn
  simp only [withContinuations, List.foldl_cons, List.foldl_nil] at hbits
  have hrange : 0x800 ≤ n ∧ n < 0x10000 ∧ n.isValidChar ∧ 0x80 ≤ b.toNat ∧ b.toNat ≤ 0xBF := by
    unfold Nat.isValidChar
    split_ifs at hlo hhi <;> omega
  obtain ⟨hle, hlt, hvalid, hb, hb'⟩ := hrange
  rw [hn, utf8EncodeChar_three hle hlt hvalid, ← eq_ofNat (a := a) (by omega),
    ← eq_ofNat (a := b) (by omega), ← eq_ofNat (a := c) (by omega)]

theorem utf8EncodeChar_bits_four (ha : 0xF0 ≤ a.toNat ∧ a.toNat ≤ 0xF4)
    (hlo : (if a.toNat = 0xF0 then 0x90 else 0x80) ≤ b.toNat)
    (hhi : b.toNat ≤ if a.toNat = 0xF4 then 0x8F else 0xBF)
    (hc : 0x80 ≤ c.toNat ∧ c.toNat ≤ 0xBF) (hd : 0x80 ≤ d.toNat ∧ d.toNat ≤ 0xBF) :
    String.utf8EncodeChar (Char.ofNat (withContinuations (a.toNat % 8) [b, c, d])) =
      [a, b, c, d] := by
  obtain ⟨n, hn⟩ : ∃ n, withContinuations (a.toNat % 8) [b, c, d] = n := ⟨_, rfl⟩
  have hbits := hn
  simp only [withContinuations, List.foldl_cons, List.foldl_nil] at hbits
  have hrange : 0x10000 ≤ n ∧ n < 0x110000 ∧ 0x80 ≤ b.toNat ∧ b.toNat ≤ 0xBF := by
    split_ifs at hlo hhi <;> omega
  obtain ⟨hle, hlt, hb, hb'⟩ := hrange
  rw [hn, utf8EncodeChar_four hle hlt, ← eq_ofNat (a := a) (by omega),
    ← eq_ofNat (a := b) (by omega), ← eq_ofNat (a := c) (by omega), ← eq_ofNat (a := d) (by omega)]

end

theorem eq_utf8EncodeChar_of_decodePart {lead : UInt8} {rest after : Bytes} {c : Char}
    (h : decodePart lead rest = (some c, after)) :
    lead :: rest = String.utf8EncodeChar c ++ after := by
  by_cases ha : lead < 0x80
  · have hlead : lead.toNat < 0x80 := UInt8.lt_iff_toNat_lt.1 ha
    rw [decodePart_one hlead rfl] at h
    obtain ⟨hchar, rfl⟩ := Prod.mk.inj h
    rw [← Option.some.inj hchar, utf8EncodeChar_one hlead, UInt8.ofNat_toNat]
    rfl
  obtain ⟨more, lo, hi, b, tail, hlead, rfl, hlo, hhi, hmore, htail, rfl⟩ :=
    exists_of_decodePart ha h
  rcases leadRange_cases hlead with
    ⟨rfl, h1, h2, hlo', hhi'⟩ | ⟨rfl, h1, h2, hlo', hhi'⟩ | ⟨rfl, h1, h2, hlo', hhi'⟩
  · obtain rfl := List.length_eq_zero_iff.1 hmore
    rw [if_pos rfl, utf8EncodeChar_bits_two ⟨h1, h2⟩ ⟨hlo' ▸ hlo, hhi' ▸ hhi⟩]
    rfl
  · obtain ⟨c, rfl⟩ := List.length_eq_one_iff.1 hmore
    rw [if_neg (by decide), if_pos rfl, utf8EncodeChar_bits_three ⟨h1, h2⟩ (hlo' ▸ hlo)
      (hhi' ▸ hhi) (htail c (by simp))]
    rfl
  · obtain ⟨c, d, rfl⟩ := List.length_eq_two.1 hmore
    rw [if_neg (by decide), if_neg (by decide), utf8EncodeChar_bits_four ⟨h1, h2⟩ (hlo' ▸ hlo)
      (hhi' ▸ hhi) (htail c (by simp)) (htail d (by simp))]
    rfl

theorem decodeParts_map_some {bytes : Bytes} {t : Text} (h : decodeParts bytes = t.map some) :
    bytes = encode t := by
  induction t generalizing bytes with
  | nil =>
    cases bytes with
    | nil => rfl
    | cons lead rest =>
      rw [decodeParts] at h
      cases h
  | cons c t ih =>
    cases bytes with
    | nil =>
      rw [decodeParts] at h
      cases h
    | cons lead rest =>
      rw [decodeParts, List.map_cons] at h
      obtain ⟨hchar, hrest⟩ := List.cons.inj h
      rw [eq_utf8EncodeChar_of_decodePart (Prod.ext hchar rfl), encode_cons, ← ih hrest]

theorem mapM_id_eq_some_iff {parts : List (Option Char)} {t : Text} :
    parts.mapM id = some t ↔ parts = t.map some := by
  induction parts generalizing t with
  | nil => cases t <;> simp
  | cons part parts ih =>
    cases part with
    | none => cases t <;> simp
    | some c => cases t <;> simp [Option.bind_eq_some_iff, ih, and_comm]

theorem decode?_eq_some_iff {bytes : Bytes} {t : Text} :
    decode? bytes = some t ↔ bytes = encode t := by
  rw [decode?, mapM_id_eq_some_iff]
  constructor
  · exact decodeParts_map_some
  · rintro rfl
    exact decodeParts_encode t

end Inlay.Text
