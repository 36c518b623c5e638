import Mathlib.Algebra.Group.Nat.Defs
import Inlay.Text.Number

namespace Inlay.Text

/-- The text is a decimal number: digits, perhaps after a plus sign, that have this value. -/
def Spells (t : Text) (n : Nat) : Prop :=
  ∃ digits : Text, digits ≠ [] ∧ (t = digits ∨ t = '+' :: digits) ∧
    (∀ c ∈ digits, c.isDigit = true) ∧ Nat.ofDigitChars 10 digits 0 = n

theorem le_ofDigitChars (digits : Text) (n : Nat) : n ≤ Nat.ofDigitChars 10 digits n := by
  induction digits generalizing n with
  | nil => exact Nat.le_refl n
  | cons c digits ih =>
    have hrest := ih (10 * n + (c.toNat - '0'.toNat))
    rw [Nat.ofDigitChars_cons]
    omega

theorem withDigit_eq_ok_iff {n m : Nat} {c : Char} :
    withDigit n c = .ok m ↔
      c.isDigit = true ∧ 10 * n + (c.toNat - '0'.toNat) = m ∧ m ≤ wordLimit := by
  cases hdigit : c.isDigit with
  | false => simp [withDigit, hdigit]
  | true =>
    simp only [withDigit, hdigit, Bool.not_true, Bool.false_eq_true, if_false, Nat.mul_comm n 10,
      true_and]
    constructor
    · intro h
      split at h
      · rename_i hle
        obtain rfl := Except.ok.inj h
        exact ⟨rfl, hle⟩
      · cases h
    · rintro ⟨rfl, hle⟩
      rw [if_pos hle]

/-- Reading on from a number; the limit at the end is the limit all along, as numbers only grow. -/
theorem foldlM_withDigit_eq_ok_iff {digits : Text} {n m : Nat} (hn : n ≤ wordLimit) :
    digits.foldlM withDigit n = .ok m ↔
      (∀ c ∈ digits, c.isDigit = true) ∧ Nat.ofDigitChars 10 digits n = m ∧ m ≤ wordLimit := by
  induction digits generalizing n with
  | nil =>
    constructor
    · intro h
      obtain rfl := Except.ok.inj h
      exact ⟨by simp, rfl, hn⟩
    · rintro ⟨-, rfl, -⟩
      rfl
  | cons c digits ih =>
    rw [List.foldlM_cons, List.forall_mem_cons, Nat.ofDigitChars_cons]
    constructor
    · intro h
      obtain ⟨k, hk, hrest⟩ : ∃ k, withDigit n c = .ok k ∧ digits.foldlM withDigit k = .ok m := by
        cases hfirst : withDigit n c with
        | error fault =>
          rw [hfirst] at h
          cases h
        | ok k =>
          rw [hfirst] at h
          exact ⟨k, rfl, h⟩
      obtain ⟨hdigit, rfl, hle⟩ := withDigit_eq_ok_iff.1 hk
      obtain ⟨hdigits, hvalue, hm⟩ := (ih hle).1 hrest
      exact ⟨⟨hdigit, hdigits⟩, hvalue, hm⟩
    · rintro ⟨⟨hdigit, hdigits⟩, hvalue, hm⟩
      have hle : 10 * n + (c.toNat - '0'.toNat) ≤ wordLimit := by
        have hgrows := le_ofDigitChars digits (10 * n + (c.toNat - '0'.toNat))
        omega
      rw [withDigit_eq_ok_iff.2 ⟨hdigit, rfl, hle⟩]
      exact (ih hle).2 ⟨hdigits, hvalue, hm⟩

theorem readWord_eq_ok_iff {t : Text} {n : Nat} :
    readWord t = .ok n ↔ t.Spells n ∧ n < 2 ^ 64 := by
  have hlimit : n ≤ wordLimit ↔ n < 2 ^ 64 := by
    unfold wordLimit
    omega
  have hread : ∀ {digits : Text}, digits.foldlM withDigit 0 = .ok n ↔
      (∀ c ∈ digits, c.isDigit = true) ∧ Nat.ofDigitChars 10 digits 0 = n ∧ n ≤ wordLimit :=
    foldlM_withDigit_eq_ok_iff (Nat.zero_le _)
  constructor
  · intro h
    rw [readWord.eq_def] at h
    split at h
    · cases h
    · cases h
    · rename_i digits hnil
      obtain ⟨hdigits, hvalue, hle⟩ := hread.1 h
      exact ⟨⟨digits, fun hempty => hnil (by rw [hempty]), .inr rfl, hdigits, hvalue⟩, hlimit.1 hle⟩
    · rename_i hnil _ _
      obtain ⟨hdigits, hvalue, hle⟩ := hread.1 h
      exact ⟨⟨t, hnil, .inl rfl, hdigits, hvalue⟩, hlimit.1 hle⟩
  · rintro ⟨⟨digits, hnil, hwritten, hdigits, hvalue⟩, hlt⟩
    have hdigitsRead := hread.2 ⟨hdigits, hvalue, hlimit.2 hlt⟩
    obtain ⟨c, rest, rfl⟩ := List.exists_cons_of_ne_nil hnil
    rcases hwritten with rfl | rfl
    · -- A sign is no digit, so that the text does not begin with one.
      have hplus : c ≠ '+' := by
        rintro rfl
        exact absurd (hdigits '+' List.mem_cons_self) (by decide)
      rw [readWord.eq_def]
      split
      · rename_i hempty
        cases hempty
      · rename_i hsign
        exact absurd (List.cons.inj hsign).1 hplus
      · rename_i hsign
        exact absurd (List.cons.inj hsign).1 hplus
      · exact hdigitsRead
    · exact hdigitsRead

end Inlay.Text
