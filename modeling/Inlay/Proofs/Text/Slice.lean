import Inlay.Text.Blank
import Mathlib.Data.List.TakeWhile

/-!
Stretches of a text by their byte offsets, and what trimming leaves of a text. An offset counts only
where a character begins or the text ends, so that a stretch never begins or ends inside a
character.
-/
namespace Inlay.Text

theorem fromByte?_eq_some_iff {t u : Text} {n : Nat} :
    t.fromByte? n = some u ↔ ∃ before, t = before ++ u ∧ size before = n := by
  constructor
  · intro h
    fun_induction fromByte? t n with
    | case1 t =>
      cases h
      exact ⟨[], rfl, rfl⟩
    | case2 => cases h
    | case3 c t n hsize ih =>
      obtain ⟨before, rfl, hbefore⟩ := ih h
      refine ⟨c :: before, rfl, ?_⟩
      rw [size_cons, hbefore]
      omega
    | case4 => cases h
  · rintro ⟨before, rfl, rfl⟩
    exact fromByte?_append before u

/-- What stands from one byte offset to another, if a character begins or the text ends at both. -/
def slice? (t : Text) (start stop : Nat) : Option Text := do
  let tail ← t.fromByte? start
  let rest ← t.fromByte? stop
  if rest.length ≤ tail.length then some (tail.take (tail.length - rest.length)) else none

theorem slice?_eq_some_iff {t piece : Text} {start stop : Nat} :
    t.slice? start stop = some piece ↔
      ∃ before after, t = before ++ (piece ++ after) ∧ size before = start ∧
        start + size piece = stop := by
  simp only [slice?, Option.bind_eq_bind, Option.bind_eq_some_iff, fromByte?_eq_some_iff]
  constructor
  · rintro ⟨tail, ⟨before, ht, rfl⟩, rest, ⟨front, ht', rfl⟩, h⟩
    split at h
    · rename_i hle
      have hlength := congrArg List.length (ht.symm.trans ht')
      simp only [List.length_append] at hlength
      -- The end is not before the start, so that what stands before it begins the same way.
      obtain ⟨middle, rfl⟩ : before <+: front :=
        List.prefix_of_prefix_length_le ⟨tail, ht.symm⟩ ⟨rest, ht'.symm⟩ (by omega)
      obtain rfl : tail = middle ++ rest := by
        rw [ht, List.append_assoc] at ht'
        exact List.append_cancel_left ht'
      obtain rfl : middle = piece := by simpa using h
      exact ⟨before, rest, ht, rfl, (size_append before middle).symm⟩
    · cases h
  · rintro ⟨before, after, rfl, rfl, rfl⟩
    refine ⟨piece ++ after, ⟨before, rfl, rfl⟩, after, ⟨before ++ piece, ?_, ?_⟩, ?_⟩
    · rw [List.append_assoc]
    · rw [size_append]
    · simp

theorem slice?_whole (t : Text) : t.slice? 0 t.size = some t :=
  slice?_eq_some_iff.2 ⟨[], [], by simp, rfl, Nat.zero_add _⟩

theorem slice?_append {t u v : Text} {start middle stop : Nat}
    (hu : t.slice? start middle = some u) (hv : t.slice? middle stop = some v) :
    t.slice? start stop = some (u ++ v) := by
  obtain ⟨before, after, rfl, rfl, rfl⟩ := slice?_eq_some_iff.1 hu
  obtain ⟨before', after', ht, hbefore', rfl⟩ := slice?_eq_some_iff.1 hv
  have htail : fromByte? (before ++ (u ++ after)) (size before + size u) = some after :=
    fromByte?_eq_some_iff.2 ⟨before ++ u, by simp, by simp⟩
  obtain rfl : v ++ after' = after := by
    rw [fromByte?_eq_some_iff.2 ⟨before', ht, hbefore'⟩] at htail
    exact Option.some.inj htail
  exact slice?_eq_some_iff.2 ⟨before, after', by simp, rfl, by simp [Nat.add_assoc]⟩

theorem size_pos {t : Text} (h : t ≠ []) : 0 < size t := by
  obtain ⟨c, t, rfl⟩ := List.exists_cons_of_ne_nil h
  have hc := c.utf8Size_pos
  rw [size_cons]
  omega

theorem exists_eq_append_of_size_le {t u v w : Text} (h : t ++ u = v ++ w)
    (hle : size t ≤ size v) : ∃ gap, v = t ++ gap ∧ u = gap ++ w := by
  rcases List.append_eq_append_iff.1 h with ⟨gap, hv, hu⟩ | ⟨gap, rfl, rfl⟩
  · exact ⟨gap, hv, hu⟩
  · rcases gap with _ | ⟨c, gap⟩
    · exact ⟨[], by simp, rfl⟩
    · have hpos : 0 < size (c :: gap) := size_pos (List.cons_ne_nil c gap)
      rw [size_append] at hle
      omega

/-- The core is what is left of the text without the characters of a class at its ends. -/
structure TrimsTo (inClass : Char → Bool) (t core : Text) : Prop where
  ends : ∃ before after, t = before ++ core ++ after ∧
    (∀ c ∈ before, inClass c = true) ∧ ∀ c ∈ after, inClass c = true
  first : ∀ c ∈ core.head?, inClass c = false
  last : ∀ c ∈ core.getLast?, inClass c = false

theorem head?_dropWhile {inClass : Char → Bool} {t : Text} {c : Char}
    (h : c ∈ (t.dropWhile inClass).head?) : inClass c = false := by
  have hnot := List.head?_dropWhile_not inClass t
  rw [Option.mem_def.1 h] at hnot
  exact hnot

theorem exists_eq_trimEnd_append (inClass : Char → Bool) (t : Text) :
    ∃ after, t = t.trimEnd inClass ++ after ∧ ∀ c ∈ after, inClass c = true := by
  refine ⟨(t.reverse.takeWhile inClass).reverse, ?_, fun c hc => ?_⟩
  · rw [trimEnd, ← List.reverse_append, List.takeWhile_append_dropWhile, List.reverse_reverse]
  · exact List.mem_takeWhile_imp (List.mem_reverse.1 hc)

theorem getLast?_trimEnd {inClass : Char → Bool} {t : Text} {c : Char}
    (h : c ∈ (t.trimEnd inClass).getLast?) : inClass c = false := by
  rw [trimEnd, List.getLast?_reverse] at h
  exact head?_dropWhile h

theorem trimEnd_append_of_pos {inClass : Char → Bool} {after : Text}
    (hafter : ∀ c ∈ after, inClass c = true) (t : Text) :
    (t ++ after).trimEnd inClass = t.trimEnd inClass := by
  have hback : ∀ c ∈ after.reverse, inClass c = true := fun c hc => hafter c (List.mem_reverse.1 hc)
  rw [trimEnd, List.reverse_append, List.dropWhile_append_of_pos hback, trimEnd]

theorem trimEnd_eq_self {inClass : Char → Bool} {t : Text}
    (h : ∀ c ∈ t.getLast?, inClass c = false) : t.trimEnd inClass = t := by
  obtain ⟨after, ht, hafter⟩ := exists_eq_trimEnd_append inClass t
  rcases List.eq_nil_or_concat after with rfl | ⟨_, c, rfl⟩
  · rw [List.append_nil] at ht
    exact ht.symm
  · have hlast : c ∈ t.getLast? := by
      rw [ht]
      simp
    have hin := hafter c (by simp)
    rw [h c hlast] at hin
    cases hin

theorem trimsTo_trim (inClass : Char → Bool) (t : Text) : TrimsTo inClass t (t.trim inClass) := by
  obtain ⟨after, ht, hafter⟩ := exists_eq_trimEnd_append inClass (t.dropWhile inClass)
  constructor
  · refine ⟨t.takeWhile inClass, after, ?_, fun c hc => List.mem_takeWhile_imp hc, hafter⟩
    rw [trim, List.append_assoc, ← ht, List.takeWhile_append_dropWhile]
  · intro c hc
    refine head?_dropWhile (t := t) ?_
    rw [ht, List.head?_append, ← trim, Option.mem_def.1 hc, Option.some_or]
    rfl
  · exact fun c hc => getLast?_trimEnd hc

theorem trim_pad {inClass : Char → Bool} {before after : Text}
    (hbefore : ∀ c ∈ before, inClass c = true) (hafter : ∀ c ∈ after, inClass c = true)
    (t : Text) : (before ++ t ++ after).trim inClass = t.trim inClass := by
  rw [trim, List.append_assoc, List.dropWhile_append_of_pos hbefore, List.dropWhile_append, trim]
  split
  · rename_i hall
    rw [List.isEmpty_iff.1 hall, List.dropWhile_eq_nil_iff.2 hafter]
  · rw [trimEnd_append_of_pos hafter]

end Inlay.Text
