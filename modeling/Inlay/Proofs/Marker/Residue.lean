import Inlay.Proofs.Marker.Front
import Mathlib.Algebra.BigOperators.Group.List.Basic
import Mathlib.Algebra.Ring.Int.Defs

namespace Inlay.Marker

open Segment

variable {k : Kind} {t value : Text} {values : List Text} {start : Nat}

/-- The value is not empty, and no character of the kind's delimiters is in it. -/
structure Kind.Inert (k : Kind) (value : Text) : Prop where
  ne_nil : value ≠ []
  opener : ∀ c ∈ k.opener, c ∉ value
  closing : k.closing ∉ value

/--
How far into the text with the values an offset has moved, by the markers that end in front of it.
-/
def displaced (replaced : List (Marker × Text)) (place : Nat) : Int :=
  place + (replaced.map fun r =>
    if r.1.stop ≤ place then (r.2.size : Int) - r.1.written.size else 0).sum

theorem Kind.Inert.dollar (h : k.Inert value) : '$' ∉ value := by
  obtain ⟨d, -, hopener⟩ := k.exists_opener
  exact h.opener '$' (by simp [hopener])

theorem markers_scanFrom_append_of_free (h : '$' ∉ value) (start : Nat) (t : Text) :
    markers (scanFrom k start (value ++ t)) = markers (scanFrom k (start + value.size) t) := by
  induction value generalizing start with
  | nil => rfl
  | cons c value ih =>
    rw [List.mem_cons, not_or] at h
    rw [List.cons_append, scanFrom_of_ne (Ne.symm h.1), markers_glue, ih h.2, Text.size_cons,
      Nat.add_assoc]

theorem strayFrom_append_of_free (h : '$' ∉ value) (start : Nat) (t : Text) :
    strayFrom k start (scanFrom k start (value ++ t)) =
      strayFrom k (start + value.size) (scanFrom k (start + value.size) t) := by
  induction value generalizing start with
  | nil => rfl
  | cons c value ih =>
    rw [List.mem_cons, not_or] at h
    have hopener : ¬ k.opener <+: c :: (value ++ t) := by
      rintro ⟨after, hafter⟩
      obtain ⟨d, -, hopener⟩ := k.exists_opener
      rw [hopener] at hafter
      exact h.1 (List.cons_eq_cons.1 hafter).1
    rw [List.cons_append, scanFrom_of_ne (Ne.symm h.1), strayFrom_glue_scanFrom, if_neg,
      List.nil_append, ih h.2, Text.size_cons, Nat.add_assoc]
    rwa [List.isPrefixOf_iff_prefix]

/--
The text with the values begins as the text itself does. Where the one goes on with a marker, the
other goes on with a value.
-/
theorem exists_front (hlength : values.length = (markers (scanFrom k start t)).length) :
    splice (scanFrom k start t) values = t ∨
      ∃ front inner rest value rest', k.Admits inner ∧ value ∈ values ∧
        t = front ++ (k.opener ++ inner ++ k.closer ++ rest) ∧
        splice (scanFrom k start t) values = front ++ (value ++ rest') := by
  fun_induction scanFrom k start t generalizing values with
  | case1 => exact .inl rfl
  | case2 start c t inner rest hfirst m =>
    obtain ⟨value, values, rfl⟩ := List.exists_cons_of_length_eq_add_one hlength
    obtain ⟨htext, hinner⟩ := first?_eq_some_iff.1 hfirst
    exact .inr ⟨[], inner, rest, value, _, hinner, List.mem_cons_self, htext, rfl⟩
  | case3 start c t hfirst ih =>
    rw [markers_glue] at hlength
    rw [splice_glue]
    rcases ih hlength with hsame | ⟨front, inner, rest, value, rest', hinner, hvalue, ht, hs⟩
    · exact .inl (congrArg (c :: ·) hsame)
    · refine .inr ⟨c :: front, inner, rest, value, rest', hinner, hvalue, ?_, ?_⟩
      · rw [ht, List.cons_append]
      · rw [hs, List.cons_append]

/--
Where no marker begins in the text, none begins once the values behind it are in their places.
-/
theorem first?_cons_splice {c : Char}
    (hlength : values.length = (markers (scanFrom k start t)).length)
    (hinert : ∀ value ∈ values, k.Inert value) (hnone : first? k (c :: t) = none) :
    first? k (c :: splice (scanFrom k start t) values) = none := by
  rcases exists_front hlength with
    hsame | ⟨front, inner, rest, value, rest', hinner, hvalue, ht, hs⟩
  · rwa [hsame]
  · have hin := hinert value hvalue
    obtain ⟨e, value, rfl⟩ := List.exists_cons_of_ne_nil hin.ne_nil
    rw [ht, ← List.cons_append] at hnone
    obtain ⟨hnone, hopens⟩ := eq_none_of_first?_append hinner hnone
    rw [hs, ← List.cons_append, List.cons_append]
    apply first?_append_cons_eq_none (List.cons_ne_nil c front) hnone hopens
    · exact fun hmem => hin.opener e (List.mem_of_mem_tail hmem) List.mem_cons_self
    · exact fun heq => hin.closing (heq ▸ List.mem_cons_self)

/-- An opener begins in front of the text as soon as one begins in front of the text with values. -/
theorem isPrefixOf_cons_splice (c : Char)
    (hlength : values.length = (markers (scanFrom k start t)).length)
    (hinert : ∀ value ∈ values, k.Inert value) :
    k.opener.isPrefixOf (c :: splice (scanFrom k start t) values) =
      k.opener.isPrefixOf (c :: t) := by
  rcases exists_front hlength with
    hsame | ⟨front, inner, rest, value, rest', hinner, hvalue, ht, hs⟩
  · rw [hsame]
  · have hin := hinert value hvalue
    obtain ⟨e, value, rfl⟩ := List.exists_cons_of_ne_nil hin.ne_nil
    have he : e ∉ k.opener.tail :=
      fun hmem => hin.opener e (List.mem_of_mem_tail hmem) List.mem_cons_self
    rw [Bool.eq_iff_iff, List.isPrefixOf_iff_prefix, List.isPrefixOf_iff_prefix, hs, ht,
      k.written_eq]
    exact (opener_prefix_append_cons_iff (List.cons_ne_nil c front) he _).trans
      (opener_prefix_append_cons_iff (List.cons_ne_nil c front) k.dollar_not_mem_tail _).symm

theorem markers_scanFrom_splice (hlength : values.length = (markers (scanFrom k start t)).length)
    (hinert : ∀ value ∈ values, k.Inert value) (start' : Nat) :
    markers (scanFrom k start' (splice (scanFrom k start t) values)) = [] := by
  fun_induction scanFrom k start t generalizing values start' with
  | case1 => simp [splice, scanFrom]
  | case2 start c t inner rest hfirst m =>
    rename_i ih
    obtain ⟨value, values, rfl⟩ := List.exists_cons_of_length_eq_add_one hlength
    rw [List.forall_mem_cons] at hinert
    rw [splice, markers_scanFrom_append_of_free hinert.1.dollar]
    exact ih (Nat.succ.inj hlength) hinert.2 _
  | case3 start c t hfirst ih =>
    rw [markers_glue] at hlength
    rw [splice_glue, scanFrom_of_none (first?_cons_splice hlength hinert hfirst), markers_glue]
    exact ih hlength hinert _

theorem displaced_cons {m : Marker} {place : Nat} (hm : m.stop ≤ place) (value : Text)
    (replaced : List (Marker × Text)) :
    displaced ((m, value) :: replaced) place =
      displaced replaced place + (value.size - m.written.size) := by
  simp only [displaced, List.map_cons, List.sum_cons, if_pos hm]
  omega

theorem displaced_eq_self {replaced : List (Marker × Text)} {place : Nat}
    (h : ∀ r ∈ replaced, place < r.1.stop) : displaced replaced place = place := by
  have hzero : (replaced.map fun r =>
      if r.1.stop ≤ place then (r.2.size : Int) - r.1.written.size else 0).sum = 0 := by
    apply List.sum_eq_zero
    intro n hn
    obtain ⟨r, hr, rfl⟩ := List.mem_map.1 hn
    exact if_neg (Nat.not_le.2 (h r hr))
  rw [displaced, hzero, Int.add_zero]

/--
The openers that nothing closes stay, and move by what the markers in front of them have changed.
The induction follows the scan of the text, and the scan of the text with the values keeps step with
it.
-/
theorem strayFrom_splice (hlength : values.length = (markers (scanFrom k start t)).length)
    (hinert : ∀ value ∈ values, k.Inert value) (start' : Nat) :
    (strayFrom k start' (scanFrom k start' (splice (scanFrom k start t) values))).map
        (Nat.cast : Nat → Int) =
      (strayFrom k start (scanFrom k start t)).map fun place =>
        displaced ((markers (scanFrom k start t)).zip values) place + (start' - start) := by
  fun_induction scanFrom k start t generalizing values start' with
  | case1 => simp [splice, scanFrom, strayFrom]
  | case2 start c t inner rest hfirst m =>
    rename_i ih
    -- What replaces the marker has no opener, so that the scans go on behind both.
    obtain ⟨value, values, rfl⟩ := List.exists_cons_of_length_eq_add_one hlength
    rw [List.forall_mem_cons] at hinert
    rw [splice, strayFrom_append_of_free hinert.1.dollar, ih (Nat.succ.inj hlength) hinert.2,
      strayFrom, markers_marker, List.zip_cons_cons]
    apply List.map_congr_left
    intro place hplace
    have hstop : (m.stop : Int) = start + m.written.size := Int.natCast_add ..
    rw [displaced_cons (le_of_mem_strayFrom hplace), hstop]
    push_cast
    omega
  | case3 start c t hfirst ih =>
    rw [markers_glue] at hlength
    rw [splice_glue, scanFrom_of_none (first?_cons_splice hlength hinert hfirst),
      strayFrom_glue_scanFrom, strayFrom_glue_scanFrom, isPrefixOf_cons_splice c hlength hinert,
      markers_glue, List.map_append, List.map_append, ih hlength hinert]
    congr 1
    · split
      · -- All markers are behind this opener and cannot have moved it.
        have hself : displaced ((markers (scanFrom k (start + c.utf8Size) t)).zip values) start =
            start := by
          apply displaced_eq_self
          rintro ⟨m, value⟩ hmem
          have hbehind := start_le_of_mem_scanFrom (List.of_mem_zip hmem).1
          have hends := m.start_lt_stop
          have hc := c.utf8Size_pos
          show start < m.stop
          omega
        simp only [List.map_cons, List.map_nil, hself]
        congr 1
        omega
      · rfl
    · apply List.map_congr_left
      intro place hplace
      push_cast
      omega

/--
A pass leaves no marker of its kind behind. When every marker of a text has been given a value that
has nothing of the kind's delimiters in it, no marker is found any more, and the openers that
nothing closes are those of the text, each as much further on as the values in front of it are
longer than their markers.
-/
theorem scan_splice_inert {k : Kind} {t : Text} {values : List Text}
    (hlength : values.length = (markers (scan k t)).length)
    (hinert : ∀ value ∈ values, k.Inert value) :
    markers (scan k (splice (scan k t) values)) = [] ∧
      (strayOpeners k (scan k (splice (scan k t) values))).map (Nat.cast : Nat → Int) =
        (strayOpeners k (scan k t)).map (displaced ((markers (scan k t)).zip values)) := by
  refine ⟨markers_scanFrom_splice hlength hinert 0, ?_⟩
  have hmoved := strayFrom_splice hlength hinert 0
  simp only [sub_self, add_zero] at hmoved
  exact hmoved

/--
An opener in front of everything, markers with a longer and a shorter value, and an opener at the
end.
-/
def leftovers : Text := "é$\x7b\x7b\x7d$\x7b\x7bA\x7d\x7d|$\x7b\x7bB\x7d\x7d$$\x7b\x7bC".toList

theorem scan_splice_inert_leftovers :
    strayOpeners .lookup (scan .lookup leftovers) = [2, 20] ∧
      markers (scan .lookup (splice (scan .lookup leftovers) ["longer".toList, ['x']])) = [] ∧
      (strayOpeners .lookup
          (scan .lookup (splice (scan .lookup leftovers) ["longer".toList, ['x']]))).map
        (Nat.cast : Nat → Int) = [2, 15] := by
  have hinert : ∀ value ∈ ["longer".toList, ['x']], Kind.lookup.Inert value := by
    intro value hvalue
    rcases List.mem_pair.1 hvalue with rfl | rfl
    all_goals
      refine ⟨by decide, fun c hc => ?_, by decide⟩
      obtain rfl | rfl : c = '$' ∨ c = '\x7b' := by simpa [Kind.opener] using hc
      all_goals decide
  obtain ⟨hmarkers, hstray⟩ :=
    scan_splice_inert (t := leftovers) (by decide +kernel) hinert
  refine ⟨by decide +kernel, hmarkers, hstray.trans ?_⟩
  decide +kernel

end Inlay.Marker
