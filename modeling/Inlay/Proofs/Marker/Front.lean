import Inlay.Proofs.Marker.Stray

/-!
Whether a marker begins in front of a text that is put together from two. It does if it ends in the
first of them, or if the first is an opener that the second closes. Where neither can be, the scan
goes over the first text as if the second were not there.
-/
namespace Inlay

namespace Marker

open Segment

variable {k : Kind} {t u front inner rest : Text} {c : Char}

/-- The text is an opener behind which nothing has closed yet. -/
def Kind.Opens (k : Kind) (t : Text) : Prop := ∃ inner, t = k.opener ++ inner ∧ k.closing ∉ inner

theorem Kind.closing_not_mem_opener (k : Kind) : k.closing ∉ k.opener := by
  cases k <;> decide

theorem Kind.dollar_not_mem_tail (k : Kind) : '$' ∉ k.opener.tail := by
  cases k <;> decide

theorem Kind.written_eq (k : Kind) (inner after : Text) :
    k.opener ++ inner ++ k.closer ++ after =
      '$' :: (k.opener.tail ++ inner ++ k.closer ++ after) := by
  cases k <;> rfl

theorem opener_ne_append_cons (hfront : front ≠ []) (hc : c ∉ k.opener.tail) (u : Text) :
    k.opener ≠ front ++ c :: u := by
  intro h
  obtain ⟨first, front, rfl⟩ := List.exists_cons_of_ne_nil hfront
  apply hc
  rw [h]
  simp

theorem opener_prefix_append_cons_iff (hfront : front ≠ []) (hc : c ∉ k.opener.tail) (u : Text) :
    k.opener <+: front ++ c :: u ↔ k.opener <+: front := by
  constructor
  · rintro ⟨after, h⟩
    rcases List.append_eq_append_iff.1 h with ⟨gap, rfl, -⟩ | ⟨gap, hopener, hgap⟩
    · exact List.prefix_append _ _
    · rcases gap with _ | ⟨d, gap⟩
      · have hwhole : k.opener = front := by rw [hopener, List.append_nil]
        exact hwhole ▸ List.prefix_rfl
      · obtain ⟨rfl, -⟩ := List.cons_eq_cons.1 hgap
        exact absurd hopener (opener_ne_append_cons hfront hc gap)
  · exact fun h => h.trans (List.prefix_append _ _)

theorem first?_append (h : first? k t = some (inner, rest)) (u : Text) :
    first? k (t ++ u) = some (inner, rest ++ u) := by
  obtain ⟨rfl, hinner⟩ := first?_eq_some_iff.1 h
  exact first?_eq_some_iff.2 ⟨List.append_assoc .., hinner⟩

/-- Where a marker follows, nothing in front of it is one or could have become one. -/
theorem eq_none_of_first?_append (hinner : k.Admits inner)
    (h : first? k (front ++ (k.opener ++ inner ++ k.closer ++ rest)) = none) :
    first? k front = none ∧ ¬ k.Opens front := by
  constructor
  · refine Option.eq_none_iff_forall_ne_some.2 fun found hfound => ?_
    rw [first?_append hfound] at h
    cases h
  · rintro ⟨begun, rfl, hbegun⟩
    have hadmits : k.Admits (begun ++ (k.opener ++ inner)) := by
      refine ⟨fun hnil => hinner.1 ?_, ?_⟩
      · exact (List.append_eq_nil_iff.1 (List.append_eq_nil_iff.1 hnil).2).2
      · simp only [List.mem_append, not_or]
        exact ⟨hbegun, k.closing_not_mem_opener, hinner.2⟩
    have hsome : first? k (k.opener ++ begun ++ (k.opener ++ inner ++ k.closer ++ rest)) =
        some (begun ++ (k.opener ++ inner), rest) := first?_eq_some_iff.2 ⟨by simp, hadmits⟩
    rw [hsome] at h
    cases h

/--
A character that belongs neither to the end of an opener nor to a closer ends what is in front.
-/
theorem first?_append_cons_eq_none (hfront : front ≠ []) (hnone : first? k front = none)
    (hopens : ¬ k.Opens front) (hc : c ∉ k.opener.tail) (hclosing : c ≠ k.closing) (u : Text) :
    first? k (front ++ c :: u) = none := by
  refine Option.eq_none_iff_forall_ne_some.2 ?_
  rintro ⟨inner, rest⟩ h
  obtain ⟨htext, hinner⟩ := first?_eq_some_iff.1 h
  rw [List.append_assoc] at htext
  rcases List.append_eq_append_iff.1 htext with ⟨gap, hbegun, hrest⟩ | ⟨gap, hwhole, hrest⟩
  · rcases gap with _ | ⟨d, gap⟩
    · exact hclosing (List.cons_eq_cons.1 hrest).1
    · obtain ⟨rfl, -⟩ := List.cons_eq_cons.1 hrest
      -- The character stands in the opener or in the inner text.
      rcases List.append_eq_append_iff.1 hbegun with ⟨begun, rfl, rfl⟩ | ⟨more, hopener, hmore⟩
      · exact hopens ⟨begun, rfl, fun hmem => hinner.2 (List.mem_append_left _ hmem)⟩
      · rcases more with _ | ⟨e, more⟩
        · exact hopens ⟨[], by simp [hopener], by simp⟩
        · obtain ⟨rfl, -⟩ := List.cons_eq_cons.1 hmore
          exact opener_ne_append_cons hfront hc more hopener
  · rcases gap with _ | ⟨d, _ | ⟨e, gap⟩⟩
    · exact hclosing (List.cons_eq_cons.1 hrest).1.symm
    · exact hclosing (List.cons_eq_cons.1 (List.cons_eq_cons.1 hrest).2).1.symm
    · obtain ⟨rfl, htail⟩ := List.cons_eq_cons.1 hrest
      obtain ⟨rfl, -⟩ := List.cons_eq_cons.1 htail
      have hsome : first? k front = some (inner, gap) :=
        first?_eq_some_iff.2 ⟨by simp [hwhole, Kind.closer], hinner⟩
      rw [hnone] at hsome
      cases hsome

/-- The same marker so many bytes further on. -/
def shift (n : Nat) (m : Marker) : Marker := { m with start := n + m.start }

end Marker

namespace Segment

/-- The text of a literal, or what a marker asks for. -/
def content : Segment → Text ⊕ Text
  | literal t => .inl t
  | marker m => .inr m.payload

variable {segments segments' : List Segment}

theorem exists_literal_of_content {t : Text}
    (h : (literal t :: segments).map content = segments'.map content) :
    ∃ rest, segments' = literal t :: rest ∧ segments.map content = rest.map content := by
  obtain ⟨s, rest, rfl, hs, hrest⟩ := List.map_eq_cons_iff.1 h.symm
  cases s with
  | literal t' =>
    cases hs
    exact ⟨rest, rfl, hrest.symm⟩
  | marker m => cases hs

theorem exists_marker_of_content {m : Marker}
    (h : (marker m :: segments).map content = segments'.map content) :
    ∃ m' rest, segments' = marker m' :: rest ∧ m.payload = m'.payload ∧
      segments.map content = rest.map content := by
  obtain ⟨s, rest, rfl, hs, hrest⟩ := List.map_eq_cons_iff.1 h.symm
  cases s with
  | literal t => cases hs
  | marker m' => exact ⟨m', rest, rfl, (Sum.inr.inj hs).symm, hrest.symm⟩

theorem eq_nil_of_content (h : [] = segments'.map content) : segments' = [] :=
  List.map_eq_nil_iff.1 h.symm

theorem splice_congr (h : segments.map content = segments'.map content) (values : List Text) :
    splice segments values = splice segments' values := by
  induction segments generalizing segments' values with
  | nil => rw [eq_nil_of_content h]
  | cons s segments ih =>
    cases s with
    | literal t =>
      obtain ⟨rest, rfl, hrest⟩ := exists_literal_of_content h
      exact congrArg (t ++ ·) (ih hrest values)
    | marker m =>
      obtain ⟨m', rest, rfl, -, hrest⟩ := exists_marker_of_content h
      cases values with
      | nil => exact ih hrest []
      | cons value values => exact congrArg (value ++ ·) (ih hrest values)

end Segment

namespace Marker

open Segment

theorem map_content_glue (c : Char) {segments segments' : List Segment}
    (h : segments.map content = segments'.map content) :
    (glue c segments).map content = (glue c segments').map content := by
  rcases segments with _ | ⟨t | m, segments⟩
  · rw [eq_nil_of_content h]
  · obtain ⟨rest, rfl, hrest⟩ := exists_literal_of_content h
    exact congrArg (content (.literal (c :: t)) :: ·) hrest
  · obtain ⟨m', rest, rfl, -, -⟩ := exists_marker_of_content h
    exact congrArg (content (.literal [c]) :: ·) h

theorem markers_scanFrom_shift (k : Kind) (n start : Nat) (t : Text) :
    markers (scanFrom k (n + start) t) = (markers (scanFrom k start t)).map (shift n) := by
  fun_induction scanFrom k start t with
  | case1 start => simp [scanFrom]
  | case2 start c t inner rest hfirst m ih =>
    rw [scanFrom_of_some hfirst, markers_marker, markers_marker, List.map_cons, ← ih]
    simp only [m, shift, stop, written, Nat.add_assoc]
  | case3 start c t hfirst ih =>
    rw [scanFrom_of_none hfirst, markers_glue, markers_glue, Nat.add_assoc, ih]

theorem map_content_scanFrom (k : Kind) (start start' : Nat) (t : Text) :
    (scanFrom k start t).map content = (scanFrom k start' t).map content := by
  fun_induction scanFrom k start t generalizing start' with
  | case1 => simp [scanFrom]
  | case2 start c t inner rest hfirst m ih =>
    rw [scanFrom_of_some hfirst, List.map_cons, List.map_cons, ih]
    rfl
  | case3 start c t hfirst ih =>
    rw [scanFrom_of_none hfirst]
    exact map_content_glue c (ih _)

end Marker
end Inlay
