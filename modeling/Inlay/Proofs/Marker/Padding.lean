import Inlay.Proofs.Marker.Front

namespace Inlay.Marker

open Segment

variable {k : Kind} {t before inner inner' after : Text} {start : Nat}

theorem Kind.isBlank_closing (k : Kind) : Text.isBlank k.closing = false := by
  cases k <;> decide

theorem Kind.Admits.pad {left right : Text} (hinner : k.Admits inner)
    (hleft : ∀ c ∈ left, Text.isBlank c = true) (hright : ∀ c ∈ right, Text.isBlank c = true) :
    k.Admits (left ++ inner ++ right) := by
  have hfree : ∀ pad : Text, (∀ c ∈ pad, Text.isBlank c = true) → k.closing ∉ pad := by
    intro pad hpad hmem
    have hblank := hpad _ hmem
    rw [k.isBlank_closing] at hblank
    cases hblank
  refine ⟨by simp [hinner.1], ?_⟩
  simp only [List.mem_append, not_or]
  exact ⟨⟨hfree left hleft, hinner.2⟩, hfree right hright⟩

/--
Whether a marker begins in front of another one does not depend on what the other one asks for.
-/
theorem first?_cons_append_eq_none {c : Char} (hinner : k.Admits inner)
    (h : first? k (c :: before ++ (k.opener ++ inner ++ k.closer ++ after)) = none)
    (inner' : Text) :
    first? k (c :: before ++ (k.opener ++ inner' ++ k.closer ++ after)) = none := by
  obtain ⟨hnone, hopens⟩ := eq_none_of_first?_append hinner h
  rw [k.written_eq]
  exact first?_append_cons_eq_none (List.cons_ne_nil c before) hnone hopens k.dollar_not_mem_tail
    (by cases k <;> decide) _

/--
Where a marker is found, another one that asks for the same would be found in its place, and the
rest of the text is cut in the same way. The induction follows the scan up to the marker.
-/
theorem map_content_scanFrom_append (hinner : k.Admits inner) (hinner' : k.Admits inner')
    (hpayload : inner'.trimBlank = inner.trimBlank)
    (ht : t = before ++ (k.opener ++ inner ++ k.closer ++ after))
    (hfound : ∃ m ∈ markers (scanFrom k start t), m.start = start + before.size) :
    (scanFrom k start (before ++ (k.opener ++ inner' ++ k.closer ++ after))).map content =
      (scanFrom k start t).map content := by
  fun_induction scanFrom k start t generalizing before with
  | case1 =>
    obtain ⟨m, hm, -⟩ := hfound
    cases hm
  | case2 start c t found rest hfirst m =>
    rename_i ih
    rcases before with _ | ⟨d, before⟩
    · -- This is the marker that is exchanged.
      have hsame : first? k (c :: t) = some (inner, after) := first?_eq_some_iff.2 ⟨ht, hinner⟩
      obtain ⟨rfl, rfl⟩ : found = inner ∧ rest = after := by simpa [hfirst] using hsame
      have hother : first? k (k.opener ++ inner' ++ k.closer ++ rest) = some (inner', rest) :=
        first?_eq_some_iff.2 ⟨rfl, hinner'⟩
      rw [List.nil_append, scanFrom_of_some hother, List.map_cons, List.map_cons,
        map_content_scanFrom k _ m.stop]
      exact congrArg (Sum.inr · :: _) hpayload
    · -- The marker that begins here ends in front of the other one.
      obtain ⟨m', hm', hstart⟩ := hfound
      have hpos := Text.size_pos (List.cons_ne_nil d before)
      rcases List.mem_cons.1 hm' with rfl | hm'
      · have hself : m.start = start := rfl
        omega
      have hbehind := start_le_of_mem_scanFrom hm'
      have hstop : m.stop = start + m.written.size := rfl
      have htext : m.written ++ rest = d :: before ++ (k.opener ++ inner ++ k.closer ++ after) :=
        (eq_of_first? hfirst).symm.trans ht
      obtain ⟨gap, hgap, hrest⟩ := Text.exists_eq_append_of_size_le htext (by omega)
      have hother : first? k (d :: before ++ (k.opener ++ inner' ++ k.closer ++ after)) =
          some (found, gap ++ (k.opener ++ inner' ++ k.closer ++ after)) := by
        rw [hgap, List.append_assoc]
        exact first?_eq_some_iff.2 ⟨rfl, (first?_eq_some_iff.1 hfirst).2⟩
      have hsize : start + Text.size (d :: before) = m.stop + gap.size := by
        rw [hgap, Text.size_append, hstop, Nat.add_assoc]
      rw [scanFrom_of_some hother, List.map_cons, List.map_cons]
      exact congrArg (content (.marker m) :: ·) (ih hrest ⟨m', hm', hstart.trans hsize⟩)
  | case3 start c t hfirst ih =>
    rcases before with _ | ⟨d, before⟩
    · -- Where the stretch begins there is a marker.
      rw [first?_eq_some_iff.2 ⟨ht, hinner⟩] at hfirst
      cases hfirst
    · obtain ⟨rfl, htail⟩ : c = d ∧ t = before ++ (k.opener ++ inner ++ k.closer ++ after) :=
        List.cons_eq_cons.1 ht
      rw [ht] at hfirst
      have hother : first? k (c :: (before ++ (k.opener ++ inner' ++ k.closer ++ after))) = none :=
        first?_cons_append_eq_none hinner hfirst inner'
      rw [List.cons_append, scanFrom_of_none hother]
      apply map_content_glue
      apply ih htail
      obtain ⟨m, hm, hstart⟩ := hfound
      refine ⟨m, markers_glue c _ ▸ hm, ?_⟩
      rw [hstart, Text.size_cons, Nat.add_assoc]

/--
White space around what a marker asks for makes no difference. Where a marker is found, the same
literals and the same payloads are found once there is more white space within it at either end, and
the same values make the same text of it.
-/
theorem scan_pad {k : Kind} {before inner after left right : Text} (hinner : k.Admits inner)
    (hleft : ∀ c ∈ left, Text.isBlank c = true) (hright : ∀ c ∈ right, Text.isBlank c = true)
    (hfound : ∃ m ∈ markers (scan k (before ++ (k.opener ++ inner ++ k.closer ++ after))),
      m.start = before.size) :
    let padded := scan k (before ++ (k.opener ++ (left ++ inner ++ right) ++ k.closer ++ after))
    let plain := scan k (before ++ (k.opener ++ inner ++ k.closer ++ after))
    padded.map content = plain.map content ∧
      ∀ values, splice padded values = splice plain values := by
  intro padded plain
  obtain ⟨m, hm, hstart⟩ := hfound
  have hsame : padded.map content = plain.map content :=
    map_content_scanFrom_append hinner (hinner.pad hleft hright) (Text.trim_pad hleft hright inner)
      rfl ⟨m, hm, hstart.trans (Nat.zero_add _).symm⟩
  exact ⟨hsame, splice_congr hsame⟩

/-- White space of several sorts, behind an opener that meets a lone closing character. -/
theorem scan_pad_lone :
    (∃ m ∈ markers (scan .inclusion "$<<x> $<<a>>>".toList), m.start = 6) ∧
      (scan .inclusion "$<<x> $<<\n\u3000a\u0085>>>".toList).map content =
        [.inl "$<<x> ".toList, .inr ['a'], .inl ['>']] ∧
      splice (scan .inclusion "$<<x> $<<\n\u3000a\u0085>>>".toList) [['b']] =
        splice (scan .inclusion "$<<x> $<<a>>>".toList) [['b']] := by
  have hinner : Kind.inclusion.Admits ['a'] := ⟨by decide, by decide⟩
  have hleft : ∀ c ∈ "\n\u3000".toList, Text.isBlank c = true := List.all_eq_true.1 (by decide)
  have hright : ∀ c ∈ "\u0085".toList, Text.isBlank c = true := List.all_eq_true.1 (by decide)
  have hfound : ∃ m ∈ markers (scan .inclusion ("$<<x> ".toList ++
      (Kind.inclusion.opener ++ ['a'] ++ Kind.inclusion.closer ++ ['>']))),
      m.start = Text.size "$<<x> ".toList := by
    decide +kernel
  obtain ⟨hcontent, hsplice⟩ := scan_pad hinner hleft hright hfound
  exact ⟨hfound, hcontent.trans (by decide +kernel), hsplice [['b']]⟩

end Inlay.Marker
