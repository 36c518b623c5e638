import Inlay.Marker.Stray
import Inlay.Proofs.Marker.Occurrence
import Inlay.Proofs.Text.Bytes

namespace Inlay.Marker

open Segment

variable {k : Kind} {t : Text} {start place : Nat}

def Spans (m : Marker) (place : Nat) : Prop := m.start ≤ place ∧ place < m.stop

theorem start_lt_stop (m : Marker) : m.start < m.stop := by
  have hsize : 0 < m.written.size := Text.size_pos (by simp [written, Kind.closer])
  unfold stop
  omega

theorem Kind.exists_opener (k : Kind) : ∃ d, d ≠ '$' ∧ k.opener = ['$', d, d] := by
  cases k <;> exact ⟨_, by decide, rfl⟩

theorem scanFrom_of_ne {c : Char} (hc : c ≠ '$') (k : Kind) (start : Nat) (t : Text) :
    scanFrom k start (c :: t) = glue c (scanFrom k (start + c.utf8Size) t) := by
  refine scanFrom_of_none (Option.eq_none_iff_forall_ne_some.2 fun found h => ?_) start
  obtain ⟨d, -, hopener⟩ := k.exists_opener
  have hhead := congrArg List.head? (eq_of_first? h)
  rw [hopener] at hhead
  exact hc (Option.some.inj hhead)

def lead : List Segment → Text
  | .literal t :: _ => t
  | _ => []

theorem lead_glue (c : Char) (segments : List Segment) :
    lead (glue c segments) = c :: lead segments := by
  rcases segments with _ | ⟨_ | _, segments⟩ <;> rfl

theorem flatMap_written_glue (c : Char) (segments : List Segment) :
    (glue c segments).flatMap Segment.written = c :: segments.flatMap Segment.written := by
  rcases segments with _ | ⟨_ | _, segments⟩ <;> rfl

theorem flatMap_written_scanFrom (k : Kind) (start : Nat) (t : Text) :
    (scanFrom k start t).flatMap Segment.written = t := by
  fun_induction scanFrom k start t with
  | case1 => rfl
  | case2 start c t inner rest hfirst m ih =>
    rw [List.flatMap_cons, ih, eq_of_first? hfirst]
    rfl
  | case3 start c t _ ih => rw [flatMap_written_glue, ih]

theorem lead_prefix_text (k : Kind) (start : Nat) (t : Text) : lead (scanFrom k start t) <+: t := by
  have hwhole := flatMap_written_scanFrom k start t
  unfold lead
  split
  · rename_i text rest hscan
    rw [hscan, List.flatMap_cons] at hwhole
    exact ⟨_, hwhole⟩
  · exact List.nil_prefix

/-- An opener that begins in front of scanned text ends before its first marker. -/
theorem isPrefixOf_lead (k : Kind) (start : Nat) (c : Char) (t : Text) :
    k.opener.isPrefixOf (c :: lead (scanFrom k start t)) = k.opener.isPrefixOf (c :: t) := by
  rw [Bool.eq_iff_iff, List.isPrefixOf_iff_prefix, List.isPrefixOf_iff_prefix]
  constructor
  · intro h
    exact h.trans ((List.prefix_cons_inj c).2 (lead_prefix_text k start t))
  · rintro ⟨after, h⟩
    obtain ⟨d, hd, hopener⟩ := k.exists_opener
    rw [hopener] at h ⊢
    obtain ⟨rfl, rfl⟩ : '$' = c ∧ d :: d :: after = t := List.cons_eq_cons.1 h
    rw [scanFrom_of_ne hd, scanFrom_of_ne hd, lead_glue, lead_glue]
    exact ⟨_, rfl⟩

theorem occurrences_cons (pattern : Text) (start : Nat) (c : Char) (t : Text) :
    Text.occurrences pattern start (c :: t) =
      (if pattern.isPrefixOf (c :: t) then [start] else []) ++
        Text.occurrences pattern (start + c.utf8Size) t := by
  rw [Text.occurrences]
  split <;> rfl

theorem strayFrom_glue (k : Kind) (start : Nat) (c : Char) (segments : List Segment) :
    strayFrom k start (glue c segments) =
      (if k.opener.isPrefixOf (c :: lead segments) then [start] else []) ++
        strayFrom k (start + c.utf8Size) segments := by
  have halone : Text.occurrences k.opener start [c] =
      if k.opener.isPrefixOf [c] then [start] else [] := by
    rw [occurrences_cons]
    cases k <;> simp [Text.occurrences, Kind.opener]
  rcases segments with _ | ⟨text | m, segments⟩
  · change Text.occurrences k.opener start [c] ++ [] =
      (if k.opener.isPrefixOf [c] then _ else _) ++ []
    rw [halone]
  · change Text.occurrences k.opener start (c :: text) ++ _ =
      (if k.opener.isPrefixOf (c :: text) then _ else _) ++ (_ ++ _)
    rw [occurrences_cons, List.append_assoc, Text.size_cons, Nat.add_assoc]
  · change Text.occurrences k.opener start [c] ++ _ =
      (if k.opener.isPrefixOf [c] then _ else _) ++ strayFrom k _ (.marker m :: segments)
    rw [halone, Text.size_cons, Text.size_nil, Nat.add_zero]

theorem strayFrom_glue_scanFrom (k : Kind) (start : Nat) (c : Char) (t : Text) :
    strayFrom k start (glue c (scanFrom k (start + c.utf8Size) t)) =
      (if k.opener.isPrefixOf (c :: t) then [start] else []) ++
        strayFrom k (start + c.utf8Size) (scanFrom k (start + c.utf8Size) t) := by
  rw [strayFrom_glue, isPrefixOf_lead]

theorem start_le_of_mem_scanFrom {m : Marker} (hm : m ∈ markers (scanFrom k start t)) :
    start ≤ m.start := by
  fun_induction scanFrom k start t with
  | case1 => cases hm
  | case2 start c t inner rest hfirst m₀ ih =>
    rcases List.mem_cons.1 hm with rfl | hm
    · exact Nat.le_refl _
    · exact Nat.le_trans (Nat.le_of_lt m₀.start_lt_stop) (ih hm)
  | case3 start c t _ ih =>
    have hle := ih (markers_glue c _ ▸ hm)
    omega

/--
The offsets of the stray openers are those at which an opener stands outside all markers. The
induction follows the scan, and what stands in front of an opener is either a whole marker and more,
or nothing, or a first character and more.
-/
theorem mem_strayFrom_iff :
    place ∈ strayFrom k start (scanFrom k start t) ↔
      (∃ before after, t = before ++ (k.opener ++ after) ∧ start + before.size = place) ∧
        ∀ m ∈ markers (scanFrom k start t), ¬ m.Spans place := by
  fun_induction scanFrom k start t with
  | case1 start =>
    -- No opener is empty, so that none stands in the empty text.
    apply iff_of_false (by simp [strayFrom])
    rintro ⟨⟨before, after, h, -⟩, -⟩
    obtain ⟨d, -, hopener⟩ := k.exists_opener
    simp [hopener] at h
  | case2 start c t inner rest hfirst m ih =>
    have hm : m.stop = start + m.written.size := rfl
    -- An opener outside all markers does not begin in this one, which leaves the text behind it.
    rw [strayFrom, ← hm, ih, markers_marker]
    have htext : c :: t = m.written ++ rest := eq_of_first? hfirst
    constructor
    · rintro ⟨⟨before, after, rfl, rfl⟩, hfree⟩
      refine ⟨⟨m.written ++ before, after, ?_, ?_⟩, ?_⟩
      · rw [htext, List.append_assoc]
      · rw [Text.size_append, hm, Nat.add_assoc]
      · intro m' hm' hspans
        rcases List.mem_cons.1 hm' with rfl | hm'
        · unfold Spans at hspans
          omega
        · exact hfree m' hm' hspans
    · rintro ⟨⟨before, after, hsplit, rfl⟩, hfree⟩
      have houtside : m.written.size ≤ before.size := by
        have hnot := hfree m List.mem_cons_self
        unfold Spans at hnot
        have hstart : m.start = start := rfl
        rw [hm, hstart] at hnot
        omega
      obtain ⟨gap, rfl, hrest⟩ := Text.exists_eq_append_of_size_le (htext ▸ hsplit) houtside
      refine ⟨⟨gap, after, hrest, ?_⟩, fun m' hm' => hfree m' (List.mem_cons_of_mem m hm')⟩
      rw [Text.size_append, hm, Nat.add_assoc]
  | case3 start c t hfirst ih =>
    -- Without a marker here, an opener that stands here is a stray one of its own.
    rw [strayFrom_glue_scanFrom, List.mem_append, ih, markers_glue]
    have hc := c.utf8Size_pos
    constructor
    · rintro (hhead | ⟨⟨before, after, rfl, rfl⟩, hfree⟩)
      · split at hhead
        · rename_i hpre
          obtain rfl := List.mem_singleton.1 hhead
          obtain ⟨after, hafter⟩ := List.isPrefixOf_iff_prefix.1 hpre
          refine ⟨⟨[], after, hafter.symm, by simp⟩, fun m hm hspans => ?_⟩
          have hle := start_le_of_mem_scanFrom hm
          have hstart := hspans.1
          omega
        · cases hhead
      · refine ⟨⟨c :: before, after, rfl, ?_⟩, hfree⟩
        rw [Text.size_cons, Nat.add_assoc]
    · rintro ⟨⟨before, after, hsplit, rfl⟩, hfree⟩
      rcases before with _ | ⟨d, before⟩
      · left
        rw [if_pos (List.isPrefixOf_iff_prefix.2 ⟨after, hsplit.symm⟩)]
        exact List.mem_singleton.2 (Nat.add_zero start)
      · right
        obtain ⟨rfl, rfl⟩ : c = d ∧ t = before ++ (k.opener ++ after) := List.cons_eq_cons.1 hsplit
        refine ⟨⟨before, after, rfl, ?_⟩, hfree⟩
        rw [Text.size_cons, Nat.add_assoc]

theorem le_of_mem_strayFrom (h : place ∈ strayFrom k start (scanFrom k start t)) :
    start ≤ place := by
  obtain ⟨⟨before, after, -, rfl⟩, -⟩ := mem_strayFrom_iff.1 h
  omega

theorem pairwise_strayFrom (k : Kind) (start : Nat) (t : Text) :
    (strayFrom k start (scanFrom k start t)).Pairwise (· < ·) := by
  fun_induction scanFrom k start t with
  | case1 => exact .nil
  | case2 start c t inner rest hfirst m ih => exact ih
  | case3 start c t _ ih =>
    rw [strayFrom_glue_scanFrom]
    split
    · refine List.pairwise_cons.2 ⟨fun place hplace => ?_, ih⟩
      have hle := le_of_mem_strayFrom hplace
      have hc := c.utf8Size_pos
      omega
    · exact ih

theorem not_standsAt_of_not_spans (hfree : ∀ m ∈ markers (scan k t), ¬ m.Spans place)
    {inner : Text} (hinner : k.Admits inner) :
    ¬ Text.StandsAt (k.opener ++ inner ++ k.closer) t place := by
  intro hstands
  rw [Text.standsAt_iff (by simp [Kind.closer])] at hstands
  obtain ⟨before, after, ht, rfl⟩ := hstands
  obtain ⟨m, hm, hcovers⟩ := exists_covers 0 ht hinner
  rw [Nat.zero_add] at hcovers
  apply hfree m hm
  rcases hcovers with ⟨hstart, -⟩ | ⟨hbefore, hbehind⟩
  · have hlt := m.start_lt_stop
    exact ⟨by omega, by omega⟩
  · exact ⟨by omega, hbehind⟩

theorem opener_prefix_snippetAt {before after : Text} (ht : t = before ++ (k.opener ++ after)) :
    k.opener <+: snippetAt t before.size := by
  have hrest : t.fromByte? before.size = some (k.opener ++ after) :=
    Text.fromByte?_eq_some_iff.2 ⟨before, ht, rfl⟩
  obtain ⟨d, -, hopener⟩ := k.exists_opener
  have hline : ∀ c ∈ k.opener, decide (c ≠ '\n') = true := by
    cases k <;> simp [Kind.opener]
  unfold snippetAt
  rw [hrest, Option.getD_some, List.takeWhile_append_of_pos hline, hopener]
  exact ⟨_, rfl⟩

/--
The stray openers are told of exactly. Their offsets come in the order of the text and each once,
and they are the byte offsets at which an opener stands that no marker spans. A character begins at
each of them, nothing with the form of a marker begins there, and the snippet shows the opener.
-/
theorem strayOpeners_scan (k : Kind) (t : Text) :
    (strayOpeners k (scan k t)).Pairwise (· < ·) ∧
      (∀ place, place ∈ strayOpeners k (scan k t) ↔
        k.opener.StandsAt t place ∧ ∀ m ∈ markers (scan k t), ¬ m.Spans place) ∧
      ∀ place ∈ strayOpeners k (scan k t),
        (t.fromByte? place).isSome ∧
          (∀ inner, k.Admits inner → ¬ Text.StandsAt (k.opener ++ inner ++ k.closer) t place) ∧
          k.opener <+: snippetAt t place := by
  have hne : k.opener ≠ [] := by
    obtain ⟨d, -, hopener⟩ := k.exists_opener
    simp [hopener]
  have hmem (place : Nat) : place ∈ strayOpeners k (scan k t) ↔
      k.opener.StandsAt t place ∧ ∀ m ∈ markers (scan k t), ¬ m.Spans place := by
    rw [Text.standsAt_iff hne]
    unfold strayOpeners scan
    simpa only [Nat.zero_add] using @mem_strayFrom_iff k t 0 place
  refine ⟨pairwise_strayFrom k 0 t, hmem, fun place hplace => ?_⟩
  obtain ⟨hstands, hfree⟩ := (hmem place).1 hplace
  obtain ⟨before, after, ht, rfl⟩ := (Text.standsAt_iff hne).1 hstands
  refine ⟨?_, fun inner => not_standsAt_of_not_spans hfree, opener_prefix_snippetAt ht⟩
  rw [Text.fromByte?_eq_some_iff.2 ⟨before, ht, rfl⟩]
  rfl

/-- An opener without inner text behind a wide character, a marker, and an opener without an end. -/
def spread : Text := "é$(()) $((a))$((b".toList

theorem strayOpeners_scan_spread :
    strayOpeners .command (scan .command spread) = [2, 14] ∧
      Kind.command.opener.StandsAt spread 14 ∧
      (∀ m ∈ markers (scan .command spread), ¬ m.Spans 14) ∧ (spread.fromByte? 14).isSome ∧
      ¬ Text.StandsAt (Kind.command.opener ++ ['b'] ++ Kind.command.closer) spread 14 ∧
      Kind.command.opener <+: snippetAt spread 14 := by
  obtain ⟨-, hmem, hat⟩ := strayOpeners_scan .command spread
  have hplaces : strayOpeners .command (scan .command spread) = [2, 14] := by decide +kernel
  have hstray : 14 ∈ strayOpeners .command (scan .command spread) := by
    rw [hplaces]
    decide
  obtain ⟨hstands, hfree⟩ := (hmem 14).1 hstray
  obtain ⟨hbegins, hnone, hshown⟩ := hat 14 hstray
  have hinner : Kind.command.Admits ['b'] := ⟨by decide, by decide⟩
  exact ⟨hplaces, hstands, hfree, hbegins, hnone ['b'] hinner, hshown⟩

end Inlay.Marker
