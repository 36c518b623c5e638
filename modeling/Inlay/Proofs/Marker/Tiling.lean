import Inlay.Marker.Scan
import Inlay.Marker.Splice
import Inlay.Proofs.Text.Slice
import Mathlib.Data.List.Chain

namespace Inlay

namespace Marker

/-- The text can stand between the delimiters of a marker. -/
def Kind.Admits (k : Kind) (inner : Text) : Prop := inner ≠ [] ∧ k.closing ∉ inner

theorem first?_eq_some_iff {k : Kind} {t inner rest : Text} :
    first? k t = some (inner, rest) ↔
      t = k.opener ++ inner ++ k.closer ++ rest ∧ k.Admits inner := by
  constructor
  · intro h
    refine ⟨eq_of_first? h, ?_⟩
    simp only [first?, Option.bind_eq_bind, Option.bind_eq_some_iff] at h
    obtain ⟨body, -, tail, -, h⟩ := h
    split at h
    · cases h
    · rename_i hne
      cases h
      exact ⟨hne, fun hmem => by simpa using List.mem_takeWhile_imp hmem⟩
  · rintro ⟨rfl, hne, hfree⟩
    -- The first closing character is the one behind the inner text.
    have hinner : ∀ c ∈ inner, (decide (c ≠ k.closing)) = true := by
      intro c hc
      simpa using fun h : c = k.closing => hfree (h ▸ hc)
    have hbody : Text.after? k.opener (k.opener ++ inner ++ k.closer ++ rest) =
        some (inner ++ (k.closer ++ rest)) := Text.after?_eq_some_iff.2 (by simp)
    have htake : (inner ++ (k.closer ++ rest)).takeWhile (· ≠ k.closing) = inner := by
      rw [List.takeWhile_append_of_pos hinner]
      simp [Kind.closer]
    have hdrop : (inner ++ (k.closer ++ rest)).dropWhile (· ≠ k.closing) = k.closer ++ rest := by
      rw [List.dropWhile_append_of_pos hinner]
      simp [Kind.closer]
    have hafter : Text.after? k.closer (k.closer ++ rest) = some rest :=
      Text.after?_eq_some_iff.2 rfl
    simp only [first?, hbody, Option.bind_eq_bind, Option.bind_some, htake, hdrop, hafter,
      if_neg hne]

theorem scanFrom_of_none {k : Kind} {c : Char} {t : Text} (h : first? k (c :: t) = none)
    (start : Nat) : scanFrom k start (c :: t) = glue c (scanFrom k (start + c.utf8Size) t) := by
  rw [scanFrom]
  split
  · rename_i hfirst
    rw [h] at hfirst
    cases hfirst
  · rfl

theorem scanFrom_of_some {k : Kind} {t inner rest : Text} (h : first? k t = some (inner, rest))
    (start : Nat) :
    scanFrom k start t = .marker ⟨k, inner, start⟩ :: scanFrom k (stop ⟨k, inner, start⟩) rest := by
  cases t with
  | nil =>
    have hshorter := length_lt_of_first? h
    simp at hshorter
  | cons c t =>
    rw [scanFrom]
    split
    · rename_i hfirst
      rw [h] at hfirst
      cases hfirst
      rfl
    · rename_i hfirst
      rw [h] at hfirst
      cases hfirst

@[simp] theorem markers_glue (c : Char) (segments : List Segment) :
    Segment.markers (glue c segments) = Segment.markers segments := by
  rw [glue.eq_def]
  split <;> rfl

theorem splice_glue (c : Char) (segments : List Segment) (values : List Text) :
    Segment.splice (glue c segments) values = c :: Segment.splice segments values := by
  rcases segments with _ | ⟨_ | _, segments⟩ <;> rfl

end Marker

namespace Segment

@[simp] theorem markers_nil : markers [] = [] := rfl

@[simp] theorem markers_literal (t : Text) (segments : List Segment) :
    markers (.literal t :: segments) = markers segments := rfl

@[simp] theorem markers_marker (m : Marker) (segments : List Segment) :
    markers (.marker m :: segments) = m :: markers segments := rfl

/--
The segments stand in the text one after the other from one byte offset to another. Each has a byte
at least, and a marker's own offsets are those at which it stands.
-/
inductive Tiles (t : Text) : Nat → List Segment → Nat → Prop
  | nil {stop : Nat} (hstop : t.slice? stop stop = some []) : Tiles t stop [] stop
  | cons {s : Segment} {segments : List Segment} {start stop last : Nat}
      (hslice : t.slice? start stop = some s.written) (hlt : start < stop)
      (hmarker : ∀ m, s = .marker m → m.start = start ∧ m.stop = stop)
      (hrest : Tiles t stop segments last) : Tiles t start (s :: segments) last

namespace Tiles

variable {t : Text} {start last : Nat} {segments : List Segment}

theorem glue {before after : Text} {c : Char} (ht : t = before ++ (c :: after))
    (hstart : before.size = start) (h : Tiles t (start + c.utf8Size) segments last) :
    Tiles t start (Marker.glue c segments) last := by
  have hc := c.utf8Size_pos
  have halone : t.slice? start (start + c.utf8Size) = some [c] :=
    Text.slice?_eq_some_iff.2 ⟨before, after, ht, hstart, by simp⟩
  rw [Marker.glue.eq_def]
  split
  · rename_i text rest
    cases h with
    | cons hslice hlt _ hrest =>
      obtain ⟨before', after', ht', hstart', hstop⟩ := Text.slice?_eq_some_iff.1 hslice
      have htail : t.fromByte? (start + c.utf8Size) = some after :=
        Text.fromByte?_eq_some_iff.2 ⟨before ++ [c], by simp [ht], by simp [hstart]⟩
      obtain rfl : after = text ++ after' := by
        rw [Text.fromByte?_eq_some_iff.2 ⟨before', ht', hstart'⟩] at htail
        exact (Option.some.inj htail).symm
      refine .cons (Text.slice?_eq_some_iff.2 ⟨before, after', ht, hstart, ?_⟩) (by omega) ?_ hrest
      · rw [← hstop]
        simp [written, Nat.add_assoc]
      · rintro m ⟨⟩
  · refine .cons halone (by omega) ?_ h
    rintro m ⟨⟩

theorem ne_nil (h : Tiles t start segments last) {s : Segment} (hs : s ∈ segments) :
    s.written ≠ [] := by
  induction h with
  | nil => cases hs
  | cons hslice hlt _ _ ih =>
    rcases List.mem_cons.1 hs with rfl | hs
    · intro hnil
      obtain ⟨-, -, -, -, hstop⟩ := Text.slice?_eq_some_iff.1 hslice
      rw [hnil, Text.size_nil] at hstop
      omega
    · exact ih hs

theorem le (h : Tiles t start segments last) : start ≤ last := by
  induction h with
  | nil => exact Nat.le_refl _
  | cons _ hlt _ _ ih => omega

theorem markers (h : Tiles t start segments last) :
    (∀ m ∈ Segment.markers segments, start ≤ m.start ∧ m.stop ≤ last ∧
        t.slice? m.start m.stop = some m.written) ∧
      (Segment.markers segments).Pairwise fun m m' => m.stop ≤ m'.start := by
  induction h with
  | nil => simp
  | @cons s segments start stop last hslice hlt hmarker hrest ih =>
    obtain ⟨hall, hapart⟩ := ih
    have hle := hrest.le
    cases s with
    | literal text =>
      refine ⟨fun m hm => ?_, hapart⟩
      obtain ⟨hfrom, hto, hat⟩ := hall m hm
      exact ⟨by omega, hto, hat⟩
    | marker m₀ =>
      obtain ⟨rfl, rfl⟩ := hmarker m₀ rfl
      rw [markers_marker]
      constructor
      · intro m hm
        rcases List.mem_cons.1 hm with rfl | hm
        · exact ⟨Nat.le_refl _, hle, hslice⟩
        · obtain ⟨hfrom, hto, hat⟩ := hall m hm
          exact ⟨by omega, hto, hat⟩
      · exact List.pairwise_cons.2 ⟨fun m hm => (hall m hm).1, hapart⟩

theorem exists_splice (h : Tiles t start segments last) :
    ∃ values, (Segment.markers segments).mapM (fun m => t.slice? m.start m.stop) = some values ∧
      t.slice? start last = some (splice segments values) := by
  induction h with
  | nil hstop => exact ⟨[], rfl, hstop⟩
  | @cons s segments start stop last hslice _ hmarker _ ih =>
    obtain ⟨values, hvalues, hrest⟩ := ih
    have hwhole := Text.slice?_append hslice hrest
    cases s with
    | literal text => exact ⟨values, hvalues, hwhole⟩
    | marker m =>
      obtain ⟨rfl, rfl⟩ := hmarker m rfl
      refine ⟨m.written :: values, ?_, hwhole⟩
      simp only [written] at hslice
      simp [hslice, hvalues]

end Tiles

/-- One of the two is a marker. -/
def Parted (s s' : Segment) : Prop := s.marker?.isSome ∨ s'.marker?.isSome

end Segment

namespace Marker

open Segment

theorem tiles_scanFrom (k : Kind) {t : Text} {start : Nat} (before after : Text)
    (ht : t = before ++ after) (hstart : before.size = start) :
    Tiles t start (scanFrom k start after) t.size := by
  fun_induction scanFrom k start after generalizing before with
  | case1 start =>
    obtain rfl : t = before := by rw [ht, List.append_nil]
    rw [hstart]
    exact .nil (Text.slice?_eq_some_iff.2 ⟨t, [], by simp, hstart, rfl⟩)
  | case2 start c after inner rest hfirst m =>
    rename_i ih
    obtain ⟨hafter, -⟩ := first?_eq_some_iff.1 hfirst
    have hrest : t = before ++ m.written ++ rest := by
      rw [ht, hafter]
      simp [m, written]
    have hstop : (before ++ m.written).size = m.stop := by
      rw [Text.size_append, hstart]
      rfl
    have hpos : 0 < m.written.size := Text.size_pos (by simp [written, Kind.closer])
    have hslice : t.slice? start m.stop = some m.written :=
      Text.slice?_eq_some_iff.2 ⟨before, rest, by simpa using hrest, hstart, rfl⟩
    refine .cons hslice (Nat.lt_add_of_pos_right hpos) ?_ (ih _ hrest hstop)
    rintro m' ⟨⟩
    exact ⟨rfl, rfl⟩
  | case3 start c after _ ih =>
    refine (ih (before ++ [c]) ?_ ?_).glue ht hstart
    · rw [ht, List.append_assoc, List.singleton_append]
    · simp [hstart]

theorem isChain_glue {c : Char} {segments : List Segment} (h : segments.IsChain Parted) :
    (glue c segments).IsChain Parted := by
  rw [glue.eq_def]
  split
  · rw [List.isChain_cons] at h ⊢
    exact h
  · rename_i hother
    refine List.isChain_cons.2 ⟨fun s hs => ?_, h⟩
    obtain ⟨rest, rfl⟩ := List.head?_eq_some_iff.1 (Option.mem_def.1 hs)
    cases s with
    | literal text => exact absurd rfl (hother text rest)
    | marker m => exact .inr rfl

theorem isChain_scanFrom (k : Kind) (start : Nat) (t : Text) :
    (scanFrom k start t).IsChain Parted := by
  fun_induction scanFrom k start t with
  | case1 => exact .nil
  | case2 start c t inner rest _ m ih =>
    exact List.isChain_cons.2 ⟨fun _ _ => .inl rfl, ih⟩
  | case3 start c t _ ih => exact isChain_glue ih

theorem splice_scan_nil {k : Kind} {t : Text} (h : Segment.markers (scan k t) = []) :
    splice (scan k t) [] = t := by
  have htiles : Tiles t 0 (scan k t) t.size := tiles_scanFrom k [] t rfl rfl
  obtain ⟨values, hvalues, hsplice⟩ := htiles.exists_splice
  rw [h] at hvalues
  obtain rfl : [] = values := Option.some.inj hvalues
  rw [Text.slice?_whole] at hsplice
  exact (Option.some.inj hsplice).symm

/--
Nothing of a text is lost by cutting it into literals and markers. The segments tile it from its
first byte to its last, so that no literal is empty, no two literals follow one another, and setting
in place of every marker the text that stands at its offsets gives the text back.
-/
theorem tiles_scan (k : Kind) (t : Text) :
    Tiles t 0 (scan k t) t.size ∧ .literal [] ∉ scan k t ∧ (scan k t).IsChain Parted ∧
      ∃ values, (Segment.markers (scan k t)).mapM (fun m => t.slice? m.start m.stop) = some values ∧
        splice (scan k t) values = t := by
  have htiles : Tiles t 0 (scan k t) t.size := tiles_scanFrom k [] t rfl rfl
  obtain ⟨values, hvalues, hsplice⟩ := htiles.exists_splice
  refine ⟨htiles, fun hmem => ?_, isChain_scanFrom k 0 t, values, hvalues, ?_⟩
  · exact htiles.ne_nil hmem rfl
  · rw [Text.slice?_whole] at hsplice
    exact (Option.some.inj hsplice).symm

end Marker
end Inlay
