import Inlay.Proofs.Marker.Tiling

namespace Inlay.Marker

open Segment

variable {k : Kind} {t : Text} {start : Nat} {m : Marker}

theorem admits_of_mem_scanFrom (hm : m ∈ markers (scanFrom k start t)) :
    m.kind = k ∧ k.Admits m.inner := by
  fun_induction scanFrom k start t with
  | case1 => cases hm
  | case2 start c t inner rest hfirst m₀ ih =>
    rw [markers_marker] at hm
    rcases List.mem_cons.1 hm with rfl | hm
    · exact ⟨rfl, (first?_eq_some_iff.1 hfirst).2⟩
    · exact ih hm
  | case3 start c t _ ih => exact ih (markers_glue c _ ▸ hm)

/-- The marker is the one that begins at an offset, or begins before it and ends behind it. -/
def Covers (m : Marker) (inner : Text) (place : Nat) : Prop :=
  (m.start = place ∧ m.inner = inner) ∨ (m.start < place ∧ place < m.stop)

/--
A stretch with the form of a marker is found, or the scan is inside a marker where it begins. The
induction follows the scan: a marker that the scan finds either reaches past the beginning of the
stretch or ends before it, and then the stretch stands in what is still to be scanned.
-/
theorem exists_covers (start : Nat) {before inner after : Text}
    (ht : t = before ++ (k.opener ++ inner ++ k.closer ++ after)) (hinner : k.Admits inner) :
    ∃ m ∈ markers (scanFrom k start t), m.Covers inner (start + before.size) := by
  fun_induction scanFrom k start t generalizing before with
  | case1 start =>
    -- An opener has a size, and the empty text has none.
    have hsize := congrArg Text.size ht
    simp only [Text.size_nil, Text.size_append, Kind.size_opener] at hsize
    omega
  | case2 start c t found rest hfirst m =>
    rename_i ih
    obtain ⟨hfound, hadmits⟩ := first?_eq_some_iff.1 hfirst
    rw [markers_marker]
    rcases Nat.lt_or_ge before.size m.written.size with hlt | hge
    · refine ⟨m, List.mem_cons_self, ?_⟩
      rcases before with _ | ⟨d, before⟩
      · left
        have hsame : first? k (c :: t) = some (inner, after) := first?_eq_some_iff.2 ⟨ht, hinner⟩
        rw [hfirst] at hsame
        cases hsame
        exact ⟨rfl, rfl⟩
      · right
        have hpos : 0 < Text.size (d :: before) := Text.size_pos (List.cons_ne_nil d before)
        exact ⟨Nat.lt_add_of_pos_right hpos, Nat.add_lt_add_left hlt start⟩
    · -- The marker ends before the stretch.
      have hwritten : m.written ++ rest = before ++ (k.opener ++ inner ++ k.closer ++ after) :=
        hfound ▸ ht
      obtain ⟨gap, rfl, hrest⟩ := Text.exists_eq_append_of_size_le hwritten hge
      obtain ⟨m', hm', hcovers⟩ := ih hrest
      refine ⟨m', List.mem_cons_of_mem m hm', ?_⟩
      rwa [Text.size_append, ← Nat.add_assoc]
  | case3 start c t hnone ih =>
    rcases before with _ | ⟨d, before⟩
    · rw [first?_eq_some_iff.2 ⟨ht, hinner⟩] at hnone
      cases hnone
    · obtain ⟨rfl, htail⟩ : c = d ∧ t = before ++ (k.opener ++ inner ++ k.closer ++ after) :=
        List.cons_eq_cons.1 ht
      obtain ⟨m, hm, hcovers⟩ := ih htail
      rw [Nat.add_assoc, ← Text.size_cons] at hcovers
      exact ⟨m, by rwa [markers_glue], hcovers⟩

/--
The scan finds the leftmost markers and no others. What it finds has the form of a marker where it
says, one behind the other; and whatever else has this form begins inside a marker that was found.
-/
theorem scan_leftmost (k : Kind) (t : Text) :
    (∀ m ∈ markers (scan k t), m.kind = k ∧ k.Admits m.inner ∧
        t.slice? m.start m.stop = some (k.opener ++ m.inner ++ k.closer) ∧
        Text.TrimsTo Text.isBlank m.inner m.payload) ∧
      (markers (scan k t)).Pairwise (fun m m' => m.stop ≤ m'.start) ∧
      ∀ start stop inner, k.Admits inner →
        t.slice? start stop = some (k.opener ++ inner ++ k.closer) →
        (∃ m ∈ markers (scan k t), m.start = start ∧ m.stop = stop) ∨
          ∃ m ∈ markers (scan k t), m.start < start ∧ start < m.stop := by
  obtain ⟨hstands, hapart⟩ := (tiles_scanFrom k [] t rfl rfl).markers
  refine ⟨fun m hm => ?_, hapart, fun start stop inner hinner hslice => ?_⟩
  · obtain ⟨rfl, hadmits⟩ := admits_of_mem_scanFrom hm
    exact ⟨rfl, hadmits, (hstands m hm).2.2, Text.trimsTo_trim Text.isBlank m.inner⟩
  · obtain ⟨before, after, ht, rfl, rfl⟩ := Text.slice?_eq_some_iff.1 hslice
    obtain ⟨m, hm, hcovers⟩ := exists_covers 0 ht hinner
    rw [Nat.zero_add] at hcovers
    obtain ⟨hkind, -⟩ := admits_of_mem_scanFrom hm
    rcases hcovers with ⟨hstart, rfl⟩ | hinside
    · exact .inl ⟨m, hm, hstart, by rw [stop, written, hkind, hstart]⟩
    · exact .inr ⟨m, hm, hinside⟩

end Inlay.Marker
