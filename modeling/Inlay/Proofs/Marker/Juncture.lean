import Inlay.Proofs.Marker.Front
import Mathlib.Data.List.Infix

namespace Inlay.Marker

open Segment

variable {k : Kind} {t : Text} {start : Nat}

/-- The text does not end within an opener. -/
def Kind.EndsOutside (k : Kind) (t : Text) : Prop :=
  ∀ begun, begun ≠ [] → begun <+: k.opener → begun ≠ k.opener → ¬ begun <:+ t

theorem Kind.EndsOutside.of_suffix {u : Text} (h : k.EndsOutside t) (hu : u <:+ t) :
    k.EndsOutside u :=
  fun begun hne hbegun hpart hend => h begun hne hbegun hpart (hend.trans hu)

/--
Whatever follows, no marker begins where the text neither begins with an opener nor within one.
-/
theorem first?_append_eq_none (hne : t ≠ []) (hopener : ¬ k.opener <+: t)
    (hend : k.EndsOutside t) (u : Text) : first? k (t ++ u) = none := by
  refine Option.eq_none_iff_forall_ne_some.2 ?_
  rintro ⟨inner, rest⟩ h
  have hbegins : k.opener <+: t ++ u := by
    rw [eq_of_first? h, List.append_assoc, List.append_assoc]
    exact List.prefix_append _ _
  rcases List.prefix_or_prefix_of_prefix hbegins (List.prefix_append t u) with hwhole | hpart
  · exact hopener hwhole
  · exact hend t hne hpart (fun heq => hopener (heq ▸ List.prefix_rfl)) List.suffix_rfl

theorem scanFrom_append (hclosed : strayFrom k start (scanFrom k start t) = [])
    (hend : k.EndsOutside t) (u : Text) :
    markers (scanFrom k start (t ++ u)) =
        markers (scanFrom k start t) ++ markers (scanFrom k (start + t.size) u) ∧
      ∀ values values', values.length = (markers (scanFrom k start t)).length →
        splice (scanFrom k start (t ++ u)) (values ++ values') =
          splice (scanFrom k start t) values ++ splice (scanFrom k (start + t.size) u) values' := by
  fun_induction scanFrom k start t with
  | case1 start =>
    refine ⟨by simp, fun values values' hlength => ?_⟩
    rw [List.eq_nil_of_length_eq_zero hlength]
    simp [splice]
  | case2 start c t inner rest hfirst m ih =>
    have hrest : rest <:+ c :: t := ⟨k.opener ++ inner ++ k.closer, (eq_of_first? hfirst).symm⟩
    obtain ⟨hmarkers, hsplice⟩ := ih hclosed (hend.of_suffix hrest)
    have hsize : start + Text.size (c :: t) = m.stop + rest.size := by
      rw [eq_of_first? hfirst, Text.size_append, ← Nat.add_assoc]
      rfl
    rw [scanFrom_of_some (first?_append hfirst u), hsize]
    constructor
    · rw [markers_marker, markers_marker, List.cons_append]
      exact congrArg (m :: ·) hmarkers
    · intro values values' hlength
      obtain ⟨value, values, rfl⟩ := List.exists_cons_of_length_eq_add_one hlength
      rw [List.cons_append, splice, splice, List.append_assoc]
      exact congrArg (value ++ ·) (hsplice values values' (Nat.succ.inj hlength))
  | case3 start c t hfirst ih =>
    rw [strayFrom_glue_scanFrom, List.append_eq_nil_iff] at hclosed
    obtain ⟨hmarkers, hsplice⟩ := ih hclosed.2 (hend.of_suffix (List.suffix_cons c t))
    -- No opener stands here that the other text could close, as it would be a stray one.
    have hopener : ¬ k.opener <+: c :: t := by
      intro h
      rw [if_pos (List.isPrefixOf_iff_prefix.2 h)] at hclosed
      exact List.cons_ne_nil _ _ hclosed.1
    have hnone : first? k (c :: (t ++ u)) = none :=
      first?_append_eq_none (List.cons_ne_nil c t) hopener hend u
    rw [List.cons_append, scanFrom_of_none hnone, Text.size_cons, ← Nat.add_assoc]
    constructor
    · rw [markers_glue, markers_glue, hmarkers]
    · intro values values' hlength
      rw [markers_glue] at hlength
      rw [splice_glue, splice_glue, hsplice values values' hlength, List.cons_append]

/--
Markers are found locally. Where a text has no stray opener and does not end within an opener, the
markers of it and of another text behind it are those of both, the others as many bytes further on
as the first text has, and so are the values set in their places.
-/
theorem scan_append {k : Kind} {t : Text} (hclosed : strayOpeners k (scan k t) = [])
    (hend : k.EndsOutside t) (u : Text) :
    markers (scan k (t ++ u)) = markers (scan k t) ++ (markers (scan k u)).map (shift t.size) ∧
      ∀ values values', values.length = (markers (scan k t)).length →
        splice (scan k (t ++ u)) (values ++ values') =
          splice (scan k t) values ++ splice (scan k u) values' := by
  obtain ⟨hmarkers, hsplice⟩ := scanFrom_append hclosed hend u
  rw [Nat.zero_add] at hmarkers hsplice
  refine ⟨?_, fun values values' hlength => ?_⟩
  · unfold scan
    rw [hmarkers, ← markers_scanFrom_shift, Nat.add_zero]
  · unfold scan
    rw [hsplice values values' hlength, splice_congr (map_content_scanFrom k t.size 0 u)]

/-- A text that ends in half a closer, and one that begins with the other half. -/
theorem scan_append_halves :
    strayOpeners .command (scan .command "é$((a)) )".toList) = [] ∧
      Kind.command.EndsOutside "é$((a)) )".toList ∧
      markers (scan .command ("é$((a)) )".toList ++ ")$((b))".toList)) =
        [⟨.command, ['a'], 2⟩, ⟨.command, ['b'], 11⟩] ∧
      splice (scan .command ("é$((a)) )".toList ++ ")$((b))".toList)) [['x'], ['y']] =
        "éx ))y".toList := by
  have hclosed : strayOpeners .command (scan .command "é$((a)) )".toList) = [] := by
    decide +kernel
  have hparts : ∀ begun ∈ Kind.command.opener.inits, begun ≠ [] → begun ≠ Kind.command.opener →
      ¬ begun <:+ "é$((a)) )".toList := by
    decide
  have hend : Kind.command.EndsOutside "é$((a)) )".toList :=
    fun begun hne hbegun hpart => hparts begun ((List.mem_inits _ _).2 hbegun) hne hpart
  obtain ⟨hmarkers, hsplice⟩ := scan_append hclosed hend ")$((b))".toList
  refine ⟨hclosed, hend, hmarkers.trans ?_, (hsplice [['x']] [['y']] (by decide +kernel)).trans ?_⟩
  · decide +kernel
  · decide +kernel

end Inlay.Marker
