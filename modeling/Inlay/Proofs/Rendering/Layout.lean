import Inlay.Proofs.Plan.Silence
import Inlay.Proofs.Rendering.Race
import Inlay.Proofs.Rendering.Sequential

namespace Inlay

variable {σ : Type}

/-- What two joins of the same branches come to, with what each makes of the texts. -/
inductive Schedule.Outcome.Matches (g g' : List Text → Text) : Outcome → Outcome → Prop
  | text (values : List Text) : Matches g g' (.text (g values)) (.text (g' values))
  | halted (why : Halt) : Matches g g' (.halted why) (.halted why)
  | unfinished : Matches g g' .unfinished .unfinished

theorem Schedule.Outcome.Matches.eq_halted {g g' : List Text → Text} {why : Halt} {out : Outcome}
    (h : Matches g g' (.halted why) out) : out = .halted why := by
  cases h
  rfl

inductive Strand.Matches (g g' : List Text → Text) : Strand → Strand → Prop
  | finished (values : List Text) : Matches g g' (.finished (g values)) (.finished (g' values))
  | halted (why : Halt) : Matches g g' (.halted why) (.halted why)
  | joining (rule : JoinRule) (strands : List Strand) :
    Matches g g' (.joining rule strands fun values => .done (g values))
      (.joining rule strands fun values => .done (g' values))

namespace Schedule

variable {h : Host σ} {g g' : List Text → Text} {s s' : Strand}

theorem outcome_matches (hs : s.Matches g g' s') : (outcome s).Matches g g' (outcome s') := by
  cases hs with
  | finished values => exact .text values
  | halted why => exact .halted why
  | joining => exact .unfinished

theorem due_eq_of_matches (hs : s.Matches g g' s') : due s = due s' := by
  cases hs <;> rfl

theorem conclude_matches (h : Host σ) (g g' : List Text → Text) (rule : JoinRule)
    (x : Except Halt (List Strand) × Run σ) :
    Pairs (Strand.Matches g g') (· = ·) (conclude h rule (fun values => .done (g values)) x)
      (conclude h rule (fun values => .done (g' values)) x) := by
  obtain ⟨why | strands, r⟩ := x
  · exact ⟨.halted why, rfl⟩
  · rw [conclude, conclude]
    cases Strand.texts? strands with
    | some values => exact ⟨.finished values, rfl⟩
    | none => exact ⟨.joining rule strands, rfl⟩

theorem resume_matches (hs : s.Matches g g' s') (r : Run σ) :
    Pairs (Strand.Matches g g') (· = ·) (resume h s r) (resume h s' r) := by
  cases hs with
  | finished values => exact ⟨.finished values, rfl⟩
  | halted why => exact ⟨.halted why, rfl⟩
  | joining rule strands =>
    rw [resume_joining, resume_joining]
    exact conclude_matches h g g' rule _

theorem finish_matches (hs : s.Matches g g' s') (rounds : Nat) (r : Run σ) :
    (finish h rounds s r).1.Matches g g' (finish h rounds s' r).1 ∧
      (finish h rounds s r).2 = (finish h rounds s' r).2 := by
  induction rounds generalizing s s' r with
  | zero =>
    rw [finish_zero, finish_zero]
    exact ⟨outcome_matches hs, rfl⟩
  | succ rounds ih =>
    rw [finish_succ, finish_succ, due_eq_of_matches hs]
    cases due s' with
    | none => exact ⟨outcome_matches hs, rfl⟩
    | some t =>
      obtain ⟨hstrand, hrun⟩ := resume_matches (h := h) hs { r with now := t }
      dsimp only
      rw [hrun]
      exact ih hstrand _

/-- What is made of the texts at the end changes nothing else of a run. -/
theorem run_matches (h : Host σ) (g g' : List Text → Text) (rule : JoinRule) (branches : List Plan)
    (rounds : Nat) (r : Run σ) :
    (run h rounds (.join rule branches fun values => .done (g values)) r).1.Matches g g'
        (run h rounds (.join rule branches fun values => .done (g' values)) r).1 ∧
      (run h rounds (.join rule branches fun values => .done (g values)) r).2 =
        (run h rounds (.join rule branches fun values => .done (g' values)) r).2 := by
  rw [run, run, start_join, start_join]
  obtain ⟨hstrand, hrun⟩ := conclude_matches h g g' rule (sweep (start h) rule true branches r)
  dsimp only
  rw [hrun]
  exact finish_matches hstrand rounds _

/-- Where every branch ends at once, the first failure in order is also the first in time. -/
theorem sweep_ended {α : Type} {f : α → Run σ → Strand × Run σ} {as : List α}
    (hf : ∀ a ∈ as, ∀ r, ∃ x r', f a r = (Strand.ended x, r')) (r : Run σ) :
    ∃ (x : Except Halt (List Text)) (r' : Run σ), ∀ rule,
      sweep f rule true as r = (x.map (List.map .finished), r') := by
  induction as generalizing r with
  | nil => exact ⟨.ok [], r, fun rule => rfl⟩
  | cons a as ih =>
    obtain ⟨x, r₁, ha⟩ := hf a List.mem_cons_self r
    cases x with
    | error why =>
      -- All branches before this one have a text, so that it counts under either rule.
      refine ⟨.error why, r₁, fun rule => ?_⟩
      rw [sweep, ha]
      cases rule <;> rfl
    | ok t =>
      obtain ⟨y, r₂, hrest⟩ := ih (fun b hb => hf b (List.mem_cons_of_mem a hb)) r₁
      refine ⟨y.map (t :: ·), r₂, fun rule => ?_⟩
      simp only [sweep, ha, Strand.ended, ends?, Strand.isFinished, Bool.and_true, hrest rule]
      cases y <;> rfl

theorem exists_ended (hh : h.Immediate) (p : Plan) (r : Run σ) :
    ∃ x r', start h p r = (Strand.ended x, r') := by
  induction p generalizing r with
  | done t => exact ⟨.ok t, r, rfl⟩
  | halt why => exact ⟨.error why, r, rfl⟩
  | note place n rest ih => exact ih _
  | ask place c next ih =>
    rw [start_ask, if_pos (hh c r.host)]
    exact ih _ _
  | join rule branches next ihb ihn =>
    obtain ⟨x, r', hswept⟩ := sweep_ended ihb r
    rw [start_join, hswept]
    cases x with
    | error why => exact ⟨.error why, r', rfl⟩
    | ok ts =>
      have ht : Strand.texts? (ts.map .finished) = some ts := Strand.texts?_eq_some_iff.2 rfl
      simp only [Except.map, conclude, ht]
      exact ihn ts r'

theorem start_join_congr (hh : h.Immediate) (rule rule' : JoinRule) (branches : List Plan)
    (next : List Text → Plan) (r : Run σ) :
    start h (.join rule branches next) r = start h (.join rule' branches next) r := by
  obtain ⟨x, r', hswept⟩ := sweep_ended (fun p (_ : p ∈ branches) => exists_ended hh p) r
  rw [start_join, start_join, hswept, hswept]
  cases x with
  | error why => rfl
  | ok ts =>
    have ht : Strand.texts? (ts.map .finished) = some ts := Strand.texts?_eq_some_iff.2 rfl
    simp only [Except.map, conclude, ht]

end Schedule

/-- What the markers of a kind ask for, in the order of the text. -/
def Marker.payloads (kind : Kind) (text : Text) : List Text :=
  (Segment.markers (scan kind text)).map (·.payload)

namespace Plan

open Schedule

variable {kind : Marker.Kind} {text text' : Text}

theorem branches_eq_mapIdx (kind : Marker.Kind) (text : Text) (resolve : Nat → Text → Plan) :
    branches kind text resolve = (Marker.payloads kind text).mapIdx resolve := by
  rw [branches, Marker.payloads, List.mapIdx_eq_zipIdx_map, List.mapIdx_eq_zipIdx_map,
    List.zipIdx_map, List.map_map]
  rfl

theorem run_pass (h : Host σ) (opts : Options) (place : Place) (source : Source)
    (kind : Marker.Kind) (text : Text) (resolve : Nat → Text → Plan) (rounds : Nat) (r : Run σ) :
    (run h rounds (pass opts place source kind text resolve) r).1 =
        (run h rounds (join (joinRule (Marker.scan kind text)) (branches kind text resolve)
          fun values => done (Segment.splice (Marker.scan kind text) values)) r).1 ∧
      (run h rounds (pass opts place source kind text resolve) r).2.Alike
        (run h rounds (join (joinRule (Marker.scan kind text)) (branches kind text resolve)
          fun values => done (Segment.splice (Marker.scan kind text) values)) r).2 := by
  refine run_alike h rounds ?_ (.refl r)
  rw [pass_eq, hush_notes]

theorem exists_run_text {h : Host σ} {f : Oracle} (hf : h.Follows f) {opts : Options}
    {place : Place} {source : Source} {resolve : Nat → Text → Plan}
    (hbranches : branches kind text resolve = branches kind text' resolve) {rounds : Nat} {t : Text}
    {r r' : Run σ}
    (hrun : run h rounds (pass opts place source kind text resolve) r = (.text t, r')) :
    ∃ rounds t r', run h rounds (pass opts place source kind text' resolve) r = (.text t, r') := by
  obtain ⟨cs, ht, -⟩ := yields_of_run hf.keeps hrun
  obtain ⟨values, hvalues, -⟩ := yields_pass_iff.1 ht
  rw [hbranches] at hvalues
  have ht' : Yields f.only (pass opts place source kind text' resolve)
      (Segment.splice (Marker.scan kind text') values) cs :=
    yields_pass_iff.2 ⟨values, hvalues, rfl⟩
  obtain ⟨rounds', r'', hrun'⟩ := run_text_of_yields hf ht' r
  exact ⟨rounds', _, r'', hrun'⟩

/-- Segments of which both lists are short or both are long, or a host that never lets wait. -/
theorem run_join_congr {h : Host σ} {segments segments' : List Segment}
    (hrule : (segments.length ≤ 30 ↔ segments'.length ≤ 30) ∨ h.Immediate) (branches : List Plan)
    (next : List Text → Plan) (rounds : Nat) (r : Run σ) :
    run h rounds (join (joinRule segments) branches next) r =
      run h rounds (join (joinRule segments') branches next) r := by
  rcases hrule with hrule | hh
  · have hsame : joinRule segments = joinRule segments' := by
      rw [joinRule, joinRule, eagerLimit]
      exact if_congr hrule rfl rfl
    rw [hsame]
  · rw [run, run, start_join_congr hh]

/--
Two texts with the same markers, whatever stands between these. Where answers are fixed, a pass
comes to a text on the one exactly where it does on the other. If both texts have few segments or
both have many, or where no answer takes any time, the pass ends on both in the same way: with a
text from the same values or with the same failure, by the same calls at the same times. Between
few segments and many, it is the rule of the join that is another.
-/
theorem pass_layout (h : Host σ) (opts : Options) (place : Place) (source : Source)
    (hpayloads : Marker.payloads kind text = Marker.payloads kind text')
    (resolve : Nat → Text → Plan) (r : Run σ) :
    (∀ f : Oracle, h.Follows f →
      ((∃ rounds t r', run h rounds (pass opts place source kind text resolve) r = (.text t, r')) ↔
        ∃ rounds t r', run h rounds (pass opts place source kind text' resolve) r =
          (.text t, r'))) ∧
    (((Marker.scan kind text).length ≤ 30 ↔ (Marker.scan kind text').length ≤ 30) ∨ h.Immediate →
      ∀ rounds,
        Outcome.Matches (Segment.splice (Marker.scan kind text))
          (Segment.splice (Marker.scan kind text'))
          (run h rounds (pass opts place source kind text resolve) r).1
          (run h rounds (pass opts place source kind text' resolve) r).1 ∧
        (run h rounds (pass opts place source kind text resolve) r).2.Alike
          (run h rounds (pass opts place source kind text' resolve) r).2) := by
  have hbranches : branches kind text resolve = branches kind text' resolve := by
    rw [branches_eq_mapIdx, branches_eq_mapIdx, hpayloads]
  constructor
  · intro f hf
    constructor
    · rintro ⟨rounds, t, r', hrun⟩
      exact exists_run_text hf hbranches hrun
    · rintro ⟨rounds, t, r', hrun⟩
      exact exists_run_text hf hbranches.symm hrun
  · intro hrule rounds
    obtain ⟨hout, halike⟩ := run_pass h opts place source kind text resolve rounds r
    obtain ⟨hout', halike'⟩ := run_pass h opts place source kind text' resolve rounds r
    obtain ⟨hmatches, hruns⟩ := run_matches h (Segment.splice (Marker.scan kind text))
      (Segment.splice (Marker.scan kind text')) (joinRule (Marker.scan kind text'))
      (branches kind text' resolve) rounds r
    rw [hbranches, run_join_congr hrule] at hout halike
    rw [hout, hout']
    rw [hruns] at halike
    exact ⟨hmatches, halike.trans halike'.symm⟩

/-- What stands around three commands does not change that the second one fails first. -/
theorem pass_layout_failing :
    Marker.payloads .command "$((!a))$((!b))$((c))".toList =
        Marker.payloads .command "x $((!a)) y\n$(( !b ))$((c))".toList ∧
      (run Host.failing 9 (pass {} [] .stdin .command "x $((!a)) y\n$(( !b ))$((c))".toList
          fun _ command => resolveCommand {} [] .stdin command) ⟨0, 0, []⟩).1 =
        .halted (.failed (.commandFailed "!b".toList "exit status: 1".toList [])) ∧
      (run Host.failing 9 (pass {} [] .stdin .command "x $((!a)) y\n$(( !b ))$((c))".toList
          fun _ command => resolveCommand {} [] .stdin command) ⟨0, 0, []⟩).2.now = 8 := by
  have hpayloads : Marker.payloads .command "$((!a))$((!b))$((c))".toList =
      Marker.payloads .command "x $((!a)) y\n$(( !b ))$((c))".toList := by decide +kernel
  have hfew : (Marker.scan .command "$((!a))$((!b))$((c))".toList).length ≤ 30 ↔
      (Marker.scan .command "x $((!a)) y\n$(( !b ))$((c))".toList).length ≤ 30 := by
    decide +kernel
  have hout : (run Host.failing 9 (pass {} [] .stdin .command "$((!a))$((!b))$((c))".toList
        fun _ command => resolveCommand {} [] .stdin command) ⟨0, 0, []⟩).1 =
      .halted (.failed (.commandFailed "!b".toList "exit status: 1".toList [])) := by decide +kernel
  have hnow : (run Host.failing 9 (pass {} [] .stdin .command "$((!a))$((!b))$((c))".toList
      fun _ command => resolveCommand {} [] .stdin command) ⟨0, 0, []⟩).2.now = 8 := by
    decide +kernel
  obtain ⟨-, hsame⟩ := pass_layout Host.failing {} [] .stdin hpayloads
    (fun _ command => resolveCommand {} [] .stdin command) ⟨0, 0, []⟩
  obtain ⟨hmatches, halike⟩ := hsame (.inl hfew) 9
  refine ⟨hpayloads, ?_, halike.now.symm.trans hnow⟩
  rw [hout] at hmatches
  exact hmatches.eq_halted

/-- Two commands that fail, the second one first, and fourteen others. -/
def sixteenMarkers : List Text :=
  "$((!a))".toList :: "$((!b))".toList :: List.replicate 14 "$((c))".toList

/--
The text between the markers does not leave the failure alone: sixteen commands side by side are
sixteen segments, and with blanks between them they are one more than a pass joins eagerly.
-/
theorem not_pass_layout :
    ¬∀ (h : Host Nat) (f : Oracle) (text text' : Text) (rounds rounds' : Nat) (why why' : Halt)
      (r last last' : Run Nat), h.Follows f →
      Marker.payloads .command text = Marker.payloads .command text' →
      run h rounds (pass {} [] .stdin .command text fun _ command =>
        resolveCommand {} [] .stdin command) r = (.halted why, last) →
      run h rounds' (pass {} [] .stdin .command text' fun _ command =>
        resolveCommand {} [] .stdin command) r = (.halted why', last') →
      why = why' := by
  intro hall
  have hpayloads : Marker.payloads .command sixteenMarkers.flatten =
      Marker.payloads .command (Text.joinWith [' '] sixteenMarkers) := by decide +kernel
  have hfew : (run Host.failing 9 (pass {} [] .stdin .command sixteenMarkers.flatten
        fun _ command => resolveCommand {} [] .stdin command) ⟨0, 0, []⟩).1 =
      .halted (.failed (.commandFailed "!b".toList "exit status: 1".toList [])) := by decide +kernel
  have hmany : (run Host.failing 9 (pass {} [] .stdin .command
        (Text.joinWith [' '] sixteenMarkers)
        fun _ command => resolveCommand {} [] .stdin command) ⟨0, 0, []⟩).1 =
      .halted (.failed (.commandFailed "!a".toList "exit status: 1".toList [])) := by decide +kernel
  have hsame := hall Host.failing Oracle.failing _ _ 9 9 _ _ ⟨0, 0, []⟩ _ _
    (Oracle.host_follows _ _) hpayloads (Prod.ext hfew rfl) (Prod.ext hmany rfl)
  exact absurd hsame (by decide)

end Plan
end Inlay
