import Inlay.Proofs.Plan.Schedule

/-!
Every run of a plan ends, on every host: a strand that has not ended waits for an answer, the clock
moves to the time at which one comes, and the task has then gone one step further at least, of which
there is no endless series.
-/
namespace Inlay.Schedule

variable {σ : Type} {h : Host σ}

/-- The strand has ended, or there is a time at which it can go on. -/
def Poised (s : Strand) : Prop := outcome s ≠ .unfinished ∨ (due s).isSome

theorem sooner_isSome {a b : Option Nat} (h : a.isSome ∨ b.isSome) : (sooner a b).isSome := by
  cases a <;> cases b <;> simp_all [sooner]

theorem sweep_due {α : Type} {f : α → Run σ → Strand × Run σ} {rule : JoinRule} {as : List α}
    (hf : ∀ a ∈ as, ∀ r, Poised (f a r).1) {r : Run σ} {ss : List Strand} {r' : Run σ}
    (hs : sweep f rule true as r = (.ok ss, r')) (ht : Strand.texts? ss = none) :
    (dueAll ss).isSome := by
  induction as generalizing r ss r' with
  | nil =>
    cases hs
    simp [Strand.texts?] at ht
  | cons a as ih =>
    -- A branch that has come to its text leaves the waiting to the others.
    have ha := hf a (by simp) r
    rw [sweep] at hs
    cases he : ends? rule true (f a r).1 with
    | some why => simp [he] at hs
    | none =>
      simp only [he] at hs
      cases hrest : sweep f rule (true && (f a r).1.isFinished) as (f a r).2 with
      | mk x r'' =>
        rw [hrest] at hs
        cases x with
        | error why => cases hs
        | ok rest =>
          obtain ⟨rfl, rfl⟩ : (f a r).1 :: rest = ss ∧ r'' = r' := by simpa [Except.map] using hs
          rw [dueAll]
          refine sooner_isSome ?_
          cases hfa : (f a r).1 with
          | finished t =>
            right
            rw [hfa, Strand.isFinished, Bool.and_true] at hrest
            rw [Strand.texts?_cons, hfa] at ht
            exact ih (fun b hb => hf b (by simp [hb])) hrest (by simpa [Strand.text?] using ht)
          | halted why =>
            rw [hfa] at he
            cases rule <;> simp [ends?, JoinRule.counts] at he
          | waiting | joining =>
            left
            rw [hfa] at ha
            exact ha.resolve_left (by simp [outcome])

theorem conclude_poised {rule : JoinRule} {next : List Text → Plan} {α : Type}
    {f : α → Run σ → Strand × Run σ} {as : List α} (hf : ∀ a ∈ as, ∀ r, Poised (f a r).1)
    (hnext : ∀ ts r, Poised (start h (next ts) r).1) (r : Run σ) :
    Poised (conclude h rule next (sweep f rule true as r)).1 := by
  cases hs : sweep f rule true as r with
  | mk x r' =>
    cases x with
    | error why => exact .inl (by simp [conclude, outcome])
    | ok ss =>
      rw [conclude]
      cases ht : Strand.texts? ss with
      | some texts => exact hnext texts r'
      | none => exact .inr (by simpa [due] using sweep_due hf hs ht)

theorem start_poised (h : Host σ) (p : Plan) (r : Run σ) : Poised (start h p r).1 := by
  induction p generalizing r with
  | done t => exact .inl (by simp [start, outcome])
  | halt why => exact .inl (by simp [start, outcome])
  | note place n rest ih =>
    rw [start]
    exact ih _
  | ask place c next ih =>
    rw [start_ask]
    split
    · exact ih _ _
    · exact .inr (by simp [due])
  | join rule branches next ihb ihn =>
    rw [start_join]
    exact conclude_poised ihb ihn r

theorem resume_poised (h : Host σ) (s : Strand) (r : Run σ) : Poised (resume h s r).1 := by
  induction s generalizing r with
  | finished t => exact .inl (by simp [resume, outcome])
  | halted why => exact .inl (by simp [resume, outcome])
  | waiting t place c remarks rest =>
    rw [resume]
    split
    · exact start_poised h rest _
    · exact .inr (by simp [due])
  | joining rule ss next ih =>
    rw [resume_joining]
    exact conclude_poised ih (fun ts r => start_poised h (next ts) r) r

theorem finish_ends (h : Host σ) {s : Strand} (hs : Poised s) (r : Run σ) :
    ∃ n, (finish h n s r).1 ≠ .unfinished := by
  -- The steps of tasks carry the induction: a round always makes one.
  have hacc := (Task.acc (A := h.Allows) s.task).transGen
  generalize htask : s.task = t at hacc
  induction hacc generalizing s r with
  | intro t _ ih =>
    subst htask
    rcases hs with hout | hdue
    · exact ⟨0, by rwa [finish_zero]⟩
    · obtain ⟨now, hnow⟩ := Option.isSome_iff_exists.1 hdue
      obtain ⟨k, es, hsteps, -, -, -, hk⟩ := resume_advances h s { r with now := now }
      obtain ⟨k, rfl⟩ := Nat.exists_eq_add_of_lt (hk ⟨now, hnow, le_rfl⟩)
      rw [Nat.zero_add] at hsteps
      have hgen := (hsteps.mono fun _ _ => h.keeps_allows.of_tells).transGen
      obtain ⟨n, hn⟩ := ih _ hgen (resume_poised h s _) (resume h s _).2 rfl
      exact ⟨n + 1, by simpa only [finish_succ, hnow] using hn⟩

theorem finish_of_le {m n : Nat} (hmn : m ≤ n) {s : Strand} {r : Run σ}
    (hm : (finish h m s r).1 ≠ .unfinished) : finish h n s r = finish h m s r := by
  induction m generalizing n s r with
  | zero =>
    rw [finish_zero] at hm ⊢
    have hd : due s = none := by cases s <;> simp_all [outcome, due]
    cases n with
    | zero => rw [finish_zero]
    | succ n => rw [finish_succ, hd]
  | succ m ih =>
    obtain ⟨n, rfl⟩ : ∃ k, n = k + 1 := ⟨n - 1, by omega⟩
    rw [finish_succ] at hm
    rw [finish_succ, finish_succ]
    cases hd : due s with
    | none => rfl
    | some t =>
      rw [hd] at hm
      exact ih (by omega) hm

theorem run_ends (h : Host σ) (p : Plan) (r : Run σ) :
    ∃ n, (run h n p r).1 ≠ .unfinished :=
  finish_ends h (start_poised h p r) (start h p r).2

theorem run_of_le {m n : Nat} (hmn : m ≤ n) {p : Plan} {r : Run σ}
    (hm : (run h m p r).1 ≠ .unfinished) : run h n p r = run h m p r := finish_of_le hmn hm

theorem yields_of_run {A : Answering} (hA : h.Keeps A) {n : Nat} {p : Plan} {r r' : Run σ}
    {t : Text} (hrun : run h n p r = (.text t, r')) :
    ∃ cs, p.Yields A t cs ∧ (r'.calls : Multiset Call) = r.calls + cs := by
  obtain ⟨k, es, u, hs, hes, hu⟩ := run_steps hA n p r
  rw [hrun] at hes hu
  cases hu
  refine ⟨_, hs.yields (.done t), ?_⟩
  rw [Run.coe_calls, Run.coe_calls, hes, Event.calls_append, add_zero]

/-- With one answer for every call, no delay keeps a plan from the text that it yields. -/
theorem run_text_of_yields {f : Oracle} (hf : h.Follows f) {p : Plan} {t : Text}
    {cs : Multiset Call} (hp : p.Yields f.only t cs) (r : Run σ) :
    ∃ n r', run h n p r = (.text t, r') := by
  obtain ⟨n, hn⟩ := run_ends h p r
  obtain ⟨k, es, u, hs, -, hu⟩ := run_steps hf.keeps n p r
  obtain ⟨cs', hu', -⟩ := hs.yields_only hp
  refine ⟨n, (run h n p r).2, Prod.ext ?_ rfl⟩
  cases hout : (run h n p r).1 with
  | text t' =>
    rw [hout] at hu
    cases hu
    cases hu'
    rfl
  | halted why =>
    rw [hout] at hu
    cases hu
    cases hu'
  | unfinished => exact absurd hout hn

end Inlay.Schedule
