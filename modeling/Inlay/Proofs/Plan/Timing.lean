import Inlay.Proofs.Plan.Ending

/-!
How long a plan takes when every call has one answer, which always takes the same time. Calls one
after the other take the sum of their times, and branches side by side take the longest of theirs,
whichever rule joins them: the schedule starts them all at once and goes on when the last one is
there.
-/
namespace Inlay

variable {σ : Type}

/-- Every call takes a time of its own, whatever has been called for before. -/
def Host.Takes (h : Host σ) (delay : Call → Nat) : Prop := ∀ c s, (h c s).1.delay = delay c

/-- The longest of some times; where there are none, no time at all. -/
def longest (times : List Nat) : Nat := times.foldr max 0

@[simp] theorem longest_nil : longest [] = 0 := rfl

@[simp] theorem longest_cons (n : Nat) (times : List Nat) :
    longest (n :: times) = max n (longest times) := rfl

theorem longest_le_iff {times : List Nat} {n : Nat} : longest times ≤ n ↔ ∀ m ∈ times, m ≤ n := by
  induction times with
  | nil => simp
  | cons m times ih => rw [longest_cons, max_le_iff, ih, List.forall_mem_cons]

theorem le_longest {times : List Nat} {n : Nat} (h : n ∈ times) : n ≤ longest times :=
  longest_le_iff.1 le_rfl n h

theorem longest_congr {times times' : List Nat} (h : ∀ n, n ∈ times ↔ n ∈ times') :
    longest times = longest times' :=
  le_antisymm (longest_le_iff.2 fun n hn => le_longest ((h n).1 hn))
    (longest_le_iff.2 fun n hn => le_longest ((h n).2 hn))

theorem longest_eq_zero {times : List Nat} (h : ∀ n ∈ times, n = 0) : longest times = 0 :=
  Nat.le_zero.1 (longest_le_iff.2 fun n hn => (h n hn).le)

/--
Each of the things comes to the text at its place in the list, and all have come to theirs at the
latest of their times, which is none before the earliest.
-/
inductive Latest {α : Type} (R : α → Text → Nat → Prop) (earliest : Nat) :
    List α → List Text → Nat → Prop
  | nil : Latest R earliest [] [] earliest
  | cons {a : α} {as : List α} {t : Text} {ts : List Text} {n n' : Nat} :
    R a t n → Latest R earliest as ts n' → Latest R earliest (a :: as) (t :: ts) (max n n')

namespace Latest

variable {α : Type} {R R' : α → Text → Nat → Prop} {earliest n : Nat} {as : List α}
  {ts : List Text}

theorem shift {now : Nat} (hR : ∀ a ∈ as, ∀ t n, R a t n → R' a t (now + n))
    (h : Latest R 0 as ts n) : Latest R' now as ts (now + n) := by
  induction h with
  | nil => exact .nil
  | cons ha _ ih =>
    rw [← Nat.add_max_add_left]
    exact .cons (hR _ List.mem_cons_self _ _ ha) (ih fun b hb => hR b (List.mem_cons_of_mem _ hb))

theorem exists_of_mem (h : Latest R earliest as ts n) {a : α} (ha : a ∈ as) :
    ∃ t n', R a t n' := by
  induction h with
  | nil => cases ha
  | cons hb _ ih =>
    rcases List.mem_cons.1 ha with rfl | ha
    · exact ⟨_, _, hb⟩
    · exact ih ha

theorem eq_mapIdx {β : Type} {as : List β} {g : Nat → β → α} {v : β → Text} {d : β → Nat}
    (hg : ∀ i, ∀ a ∈ as, ∀ t n, R (g i a) t n → t = v a ∧ n = d a)
    (h : Latest R 0 (as.mapIdx g) ts n) : ts = as.map v ∧ n = longest (as.map d) := by
  induction as generalizing g ts n with
  | nil =>
    cases h
    exact ⟨rfl, rfl⟩
  | cons a as ih =>
    rw [List.mapIdx_cons] at h
    cases h with
    | cons ha has =>
      obtain ⟨rfl, rfl⟩ := hg 0 a List.mem_cons_self _ _ ha
      obtain ⟨rfl, rfl⟩ := ih (fun i b hb => hg (i + 1) b (List.mem_cons_of_mem a hb)) has
      exact ⟨rfl, rfl⟩

end Latest

namespace Plan

/-- With these answers and delays the plan comes to the text after so long. -/
inductive Lasts (f : Oracle) (delay : Call → Nat) : Plan → Text → Nat → Prop
  | done (t : Text) : Lasts f delay (done t) t 0
  | note {place : Place} {m : Notice} {rest : Plan} {t : Text} {n : Nat} :
    Lasts f delay rest t n → Lasts f delay (note place m rest) t n
  | ask {place : Place} {c : Call} {next : c.Answer → Plan} {t : Text} {n : Nat} :
    Lasts f delay (next (f c)) t n → Lasts f delay (ask place c next) t (delay c + n)
  | join {rule : JoinRule} {branches : List Plan} {next : List Text → Plan} {ts : List Text}
      {t : Text} {n n' : Nat} :
    Latest (Lasts f delay) 0 branches ts n → Lasts f delay (next ts) t n' →
      Lasts f delay (join rule branches next) t (n + n')

variable {f : Oracle} {delay : Call → Nat} {t : Text} {n : Nat}

theorem Yields.exists_latest {ps : List Plan} {ts : List Text} {cs : Multiset Call}
    (hps : ∀ p ∈ ps, ∀ t cs, Yields f.only p t cs → ∃ n, Lasts f delay p t n)
    (h : YieldsAll f.only ps ts cs) : ∃ n, Latest (Lasts f delay) 0 ps ts n := by
  induction ps generalizing ts cs with
  | nil =>
    cases h
    exact ⟨0, .nil⟩
  | cons p ps ih =>
    cases h with
    | cons hp hs =>
      obtain ⟨n, hn⟩ := hps p List.mem_cons_self _ _ hp
      obtain ⟨n', hn'⟩ := ih (fun q hq => hps q (List.mem_cons_of_mem p hq)) hs
      exact ⟨max n n', .cons hn hn'⟩

theorem Yields.exists_lasts {p : Plan} {cs : Multiset Call} (h : Yields f.only p t cs) :
    ∃ n, Lasts f delay p t n := by
  induction p generalizing t cs with
  | done =>
    cases h
    exact ⟨0, .done _⟩
  | halt => cases h
  | note place m rest ih =>
    cases h with
    | note h =>
      obtain ⟨n, hn⟩ := ih h
      exact ⟨n, .note hn⟩
  | ask place c next ih =>
    cases h with
    | ask ha h =>
      cases ha
      obtain ⟨n, hn⟩ := ih _ h
      exact ⟨delay c + n, .ask hn⟩
  | join rule branches next ihb ihn =>
    cases h with
    | join hb hn =>
      obtain ⟨n, hn'⟩ := ihn _ hn
      obtain ⟨m, hm⟩ := exists_latest (fun p hp _ _ => ihb p hp) hb
      exact ⟨m + n, .join hm hn'⟩

theorem exists_lasts_of_bind {p : Plan} {g : Text → Plan} (h : Lasts f delay (p.bind g) t n) :
    ∃ u n₁ n₂, Lasts f delay p u n₁ ∧ Lasts f delay (g u) t n₂ ∧ n = n₁ + n₂ := by
  induction p generalizing n with
  | done u => exact ⟨u, 0, n, .done u, h, (Nat.zero_add n).symm⟩
  | halt => cases h
  | note place m rest ih =>
    cases h with
    | note h =>
      obtain ⟨u, n₁, n₂, hp, hg, rfl⟩ := ih h
      exact ⟨u, n₁, n₂, .note hp, hg, rfl⟩
  | ask place c next ih =>
    cases h with
    | ask h =>
      obtain ⟨u, n₁, n₂, hp, hg, rfl⟩ := ih _ h
      exact ⟨u, delay c + n₁, n₂, .ask hp, hg, (Nat.add_assoc ..).symm⟩
  | join rule branches next _ ih =>
    cases h with
    | join hb h =>
      obtain ⟨u, n₁, n₂, hp, hg, rfl⟩ := ih _ h
      exact ⟨u, _, n₂, .join hb hp, hg, (Nat.add_assoc ..).symm⟩

theorem lasts_of_notes {place : Place} {ns : List Notice} {p : Plan}
    (h : Lasts f delay (notes place ns p) t n) : Lasts f delay p t n := by
  induction ns with
  | nil => exact h
  | cons m ns ih =>
    cases h with
    | note h => exact ih h

end Plan

namespace Strand

/-- At the time `now` the strand is on its way to the text, at which it will be at the last time. -/
inductive EndsAt (f : Oracle) (delay : Call → Nat) (now : Nat) : Strand → Text → Nat → Prop
  | finished (t : Text) : EndsAt f delay now (finished t) t now
  | waiting {due : Nat} {place : Place} {c : Call} {remarks : List Log.Line} {rest : Plan}
      {t : Text} {n : Nat} :
    now ≤ due → rest.Lasts f delay t n →
      EndsAt f delay now (waiting due place c remarks rest) t (due + n)
  | joining {rule : JoinRule} {strands : List Strand} {next : List Text → Plan} {ts : List Text}
      {t : Text} {time n : Nat} :
    (Schedule.dueAll strands).isSome → Latest (EndsAt f delay now) now strands ts time →
      (next ts).Lasts f delay t n → EndsAt f delay now (joining rule strands next) t (time + n)

variable {f : Oracle} {delay : Call → Nat} {now time : Nat} {s : Strand} {t : Text}

theorem EndsAt.finished_or_due (h : s.EndsAt f delay now t time) :
    s = .finished t ∧ time = now ∨ (Schedule.due s).isSome := by
  cases h with
  | finished => exact .inl ⟨rfl, rfl⟩
  | waiting => exact .inr rfl
  | joining hdue => exact .inr hdue

theorem latest_finished_or_due {ss : List Strand} {ts : List Text}
    (h : Latest (EndsAt f delay now) now ss ts time) :
    ss = ts.map .finished ∧ time = now ∨ (Schedule.dueAll ss).isSome := by
  induction h with
  | nil => exact .inl ⟨rfl, rfl⟩
  | cons hs _ ih =>
    rw [Schedule.dueAll]
    rcases hs.finished_or_due with ⟨rfl, rfl⟩ | hdue
    · rcases ih with ⟨rfl, rfl⟩ | hdue
      · exact .inl ⟨rfl, max_self _⟩
      · exact .inr (Schedule.sooner_isSome (.inr hdue))
    · exact .inr (Schedule.sooner_isSome (.inl hdue))

theorem bounds_dueAll {ss : List Strand} {ts : List Text}
    (hss : ∀ s ∈ ss, ∀ t time, s.EndsAt f delay now t time →
      ∀ d, Schedule.due s = some d → now ≤ d ∧ d ≤ time)
    (h : Latest (EndsAt f delay now) now ss ts time) {d : Nat}
    (hd : Schedule.dueAll ss = some d) : now ≤ d ∧ d ≤ time := by
  induction h generalizing d with
  | nil => cases hd
  | @cons s ss t ts time time' hs _ ih =>
    have hs := hss s List.mem_cons_self t time hs
    have ih := @ih fun s' hs' => hss s' (List.mem_cons_of_mem s hs')
    rw [Schedule.dueAll] at hd
    cases hdue : Schedule.due s with
    | none =>
      rw [hdue] at hd
      have := ih hd
      omega
    | some a =>
      rw [hdue] at hd
      have := hs a hdue
      cases hall : Schedule.dueAll ss with
      | none =>
        rw [hall] at hd
        cases hd
        omega
      | some b =>
        rw [hall] at hd
        cases hd
        have := ih hall
        omega

theorem EndsAt.bounds_due (h : s.EndsAt f delay now t time) {d : Nat}
    (hd : Schedule.due s = some d) : now ≤ d ∧ d ≤ time := by
  induction s generalizing t time d with
  | finished | halted => cases hd
  | waiting =>
    cases h with
    | waiting hnow _ =>
      cases hd
      exact ⟨hnow, Nat.le_add_right ..⟩
  | joining rule ss next ih =>
    cases h with
    | joining _ hss _ =>
      have := bounds_dueAll (fun s hs _ _ h d => ih s hs h) hss hd
      omega

theorem EndsAt.ends?_eq_none (h : s.EndsAt f delay now t time) (rule : JoinRule) (clear : Bool) :
    Schedule.ends? rule clear s = none := by
  cases h <;> rfl

theorem dueAll_map_finished (ts : List Text) : Schedule.dueAll (ts.map .finished) = none := by
  induction ts with
  | nil => rfl
  | cons t ts ih => rw [List.map_cons, Schedule.dueAll, ih]; rfl

theorem le_of_sooner {a b : Option Nat} {m : Nat}
    (h : ∀ d, Schedule.sooner a b = some d → m ≤ d) :
    (∀ d, a = some d → m ≤ d) ∧ ∀ d, b = some d → m ≤ d := by
  cases a <;> cases b <;> simp_all [Schedule.sooner]

theorem latest_clock {ss : List Strand} {ts : List Text} {later : Nat} (hlater : now ≤ later)
    (hss : ∀ s ∈ ss, ∀ t time, s.EndsAt f delay now t time →
      (∀ d, Schedule.due s = some d → later ≤ d) → s.EndsAt f delay later t (max time later))
    (hdue : ∀ d, Schedule.dueAll ss = some d → later ≤ d)
    (h : Latest (EndsAt f delay now) now ss ts time) :
    Latest (EndsAt f delay later) later ss ts (max time later) := by
  induction h with
  | nil =>
    rw [max_eq_right hlater]
    exact .nil
  | @cons s ss t ts time time' hs _ ih =>
    obtain ⟨hdue, hdues⟩ := le_of_sooner hdue
    rw [sup_sup_distrib_right]
    exact .cons (hss s List.mem_cons_self t time hs hdue)
      (ih (fun s' hs' => hss s' (List.mem_cons_of_mem s hs')) hdues)

theorem EndsAt.clock (h : s.EndsAt f delay now t time) {later : Nat} (hlater : now ≤ later)
    (hdue : ∀ d, Schedule.due s = some d → later ≤ d) :
    s.EndsAt f delay later t (max time later) := by
  induction s generalizing t time with
  | finished u =>
    cases h
    rw [max_eq_right hlater]
    exact .finished u
  | halted => cases h
  | waiting =>
    cases h with
    | waiting _ hrest =>
      have hle := hdue _ rfl
      rw [max_eq_left (by omega)]
      exact .waiting hle hrest
  | joining rule ss next ih =>
    cases h with
    | @joining _ _ _ ts _ time n hsome hss hnext =>
      -- A branch that is due later keeps the join from ending any later than it would.
      obtain ⟨d, hd⟩ := Option.isSome_iff_exists.1 hsome
      have hbounds := bounds_dueAll (fun s _ _ _ h d => h.bounds_due) hss hd
      have hle := hdue d hd
      have hall := latest_clock hlater (fun s hs _ _ h => ih s hs h) hdue hss
      rw [max_eq_left (by omega)] at hall ⊢
      exact .joining hsome hall hnext

end Strand

namespace Schedule

open Strand

variable {h : Host σ} {f : Oracle} {delay : Call → Nat}

theorem now_start (h : Host σ) (p : Plan) (r : Run σ) : (start h p r).2.now = r.now := by
  obtain ⟨_, _, _, _, _, hnow, _⟩ := start_advances h p r
  exact hnow

theorem now_resume (h : Host σ) (s : Strand) (r : Run σ) : (resume h s r).2.now = r.now := by
  obtain ⟨_, _, _, _, _, hnow, _⟩ := resume_advances h s r
  exact hnow

theorem sweep_latest {α : Type} {g : α → Run σ → Strand × Run σ} {R : α → Text → Nat → Prop}
    {now : Nat} {as : List α}
    (hclock : ∀ a r, (g a r).2.now = r.now)
    (hg : ∀ a ∈ as, ∀ t time, R a t time → ∀ r : Run σ, r.now = now →
      (g a r).1.EndsAt f delay now t time)
    {ts : List Text} {time : Nat} (has : Latest R now as ts time) (rule : JoinRule) (clear : Bool)
    {r : Run σ} (hr : r.now = now) :
    ∃ ss r', sweep g rule clear as r = (.ok ss, r') ∧ r'.now = now ∧
      Latest (EndsAt f delay now) now ss ts time := by
  induction has generalizing clear r with
  | nil => exact ⟨[], r, rfl, hr, .nil⟩
  | @cons a as t ts time time' ha _ ih =>
    have hs := hg a List.mem_cons_self t time ha r hr
    obtain ⟨ss, r', hrest, hnow', hss⟩ := ih (fun b hb => hg b (List.mem_cons_of_mem a hb))
      (clear && (g a r).1.isFinished) ((hclock a r).trans hr)
    have hends : ends? rule clear (g a r).1 = none := hs.ends?_eq_none rule clear
    refine ⟨(g a r).1 :: ss, r', ?_, hnow', .cons hs hss⟩
    rw [sweep, hends]
    dsimp only
    rw [hrest]
    rfl

theorem conclude_latest {rule : JoinRule} {next : List Text → Plan} {now time n : Nat}
    {ss : List Strand} {ts : List Text} {t : Text}
    (hnext : ∀ r : Run σ, r.now = now →
      (start h (next ts) r).1.EndsAt f delay now t (now + n))
    (hts : (next ts).Lasts f delay t n) (hss : Latest (EndsAt f delay now) now ss ts time)
    {r : Run σ} (hr : r.now = now) :
    (conclude h rule next (.ok ss, r)).1.EndsAt f delay now t (time + n) := by
  rw [conclude]
  rcases latest_finished_or_due hss with ⟨rfl, rfl⟩ | hdue
  · rw [texts?_eq_some_iff.2 rfl]
    exact hnext r hr
  · cases htexts : texts? ss with
    | none => exact .joining hdue hss hts
    | some texts =>
      rw [texts?_eq_some_iff.1 htexts, dueAll_map_finished] at hdue
      cases hdue

theorem start_endsAt (hf : h.Follows f) (hdelay : h.Takes delay) {p : Plan} {t : Text} {n : Nat}
    (hp : p.Lasts f delay t n) (r : Run σ) :
    (start h p r).1.EndsAt f delay r.now t (r.now + n) := by
  induction p generalizing t n r with
  | done u =>
    cases hp
    exact .finished u
  | halt => cases hp
  | note place m rest ih =>
    cases hp with
    | note hp =>
      rw [start]
      exact ih hp (r.record (.noted place m))
  | ask place c next ih =>
    cases hp with
    | @ask _ _ _ _ n hp =>
      -- An answer that takes no time is taken at once, and the plan goes on at the same moment.
      rw [start_ask, hf c r.host, hdelay c r.host]
      split
      · rename_i hzero
        rw [hzero, Nat.zero_add]
        simpa [Run.begin, Run.record] using ih _ hp
          ((r.begin h place c).2.arrive place c (h c r.host).1.remarks)
      · rw [← Nat.add_assoc]
        exact .waiting (Nat.le_add_right ..) hp
  | join rule branches next ihb ihn =>
    cases hp with
    | @join _ _ _ ts _ n n' hb hn =>
      -- All branches begin now, and the join ends with the latest of them.
      have hshift : Latest (fun p t time => ∃ n, p.Lasts f delay t n ∧ time = r.now + n) r.now
          branches ts (r.now + n) := hb.shift fun p _ t n hp => ⟨n, hp, rfl⟩
      have hbranch : ∀ p ∈ branches, ∀ t time,
          (∃ n, p.Lasts f delay t n ∧ time = r.now + n) → ∀ r' : Run σ, r'.now = r.now →
            (start h p r').1.EndsAt f delay r.now t time := by
        rintro p hp t _ ⟨n, hlasts, rfl⟩ r' hr'
        rw [← hr']
        exact ihb p hp hlasts r'
      obtain ⟨ss, r', hsweep, hnow, hss⟩ :=
        sweep_latest (now_start h) hbranch hshift rule true rfl
      rw [start_join, hsweep, ← Nat.add_assoc]
      refine conclude_latest (fun r'' hr'' => ?_) hn hss hnow
      rw [← hr'']
      exact ihn ts hn r''

theorem resume_endsAt (hf : h.Follows f) (hdelay : h.Takes delay) {s : Strand} {t : Text}
    {time : Nat} {r : Run σ} (hs : s.EndsAt f delay r.now t time) :
    (resume h s r).1.EndsAt f delay r.now t time := by
  induction s generalizing t time r with
  | finished u =>
    cases hs
    exact .finished u
  | halted => cases hs
  | waiting due place c remarks rest =>
    cases hs with
    | @waiting _ _ _ _ _ _ n hnow hrest =>
      rw [resume]
      split
      · -- The clock stops at every answer, so that none is taken late.
        have hdue : due = r.now := by omega
        rw [hdue]
        simpa using start_endsAt hf hdelay hrest (r.arrive place c remarks)
      · exact .waiting hnow hrest
  | joining rule ss next ih =>
    cases hs with
    | @joining _ _ _ ts _ time n hsome hss hnext =>
      have hbranch : ∀ s ∈ ss, ∀ t time, s.EndsAt f delay r.now t time → ∀ r' : Run σ,
          r'.now = r.now → (resume h s r').1.EndsAt f delay r.now t time := by
        intro s hs t time hends r' hr'
        rw [← hr'] at hends ⊢
        exact ih s hs hends
      obtain ⟨ss', r', hsweep, hnow, hss'⟩ := sweep_latest (now_resume h) hbranch hss rule true rfl
      rw [resume_joining, hsweep]
      refine conclude_latest (fun r'' hr'' => ?_) hnext hss' hnow
      rw [← hr'']
      exact start_endsAt hf hdelay hnext r''

theorem finish_endsAt (hf : h.Follows f) (hdelay : h.Takes delay) (rounds : Nat) {s : Strand}
    {t : Text} {time : Nat} {r : Run σ} (hs : s.EndsAt f delay r.now t time)
    (hends : (finish h rounds s r).1 ≠ .unfinished) :
    (finish h rounds s r).1 = .text t ∧ (finish h rounds s r).2.now = time := by
  have hended : ∀ {s : Strand} {r : Run σ}, s.EndsAt f delay r.now t time →
      outcome s ≠ .unfinished → outcome s = .text t ∧ r.now = time := by
    intro s r hs hout
    cases hs with
    | finished => exact ⟨rfl, rfl⟩
    | waiting | joining => exact absurd rfl hout
  induction rounds generalizing s r with
  | zero =>
    rw [finish_zero] at hends ⊢
    exact hended hs hends
  | succ rounds ih =>
    rw [finish_succ] at hends ⊢
    cases hd : due s with
    | none =>
      rw [hd] at hends
      exact hended hs hends
    | some d =>
      rw [hd] at hends
      -- The clock is set to the next answer, which comes no later than the end.
      obtain ⟨hnow, htime⟩ := hs.bounds_due hd
      have hclock := hs.clock hnow fun d' hd' => (Option.some.inj (hd.symm.trans hd')).le
      rw [max_eq_left htime] at hclock
      refine ih ?_ hends
      rw [now_resume]
      exact resume_endsAt hf hdelay (r := { r with now := d }) hclock

theorem exists_lasts_of_run (hf : h.Follows f) (hdelay : h.Takes delay) {rounds : Nat} {p : Plan}
    {r r' : Run σ} {t : Text} (hrun : run h rounds p r = (.text t, r')) :
    ∃ n, p.Lasts f delay t n ∧ r'.now = r.now + n := by
  obtain ⟨cs, hcs, -⟩ := yields_of_run hf.keeps hrun
  obtain ⟨n, hn⟩ : ∃ n, p.Lasts f delay t n := hcs.exists_lasts
  have hstart := start_endsAt hf hdelay hn r
  rcases hp : start h p r with ⟨s, r₁⟩
  have hnow : r₁.now = r.now := by simpa [hp] using now_start h p r
  rw [hp, ← hnow] at hstart
  have hfinish := finish_endsAt hf hdelay rounds hstart
  rw [run_of_start hp] at hrun
  rw [hrun] at hfinish
  exact ⟨n, hn, by rw [(hfinish (by simp)).2, hnow]⟩

end Schedule
end Inlay
