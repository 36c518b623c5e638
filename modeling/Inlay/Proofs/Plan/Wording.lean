import Inlay.Proofs.Plan.Schedule

/-!
Two plans that differ in what they say. The one gives other notices than the other, in the same
places between the calls, and the schedule is the same for both: their runs make the same calls at
the same times and come to the same end. What the stretches of notices, each with the call behind
it, are to one another in the plans, the whole journals are in the runs.
-/
namespace Inlay

variable {σ : Type}

/-- A relation between stretches of two journals, which holds of what is said about an answer. -/
structure Wording (C : List Event → List Event → Prop) : Prop where
  nil : C [] []
  append : ∀ {es es' fs fs'}, C es es' → C fs fs' → C (es ++ fs) (es' ++ fs')
  ended : ∀ place c (remarks : List Log.Line),
    C (.ended place c :: remarks.map .said) (.ended place c :: remarks.map .said)

namespace Plan

/-- The plans differ in their notices only, and stretch by stretch the relation holds. -/
inductive Words (C : List Event → List Event → Prop) : Plan → Plan → Prop
  | done (t : Text) : Words C (done t) (done t)
  | halt (why : Halt) : Words C (halt why) (halt why)
  | notes {place : Place} {ns ns' : List Notice} {p p' : Plan} :
    C (ns.map (.noted place)) (ns'.map (.noted place)) → Words C p p' →
      Words C (notes place ns p) (notes place ns' p')
  | ask {place : Place} (ns ns' : List Notice) {c : Call} {next next' : c.Answer → Plan} :
    C (ns.map (.noted place) ++ [.began place c]) (ns'.map (.noted place) ++ [.began place c]) →
      (∀ a, Words C (next a) (next' a)) →
      Words C (notes place ns (ask place c next)) (notes place ns' (ask place c next'))
  | join {rule : JoinRule} {ps ps' : List Plan} {next next' : List Text → Plan} :
    ps.length = ps'.length →
      (∀ i h h', Words C (ps.get ⟨i, h⟩) (ps'.get ⟨i, h'⟩)) →
      (∀ ts, Words C (next ts) (next' ts)) → Words C (join rule ps next) (join rule ps' next')

theorem Words.bind {C : List Event → List Event → Prop} {p p' : Plan} {f f' : Text → Plan}
    (hp : Words C p p') (hf : ∀ t, Words C (f t) (f' t)) :
    Words C (p.bind f) (p'.bind f') := by
  induction hp with
  | done t => exact hf t
  | halt why => exact .halt why
  | notes hns _ ih =>
    rw [bind_notes, bind_notes]
    exact .notes hns ih
  | ask ns ns' hns _ ih =>
    rw [bind_notes, bind_notes]
    exact .ask ns ns' hns ih
  | join hlength hps _ _ ih => exact .join hlength hps ih

end Plan

namespace Strand

/-- The strands wait for the same answers, and differ in what is said from then on. -/
inductive Words (C : List Event → List Event → Prop) : Strand → Strand → Prop
  | finished (t : Text) : Words C (finished t) (finished t)
  | halted (why : Halt) : Words C (halted why) (halted why)
  | waiting (due : Nat) (place : Place) (c : Call) (remarks : List Log.Line) {rest rest' : Plan} :
    rest.Words C rest' →
      Words C (waiting due place c remarks rest) (waiting due place c remarks rest')
  | joining {rule : JoinRule} {ss ss' : List Strand} {next next' : List Text → Plan} :
    ss.length = ss'.length →
      (∀ i h h', Words C (ss.get ⟨i, h⟩) (ss'.get ⟨i, h'⟩)) →
      (∀ ts, (next ts).Words C (next' ts)) → Words C (joining rule ss next) (joining rule ss' next')

variable {C : List Event → List Event → Prop}

theorem Words.outcome {s s' : Strand} (h : s.Words C s') :
    Schedule.outcome s = Schedule.outcome s' := by
  cases h <;> rfl

theorem dueAll_congr {ss ss' : List Strand}
    (hss : List.Forall₂ (fun s s' => Schedule.due s = Schedule.due s') ss ss') :
    Schedule.dueAll ss = Schedule.dueAll ss' := by
  induction hss with
  | nil => rfl
  | cons hs _ ih => rw [Schedule.dueAll, Schedule.dueAll, hs, ih]

theorem Words.due {s s' : Strand} (h : s.Words C s') : Schedule.due s = Schedule.due s' := by
  induction h with
  | finished | halted | waiting => rfl
  | joining hlength _ _ ih => exact dueAll_congr (List.forall₂_iff_get.2 ⟨hlength, ih⟩)

end Strand

namespace Schedule

/-- The strands are related, and so are the runs that have led to them. -/
structure Pairs (S : Strand → Strand → Prop) (K : Run σ → Run σ → Prop) (x y : Strand × Run σ) :
    Prop where
  strand : S x.1 y.1
  run : K x.2 y.2

/-- Both sweeps come to the same halt, or to strands that are related one by one. -/
inductive Swept (S : Strand → Strand → Prop) :
    Except Halt (List Strand) → Except Halt (List Strand) → Prop
  | error (why : Halt) : Swept S (.error why) (.error why)
  | ok {ss ss' : List Strand} : List.Forall₂ S ss ss' → Swept S (.ok ss) (.ok ss')

theorem ends?_congr {s s' : Strand} (hs : outcome s = outcome s') (rule : JoinRule)
    (clear : Bool) : ends? rule clear s = ends? rule clear s' := by
  cases s <;> cases s' <;> cases hs <;> rfl

theorem isFinished_congr {s s' : Strand} (hs : outcome s = outcome s') :
    s.isFinished = s'.isFinished := by
  cases s <;> cases s' <;> cases hs <;> rfl

theorem texts?_congr {ss ss' : List Strand}
    (hss : List.Forall₂ (fun s s' => outcome s = outcome s') ss ss') :
    Strand.texts? ss = Strand.texts? ss' := by
  induction hss with
  | nil => rfl
  | @cons s s' ss ss' hs _ ih =>
    have htext : s.text? = s'.text? := by cases s <;> cases s' <;> cases hs <;> rfl
    rw [Strand.texts?_cons, Strand.texts?_cons, ih, htext]

variable {S : Strand → Strand → Prop} {K : Run σ → Run σ → Prop} {h : Host σ}

theorem Swept.cons {s s' : Strand} {x y : Except Halt (List Strand)} (hs : S s s')
    (hxy : Swept S x y) : Swept S (x.map (s :: ·)) (y.map (s' :: ·)) := by
  cases hxy with
  | error why => exact .error why
  | ok hss => exact .ok (.cons hs hss)

theorem sweep_pairs {α β : Type} {f : α → Run σ → Strand × Run σ} {g : β → Run σ → Strand × Run σ}
    (hS : ∀ s s', S s s' → outcome s = outcome s') (rule : JoinRule) {as : List α} {bs : List β}
    (hfg : List.Forall₂ (fun a b => ∀ r r', K r r' → Pairs S K (f a r) (g b r')) as bs)
    (clear : Bool) {r r' : Run σ} (hr : K r r') :
    Swept S (sweep f rule clear as r).1 (sweep g rule clear bs r').1 ∧
      K (sweep f rule clear as r).2 (sweep g rule clear bs r').2 := by
  induction hfg generalizing clear r r' with
  | nil => exact ⟨.ok .nil, hr⟩
  | @cons a b as bs hab _ ih =>
    obtain ⟨hstrand, hrun⟩ := hab r r' hr
    have houtcome := hS _ _ hstrand
    rw [sweep, sweep, ends?_congr houtcome, isFinished_congr houtcome]
    cases ends? rule clear (g b r').1 with
    | some why => exact ⟨.error why, hrun⟩
    | none =>
      obtain ⟨hrest, hruns⟩ := ih (clear && (g b r').1.isFinished) hrun
      exact ⟨.cons hstrand hrest, hruns⟩

theorem conclude_pairs (hS : ∀ s s', S s s' → outcome s = outcome s') {rule : JoinRule}
    {next next' : List Text → Plan}
    (hnext : ∀ ts r r', K r r' → Pairs S K (start h (next ts) r) (start h (next' ts) r'))
    (hjoining : ∀ ss ss', List.Forall₂ S ss ss' →
      S (.joining rule ss next) (.joining rule ss' next'))
    (hhalted : ∀ why, S (.halted why) (.halted why))
    {x y : Except Halt (List Strand) × Run σ} (hswept : Swept S x.1 y.1) (hruns : K x.2 y.2) :
    Pairs S K (conclude h rule next x) (conclude h rule next' y) := by
  obtain ⟨x, r⟩ := x
  obtain ⟨y, r'⟩ := y
  cases hswept with
  | error why => exact ⟨hhalted why, hruns⟩
  | ok hss =>
    rw [conclude, conclude, texts?_congr (hss.imp hS)]
    cases Strand.texts? _ with
    | some texts => exact hnext texts r r' hruns
    | none => exact ⟨hjoining _ _ hss, hruns⟩

end Schedule

/-- The runs have come to the same state at the same time, and their journals are wordings. -/
structure Run.Words (C : List Event → List Event → Prop) (r r' : Run σ) : Prop where
  host : r.host = r'.host
  now : r.now = r'.now
  events : C r.events r'.events

namespace Run.Words

variable {C : List Event → List Event → Prop} {r r' : Run σ}

theorem fresh (hC : Wording C) (s : σ) (now : Nat) : Run.Words C ⟨s, now, []⟩ ⟨s, now, []⟩ :=
  ⟨rfl, rfl, hC.nil⟩

theorem foldl_record (hC : Wording C) (hr : r.Words C r') {es es' : List Event} (hes : C es es') :
    (es.foldl Run.record r).Words C (es'.foldl Run.record r') := by
  refine ⟨?_, ?_, ?_⟩
  · rw [Run.host_foldl_record, Run.host_foldl_record, hr.host]
  · rw [Run.now_foldl_record, Run.now_foldl_record, hr.now]
  · rw [Run.events_foldl_record, Run.events_foldl_record]
    exact hC.append hr.events hes

theorem begin (hC : Wording C) (h : Host σ) (hr : r.Words C r') {place : Place} {c : Call}
    {ns ns' : List Notice}
    (hns : C (ns.map (.noted place) ++ [.began place c])
      (ns'.map (.noted place) ++ [.began place c])) :
    (((ns.map (.noted place)).foldl Run.record r).begin h place c).2.Words C
      (((ns'.map (.noted place)).foldl Run.record r').begin h place c).2 := by
  refine ⟨?_, ?_, ?_⟩
  · simp only [Run.begin, Run.record, Run.host_foldl_record, hr.host]
  · simp only [Run.begin, Run.record, Run.now_foldl_record, hr.now]
  · simp only [Run.events_begin, Run.events_foldl_record, List.append_assoc]
    exact hC.append hr.events hns

theorem arrive (hC : Wording C) (hr : r.Words C r') (place : Place) (c : Call)
    (remarks : List Log.Line) :
    (r.arrive place c remarks).Words C (r'.arrive place c remarks) := by
  refine ⟨?_, ?_, ?_⟩
  · rw [Run.host_arrive, Run.host_arrive, hr.host]
  · rw [Run.now_arrive, Run.now_arrive, hr.now]
  · rw [Run.events_arrive, Run.events_arrive]
    exact hC.append hr.events (hC.ended place c remarks)

theorem at_ (hr : r.Words C r') (t : Nat) :
    Run.Words C { r with now := t } { r' with now := t } := ⟨hr.host, rfl, hr.events⟩

end Run.Words

namespace Schedule

variable {C : List Event → List Event → Prop} {r r' : Run σ}

end Schedule
end Inlay
