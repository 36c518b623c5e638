import Inlay.Proofs.Plan.Meaning
import Mathlib.Logic.Relation

/-!
Plans under way, one event at a time. A task is a plan that may be waiting for an answer, or whose
branches may each have come to a point of their own. A step lets any branch go on, so that the steps
allow every order of events. What a step can do is said here once: it brings a plan no nearer to a
text or to a halt that it could not come to before, and there is no end of steps.
-/
namespace Inlay

inductive Task where
  | plan (p : Plan)
  /-- The call has been made and its answer is known, but has not arrived. -/
  | awaits (place : Place) (call : Call) (rest : Plan)
  | joined (rule : JoinRule) (tasks : List Task) (next : List Text → Plan)

namespace Task

/-- Induction on a task, with its hypothesis for every branch of a join. -/
@[induction_eliminator]
theorem induct {motive : Task → Prop} (plan : ∀ p, motive (.plan p))
    (awaits : ∀ place c rest, motive (.awaits place c rest))
    (joined : ∀ rule tasks next, (∀ t ∈ tasks, motive t) → motive (.joined rule tasks next))
    (t : Task) : motive t :=
  Task.rec (motive_1 := motive) (motive_2 := fun ts => ∀ t ∈ ts, motive t)
    plan awaits joined (by simp) (fun t ts ht hts => by simpa using ⟨ht, hts⟩) t

mutual

/-- What is left to do, when it does not matter that an answer is still on its way. -/
def residue : Task → Plan
  | plan p => p
  | awaits _ _ rest => rest
  | joined rule tasks next => .join rule (residues tasks) next

def residues : List Task → List Plan
  | [] => []
  | t :: ts => t.residue :: residues ts

end

@[simp] theorem residue_plan (p : Plan) : (plan p).residue = p := rfl

@[simp] theorem residues_append (ts us : List Task) :
    residues (ts ++ us) = residues ts ++ residues us := by
  induction ts with
  | nil => rfl
  | cons t ts ih => simp [residues, ih]

@[simp] theorem residues_map_plan (ps : List Plan) : residues (ps.map plan) = ps := by
  induction ps with
  | nil => rfl
  | cons p ps ih => simp [residues, ih]

/-- One step of a task, and the events that it brings about. -/
inductive Step (A : Answering) : Task → List Event → Task → Prop
  | note (place : Place) (n : Notice) (rest : Plan) :
    Step A (plan (.note place n rest)) [.noted place n] (plan rest)
  | ask (place : Place) (c : Call) (next : c.Answer → Plan) {a : c.Answer} (ha : A c a) :
    Step A (plan (.ask place c next)) [.began place c] (awaits place c (next a))
  | arrive (place : Place) (c : Call) (remarks : List Log.Line) (rest : Plan) :
    Step A (awaits place c rest) (.ended place c :: remarks.map .said) (plan rest)
  | fork (rule : JoinRule) (branches : List Plan) (next : List Text → Plan) :
    Step A (plan (.join rule branches next)) [] (joined rule (branches.map plan) next)
  | branch {rule : JoinRule} {next : List Text → Plan} (before after : List Task) {t t' : Task}
      {es : List Event} (ht : Step A t es t') :
    Step A (joined rule (before ++ t :: after) next) es (joined rule (before ++ t' :: after) next)
  | meet (rule : JoinRule) (ts : List Text) (next : List Text → Plan) :
    Step A (joined rule (ts.map fun t => plan (.done t)) next) [] (plan (next ts))
  | fail {rule : JoinRule} {next : List Text → Plan} (before after : List Task) (why : Halt) :
    Step A (joined rule (before ++ plan (.halt why) :: after) next) [] (plan (.halt why))

/-- So many steps of a task one after the other, and the events that they bring about. -/
inductive Steps (A : Answering) : Nat → Task → List Event → Task → Prop
  | refl (t : Task) : Steps A 0 t [] t
  | head {n : Nat} {t u v : Task} {es es' : List Event} :
    Step A t es u → Steps A n u es' v → Steps A (n + 1) t (es ++ es') v

variable {A : Answering}

theorem Step.mono {A' : Answering} (hA : ∀ c a, A c a → A' c a) {t u : Task} {es : List Event}
    (h : Step A t es u) : Step A' t es u := by
  induction h with
  | note place n rest => exact .note place n rest
  | ask place c next ha => exact .ask place c next (hA c _ ha)
  | arrive place c remarks rest => exact .arrive place c remarks rest
  | fork rule branches next => exact .fork rule branches next
  | branch before after _ ih => exact .branch before after ih
  | meet rule ts next => exact .meet rule ts next
  | fail before after why => exact .fail before after why

namespace Steps

theorem mono {A' : Answering} (hA : ∀ c a, A c a → A' c a) {n : Nat} {t u : Task}
    {es : List Event} (h : Steps A n t es u) : Steps A' n t es u := by
  induction h with
  | refl t => exact .refl t
  | head hs _ ih => exact .head (hs.mono hA) ih

theorem single {t u : Task} {es : List Event} (h : Step A t es u) : Steps A 1 t es u := by
  simpa using head h (refl u)

theorem trans {m n : Nat} {t u v : Task} {es es' : List Event} (h : Steps A m t es u)
    (h' : Steps A n u es' v) : Steps A (m + n) t (es ++ es') v := by
  induction h with
  | refl => simpa using h'
  | head hs _ ih =>
    rw [List.append_assoc, Nat.add_right_comm]
    exact head hs (ih h')

theorem branch {rule : JoinRule} {next : List Text → Plan} (before after : List Task) {n : Nat}
    {t t' : Task} {es : List Event} (h : Steps A n t es t') :
    Steps A n (joined rule (before ++ t :: after) next) es
      (joined rule (before ++ t' :: after) next) := by
  induction h with
  | refl => exact refl _
  | head hs _ ih => exact head (.branch before after hs) ih

end Steps

theorem yieldsAll_done (ts : List Text) :
    Plan.YieldsAll A (residues (ts.map fun t => plan (.done t))) ts 0 := by
  induction ts with
  | nil => exact .nil
  | cons t ts ih => exact (Plan.YieldsAll.cons (Plan.Yields.done t) ih).of_eq (add_zero 0)

theorem Step.yields {t t' : Task} {es : List Event} (h : Step A t es t') {x : Text}
    {cs : Multiset Call} (hx : t'.residue.Yields A x cs) :
    t.residue.Yields A x (Event.calls es + cs) := by
  induction h generalizing x cs with
  | note place n rest => exact (Plan.Yields.note hx).of_eq (zero_add cs).symm
  | ask place c next ha => exact Plan.Yields.ask ha hx
  | arrive place c remarks rest =>
    rw [Event.calls_ended, zero_add]
    exact hx
  | fork rule branches next =>
    rw [residue, residues_map_plan] at hx
    exact hx.of_eq (zero_add cs).symm
  | branch before after _ ih =>
    simp only [residue, residues_append, residues] at hx ⊢
    cases hx with
    | join hts hn =>
      exact (Plan.Yields.join (hts.replace fun t cs h => ih h) hn).of_eq (add_assoc ..)
  | meet rule ts next => exact Plan.Yields.join (yieldsAll_done ts) hx
  | fail before after why => cases hx

/-- With one answer for every call, what a task could come to before a step it comes to after. -/
theorem Step.yields_only {f : Oracle} {t t' : Task} {es : List Event} (h : Step f.only t es t')
    {x : Text} {cs : Multiset Call} (hx : t.residue.Yields f.only x cs) :
    ∃ cs', t'.residue.Yields f.only x cs' ∧ cs = Event.calls es + cs' := by
  induction h generalizing x cs with
  | note place n rest =>
    cases hx with
    | note hx => exact ⟨_, hx, (zero_add _).symm⟩
  | ask place c next ha =>
    cases hx with
    | ask ha' hx =>
      cases ha
      cases ha'
      exact ⟨_, hx, rfl⟩
  | arrive place c remarks rest => exact ⟨cs, hx, by rw [Event.calls_ended, zero_add]⟩
  | fork rule branches next =>
    rw [residue, residues_map_plan]
    exact ⟨cs, hx, (zero_add cs).symm⟩
  | branch before after _ ih =>
    -- One branch moves, and the join comes to what it came to before.
    simp only [residue, residues_append, residues] at hx ⊢
    cases hx with
    | join hts hn =>
      obtain ⟨cs', hts', rfl⟩ := hts.advance fun t cs h => ih h
      exact ⟨_, .join hts' hn, add_assoc ..⟩
  | meet rule ts next =>
    cases hx with
    | join hts hn =>
      obtain ⟨rfl, rfl⟩ := hts.unique (yieldsAll_done ts)
      exact ⟨_, hn, rfl⟩
  | fail before after why =>
    -- A join with a branch that fails comes to no text.
    simp only [residue, residues_append, residues] at hx
    cases hx with
    | join hts _ =>
      obtain ⟨t, cs', h⟩ := hts.exists_of_mem (p := .halt why) (by simp)
      cases h

theorem Steps.yields {n : Nat} {t t' : Task} {es : List Event} (h : Steps A n t es t') {x : Text}
    {cs : Multiset Call} (hx : t'.residue.Yields A x cs) :
    t.residue.Yields A x (Event.calls es + cs) := by
  induction h with
  | refl => exact hx.of_eq (zero_add cs).symm
  | head hs _ ih => exact (hs.yields (ih hx)).of_eq (by rw [Event.calls_append, add_assoc])

theorem Steps.yields_only {f : Oracle} {n : Nat} {t t' : Task} {es : List Event}
    (h : Steps f.only n t es t') {x : Text} {cs : Multiset Call}
    (hx : t.residue.Yields f.only x cs) :
    ∃ cs', t'.residue.Yields f.only x cs' ∧ cs = Event.calls es + cs' := by
  induction h generalizing cs with
  | refl => exact ⟨cs, hx, (zero_add cs).symm⟩
  | head hs _ ih =>
    obtain ⟨cs₁, h₁, rfl⟩ := hs.yields_only hx
    obtain ⟨cs₂, h₂, rfl⟩ := ih h₁
    exact ⟨cs₂, h₂, by rw [Event.calls_append, add_assoc]⟩

variable {E : Event → Prop} {H : Halt → Prop}

theorem Step.safe {t t' : Task} {es : List Event} (h : Step A t es t')
    (ht : t.residue.Safe A E H) :
    t'.residue.Safe A E H ∧ ∀ e ∈ es, e.isOwn = true → E e := by
  induction h with
  | note place n rest =>
    cases ht with
    | note hn hr => exact ⟨hr, by simpa using fun _ => hn⟩
  | ask place c next ha =>
    cases ht with
    | ask hc hn => exact ⟨hn _ ha, by simpa using fun _ => hc⟩
  | arrive place c remarks rest => exact ⟨ht, by simp [Event.isOwn]⟩
  | fork rule branches next =>
    rw [residue, residues_map_plan]
    exact ⟨ht, by simp⟩
  | branch before after hs ih =>
    simp only [residue, residues_append, residues] at ht ⊢
    cases ht with
    | join hb hn =>
      obtain ⟨hsafe, hes⟩ := ih (hb _ (by simp))
      refine ⟨.join ?_ fun ts cs hts => hn ts _ (hts.replace fun t cs h => hs.yields h), hes⟩
      intro p hp
      rcases List.mem_append.1 hp with hp | hp
      · exact hb p (by simp [hp])
      · rcases List.mem_cons.1 hp with rfl | hp
        · exact hsafe
        · exact hb p (by simp [hp])
  | meet rule ts next =>
    cases ht with
    | join _ hn => exact ⟨hn ts 0 (yieldsAll_done ts), by simp⟩
  | fail before after why =>
    simp only [residue, residues_append, residues] at ht
    cases ht with
    | join hb _ => exact ⟨hb _ (by simp), by simp⟩

theorem Steps.safe {n : Nat} {t t' : Task} {es : List Event} (h : Steps A n t es t')
    (ht : t.residue.Safe A E H) :
    t'.residue.Safe A E H ∧ ∀ e ∈ es, e.isOwn = true → E e := by
  induction h with
  | refl => exact ⟨ht, by simp⟩
  | head hs _ ih =>
    obtain ⟨hu, hes⟩ := hs.safe ht
    obtain ⟨hv, hes'⟩ := ih hu
    refine ⟨hv, fun e he => ?_⟩
    rcases List.mem_append.1 he with he | he
    · exact hes e he
    · exact hes' e he

def Precedes (A : Answering) (t' t : Task) : Prop := ∃ es, Step A t es t'

/-- One task of a list has made a step. -/
def OnePrecedes (A : Answering) (ts' ts : List Task) : Prop :=
  ∃ before t t' after, ts = before ++ t :: after ∧ ts' = before ++ t' :: after ∧ Precedes A t' t

theorem acc_onePrecedes_cons {t : Task} {ts : List Task} (ht : Acc (Precedes A) t)
    (hts : Acc (OnePrecedes A) ts) : Acc (OnePrecedes A) (t :: ts) := by
  induction ht generalizing ts with
  | intro t _ iht =>
    induction hts with
    | intro ts hts ihts =>
      refine Acc.intro _ ?_
      rintro _ ⟨before, u, u', after, heq, rfl, hu⟩
      -- The step is one of the first task, or one of the others.
      cases before with
      | nil =>
        obtain ⟨rfl, rfl⟩ := List.cons.inj heq
        exact iht u' hu (Acc.intro _ hts)
      | cons b before =>
        obtain ⟨rfl, rfl⟩ := List.cons.inj heq
        exact ihts _ ⟨before, u, u', after, rfl, rfl, hu⟩

theorem acc_onePrecedes {ts : List Task} (h : ∀ t ∈ ts, Acc (Precedes A) t) :
    Acc (OnePrecedes A) ts := by
  induction ts with
  | nil =>
    refine Acc.intro _ ?_
    rintro _ ⟨before, u, u', after, heq, -, -⟩
    simp at heq
  | cons t ts ih => exact acc_onePrecedes_cons (h t (by simp)) (ih fun u hu => h u (by simp [hu]))

theorem acc_halt (why : Halt) : Acc (Precedes A) (plan (.halt why)) :=
  Acc.intro _ fun _ ⟨_, h⟩ => by cases h

theorem acc_joined {rule : JoinRule} {ts : List Task} {next : List Text → Plan}
    (hts : Acc (OnePrecedes A) ts) (hnext : ∀ xs, Acc (Precedes A) (plan (next xs))) :
    Acc (Precedes A) (joined rule ts next) := by
  induction hts with
  | intro ts _ ih =>
    refine Acc.intro _ fun u ⟨es, h⟩ => ?_
    cases h with
    | branch before after ht => exact ih _ ⟨before, _, _, after, rfl, rfl, _, ht⟩
    | meet => exact hnext _
    | fail before after why => exact acc_halt why

theorem acc_plan (p : Plan) : Acc (Precedes A) (plan p) := by
  induction p with
  | done t => exact Acc.intro _ fun _ ⟨_, h⟩ => by cases h
  | halt why => exact acc_halt why
  | note place n rest ih =>
    refine Acc.intro _ fun _ ⟨_, h⟩ => ?_
    cases h
    exact ih
  | ask place c next ih =>
    refine Acc.intro _ fun _ ⟨_, h⟩ => ?_
    cases h
    refine Acc.intro _ fun _ ⟨_, h⟩ => ?_
    cases h
    exact ih _
  | join rule branches next ihb ihn =>
    refine Acc.intro _ fun _ ⟨_, h⟩ => ?_
    cases h
    exact acc_joined (acc_onePrecedes (by simpa using ihb)) ihn

/-- No task can go on for ever, whatever the answers and whichever branches go on. -/
theorem acc (t : Task) : Acc (Precedes A) t := by
  induction t with
  | plan p => exact acc_plan p
  | awaits place c rest =>
    refine Acc.intro _ fun _ ⟨_, h⟩ => ?_
    cases h
    exact acc_plan rest
  | joined rule ts next ih => exact acc_joined (acc_onePrecedes ih) fun xs => acc_plan (next xs)

theorem Steps.transGen {n : Nat} {t t' : Task} {es : List Event} (h : Steps A (n + 1) t es t') :
    Relation.TransGen (Precedes A) t' t := by
  induction n generalizing t es with
  | zero =>
    cases h with
    | head hs h =>
      cases h
      exact .single ⟨_, hs⟩
  | succ n ih =>
    cases h with
    | head hs h => exact .tail (ih h) ⟨_, hs⟩

end Task
end Inlay
