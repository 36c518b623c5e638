import Inlay.Plan.Schedule
import Inlay.Proofs.Plan.Dialogue
import Inlay.Proofs.Plan.Task

/-!
What a schedule does to a plan. A run goes through steps of the plan's task, its journal holds their
events, and its host comes to the state that it is in after their calls. Starting the branches of a
join and going on with them are the same sweep over a list, and what is true of both is said of the
sweep.
-/
namespace Inlay

variable {σ : Type}

namespace Run

/-- What has happened, without the times at which it did. -/
def events (r : Run σ) : List Event := r.journal.map (·.event)

def requests (r : Run σ) : List Request := Event.requests r.events

theorem calls_eq (r : Run σ) : r.calls = r.events.filterMap Event.call? := by
  simp [calls, events, List.filterMap_map]

theorem coe_calls (r : Run σ) : (r.calls : Multiset Call) = Event.calls r.events := by
  rw [calls_eq, Event.calls]

@[simp] theorem events_fresh (s : σ) (now : Nat) : (⟨s, now, []⟩ : Run σ).events = [] := rfl

@[simp] theorem events_record (r : Run σ) (e : Event) : (r.record e).events = r.events ++ [e] := by
  simp [events, journal, record]

@[simp] theorem events_foldl_record (r : Run σ) (es : List Event) :
    (es.foldl record r).events = r.events ++ es := by
  induction es generalizing r with
  | nil => simp
  | cons e es ih => simp [ih]

@[simp] theorem host_foldl_record (r : Run σ) (es : List Event) :
    (es.foldl record r).host = r.host := by
  induction es generalizing r with
  | nil => rfl
  | cons e es ih => exact ih (r.record e)

@[simp] theorem now_foldl_record (r : Run σ) (es : List Event) :
    (es.foldl record r).now = r.now := by
  induction es generalizing r with
  | nil => rfl
  | cons e es ih => exact ih (r.record e)

@[simp] theorem events_begin (h : Host σ) (place : Place) (c : Call) (r : Run σ) :
    (r.begin h place c).2.events = r.events ++ [.began place c] := by
  simp [begin, events, journal, record]

@[simp] theorem events_arrive (place : Place) (c : Call) (remarks : List Log.Line) (r : Run σ) :
    (r.arrive place c remarks).events = r.events ++ (.ended place c :: remarks.map .said) := by
  simp [arrive]

@[simp] theorem host_arrive (place : Place) (c : Call) (remarks : List Log.Line) (r : Run σ) :
    (r.arrive place c remarks).host = r.host := by
  simp [arrive, record]

@[simp] theorem now_arrive (place : Place) (c : Call) (remarks : List Log.Line) (r : Run σ) :
    (r.arrive place c remarks).now = r.now := by
  simp [arrive, record]

theorem requests_prefix {r r' : Run σ} {es : List Event} (hes : r'.events = r.events ++ es) :
    r.requests <+: r'.requests := by
  rw [requests, requests, hes, Event.requests_append]
  exact List.prefix_append _ _

theorem map_requests (r : Run σ) : r.requests.map (·.2) = r.calls := by
  rw [requests, Event.map_requests, calls_eq]

end Run

namespace Strand

/-- Induction on a strand, with its hypothesis for every branch of a join. -/
@[induction_eliminator]
theorem induct {motive : Strand → Prop} (finished : ∀ t, motive (.finished t))
    (halted : ∀ why, motive (.halted why))
    (waiting : ∀ due place c remarks rest, motive (.waiting due place c remarks rest))
    (joining : ∀ rule strands next, (∀ s ∈ strands, motive s) →
      motive (.joining rule strands next)) (s : Strand) : motive s :=
  Strand.rec (motive_1 := motive) (motive_2 := fun ss => ∀ s ∈ ss, motive s)
    finished halted waiting joining (by simp) (fun s ss hs hss => by simpa using ⟨hs, hss⟩) s

def ended : Except Halt Text → Strand
  | .ok t => finished t
  | .error why => halted why

mutual

def task : Strand → Task
  | finished t => .plan (.done t)
  | halted why => .plan (.halt why)
  | waiting _ place c _ rest => .awaits place c rest
  | joining rule strands next => .joined rule (tasks strands) next

def tasks : List Strand → List Task
  | [] => []
  | s :: ss => s.task :: tasks ss

end

theorem tasks_eq_map (ss : List Strand) : tasks ss = ss.map task := by
  induction ss with
  | nil => rfl
  | cons s ss ih => simp [tasks, ih]

theorem texts?_cons (s : Strand) (ss : List Strand) :
    texts? (s :: ss) = s.text?.bind fun t => (texts? ss).map (t :: ·) := by
  cases s <;> simp [texts?, text?, Option.map_eq_bind]

theorem texts?_eq_some_iff {ss : List Strand} {ts : List Text} :
    texts? ss = some ts ↔ ss = ts.map finished := by
  induction ss generalizing ts with
  | nil => cases ts <;> simp [texts?]
  | cons s ss ih =>
    rw [texts?_cons]
    cases s with
    | finished t => cases ts <;> simp [text?, ih, and_comm]
    | halted | waiting | joining => cases ts <;> simp [text?]

end Strand

theorem Task.Steps.trans_tells {h : Host σ} {s : σ} {n n' : Nat} {t u v : Task}
    {es es' : List Event} (hs : Task.Steps (h.Tells s (Event.requests es)) n t es u)
    (hs' : Task.Steps (h.Tells (h.after s ((Event.requests es).map (·.2))) (Event.requests es'))
      n' u es' v) :
    Task.Steps (h.Tells s (Event.requests (es ++ es'))) (n + n') t (es ++ es') v := by
  rw [Event.requests_append]
  exact (hs.mono fun _ _ => h.tells_append_left _).trans
    (hs'.mono fun _ _ => h.tells_append_right _)

/-- Steps of a task in each of which a call gets the answer that the host has for it by then. -/
inductive Task.Trail (h : Host σ) : Nat → Task → σ → List Event → Task → Prop
  | refl (t : Task) (s : σ) : Trail h 0 t s [] t
  | head {n : Nat} {t u v : Task} {s : σ} {es es' : List Event} :
    Task.Step (h.Tells s (Event.requests es)) t es u →
    Trail h n u (h.after s ((Event.requests es).map (·.2))) es' v →
    Trail h (n + 1) t s (es ++ es') v

namespace Task.Trail

variable {h : Host σ} {m n : Nat} {t u v : Task} {s : σ} {es es' : List Event}

theorem single (hs : Step (h.Tells s (Event.requests es)) t es u) : Trail h 1 t s es u := by
  simpa using head hs (refl u _)

theorem trans (ht : Trail h m t s es u)
    (hu : Trail h n u (h.after s ((Event.requests es).map (·.2))) es' v) :
    Trail h (m + n) t s (es ++ es') v := by
  induction ht with
  | refl => simpa using hu
  | head hs _ ih =>
    rw [Event.requests_append, List.map_append, Host.after_append] at hu
    rw [List.append_assoc, Nat.add_right_comm]
    exact head hs (ih hu)

theorem branch {rule : JoinRule} {next : List Text → Plan} (before after : List Task)
    (ht : Trail h n t s es u) :
    Trail h n (joined rule (before ++ t :: after) next) s es
      (joined rule (before ++ u :: after) next) := by
  induction ht with
  | refl => exact refl _ _
  | head hs _ ih => exact head (.branch before after hs) ih

theorem steps (ht : Trail h n t s es u) :
    Steps (h.Tells s (Event.requests es)) n t es u := by
  induction ht with
  | refl t => exact .refl t
  | @head n _ _ _ _ _ _ hs _ ih =>
    rw [Nat.add_comm]
    exact (Steps.single hs).trans_tells ih

end Task.Trail

namespace Schedule

/-- The failure for which the join of a strand ends at once. -/
def ends? (rule : JoinRule) (clear : Bool) : Strand → Option Halt
  | .halted why => if rule.counts clear then some why else none
  | _ => none

/-- Goes through branches in order, up to the first whose failure ends the join. -/
def sweep {α : Type} (f : α → Run σ → Strand × Run σ) (rule : JoinRule) :
    (clear : Bool) → List α → Run σ → Except Halt (List Strand) × Run σ
  | _, [], r => (.ok [], r)
  | clear, a :: as, r =>
    match ends? rule clear (f a r).1 with
    | some why => (.error why, (f a r).2)
    | none =>
      let (rest, r') := sweep f rule (clear && (f a r).1.isFinished) as (f a r).2
      (rest.map ((f a r).1 :: ·), r')

theorem startAll_eq_sweep (h : Host σ) (rule : JoinRule) (clear : Bool) (ps : List Plan)
    (r : Run σ) : startAll h rule clear ps r = sweep (start h) rule clear ps r := by
  induction ps generalizing clear r with
  | nil => rfl
  | cons p ps ih =>
    rw [startAll, sweep]
    obtain ⟨s, r'⟩ := start h p r
    cases s with
    | halted why =>
      by_cases hc : rule.counts clear = true
      · simp [ends?, hc]
      · simp [ends?, hc, Strand.isFinished, ih]
    | finished | waiting | joining => simp [ends?, ih]

theorem resumeAll_eq_sweep (h : Host σ) (rule : JoinRule) (clear : Bool) (ss : List Strand)
    (r : Run σ) : resumeAll h rule clear ss r = sweep (resume h) rule clear ss r := by
  induction ss generalizing clear r with
  | nil => rfl
  | cons s ss ih =>
    rw [resumeAll, sweep]
    obtain ⟨s', r'⟩ := resume h s r
    cases s' with
    | halted why =>
      by_cases hc : rule.counts clear = true
      · simp [ends?, hc]
      · simp [ends?, hc, Strand.isFinished, ih]
    | finished | waiting | joining => simp [ends?, ih]

theorem start_ask (h : Host σ) (place : Place) (c : Call) (next : c.Answer → Plan) (r : Run σ) :
    start h (.ask place c next) r =
      if (h c r.host).1.delay = 0 then
        start h (next (h c r.host).1.answer)
          ((r.begin h place c).2.arrive place c (h c r.host).1.remarks)
      else (.waiting (r.now + (h c r.host).1.delay) place c (h c r.host).1.remarks
        (next (h c r.host).1.answer), (r.begin h place c).2) := by
  rw [start]
  rfl

/-- What becomes of a join after a sweep over its branches. -/
def conclude (h : Host σ) (rule : JoinRule) (next : List Text → Plan) :
    Except Halt (List Strand) × Run σ → Strand × Run σ
  | (.error why, r) => (.halted why, r)
  | (.ok strands, r) =>
    match Strand.texts? strands with
    | some texts => start h (next texts) r
    | none => (.joining rule strands next, r)

theorem start_join (h : Host σ) (rule : JoinRule) (branches : List Plan)
    (next : List Text → Plan) (r : Run σ) :
    start h (.join rule branches next) r =
      conclude h rule next (sweep (start h) rule true branches r) := by
  rw [start, startAll_eq_sweep]
  obtain ⟨_ | _, _⟩ := sweep (start h) rule true branches r <;> rfl

theorem resume_joining (h : Host σ) (rule : JoinRule) (strands : List Strand)
    (next : List Text → Plan) (r : Run σ) :
    resume h (.joining rule strands next) r =
      conclude h rule next (sweep (resume h) rule true strands r) := by
  rw [resume, resumeAll_eq_sweep]
  obtain ⟨_ | _, _⟩ := sweep (resume h) rule true strands r <;> rfl

/-- What becomes of a strand when its plan is followed by another. -/
def follow (h : Host σ) (f : Text → Plan) : Strand × Run σ → Strand × Run σ
  | (.finished t, r) => start h (f t) r
  | (.halted why, r) => (.halted why, r)
  | (.waiting t place c remarks rest, r) => (.waiting t place c remarks (rest.bind f), r)
  | (.joining rule strands next, r) => (.joining rule strands fun ts => (next ts).bind f, r)

theorem start_bind (h : Host σ) (p : Plan) (f : Text → Plan) (r : Run σ) :
    start h (p.bind f) r = follow h f (start h p r) := by
  induction p generalizing r with
  | done | halt => rfl
  | note place n rest ih =>
    rw [Plan.bind, start, start]
    exact ih _
  | ask place c next ih =>
    rw [Plan.bind, start_ask, start_ask]
    split
    · exact ih _ _
    · rfl
  | join rule branches next _ ih =>
    rw [Plan.bind, start_join, start_join]
    obtain ⟨why | strands, r'⟩ := sweep (start h) rule true branches r
    · rfl
    · rw [conclude, conclude]
      cases Strand.texts? strands with
      | none => rfl
      | some texts => exact ih texts r'

/-- A plan that is followed by another and comes to a text at once has come to one for the other. -/
theorem exists_start_of_bind {h : Host σ} {p : Plan} {f : Text → Plan} {t : Text} {r r' : Run σ}
    (hstart : start h (p.bind f) r = (.finished t, r')) :
    ∃ u r₁, start h p r = (.finished u, r₁) ∧ start h (f u) r₁ = (.finished t, r') := by
  rw [start_bind] at hstart
  rcases hp : start h p r with ⟨strand, r₁⟩
  rw [hp] at hstart
  cases strand with
  | finished u => exact ⟨u, r₁, rfl, hstart⟩
  | halted | waiting | joining => cases hstart

theorem start_notes_eq (h : Host σ) (place : Place) (ns : List Notice) (p : Plan) (r : Run σ) :
    start h (.notes place ns p) r = start h p ((ns.map (.noted place)).foldl Run.record r) := by
  induction ns generalizing r with
  | nil => rfl
  | cons n ns ih => exact ih (r.record (.noted place n))

theorem start_notes (h : Host σ) (place : Place) (ns : List Notice) (p : Plan) (r : Run σ) :
    ∃ r' : Run σ, r'.requests = r.requests ∧ r'.host = r.host ∧
      start h (.notes place ns p) r = start h p r' := by
  refine ⟨_, ?_, Run.host_foldl_record r _, start_notes_eq h place ns p r⟩
  have hnone : Event.requests (ns.map (.noted place)) = [] := by
    simp [Event.requests, Event.request?]
  rw [Run.requests, Run.events_foldl_record, Event.requests_append, hnone, List.append_nil]
  rfl

/--
A task goes on while a run does: the journal grows by the events of the task's steps, every call
gets the answer that the host has for it by then, and the clock stands still. Where `moves` holds,
there is a step at least.
-/
def Proceeds (h : Host σ) (moves : Prop) (t : Task) (r : Run σ) (t' : Task) (r' : Run σ) : Prop :=
  ∃ n es, Task.Trail h n t r.host es t' ∧ r'.events = r.events ++ es ∧
    r'.host = h.after r.host ((Event.requests es).map (·.2)) ∧ r'.now = r.now ∧ (moves → 0 < n)

/--
A task goes on while a run does, where it does not matter which of the answers that the host gives
to one and the same call comes first.
-/
def Advances (h : Host σ) (moves : Prop) (t : Task) (r : Run σ) (t' : Task) (r' : Run σ) : Prop :=
  ∃ n es, Task.Steps (h.Tells r.host (Event.requests es)) n t es t' ∧ r'.events = r.events ++ es ∧
    r'.host = h.after r.host ((Event.requests es).map (·.2)) ∧ r'.now = r.now ∧ (moves → 0 < n)

theorem Advances.mono {h : Host σ} {m m' : Prop} {t t' : Task} {r r' : Run σ}
    (ha : Advances h m t r t' r') (hm : m' → m) : Advances h m' t r t' r' := by
  obtain ⟨n, es, hs, hes, hhost, hnow, hn⟩ := ha
  exact ⟨n, es, hs, hes, hhost, hnow, fun h => hn (hm h)⟩

namespace Proceeds

variable {h : Host σ} {m m' : Prop} {t t' t'' : Task} {r r' r'' : Run σ}

theorem refl (h : Host σ) (t : Task) (r : Run σ) : Proceeds h False t r t r :=
  ⟨0, [], .refl t _, by simp, rfl, rfl, False.elim⟩

theorem of_step {es : List Event} (hs : Task.Step (h.Tells r.host (Event.requests es)) t es t')
    (hes : r'.events = r.events ++ es)
    (hhost : r'.host = h.after r.host ((Event.requests es).map (·.2))) (hnow : r'.now = r.now) :
    Proceeds h True t r t' r' :=
  ⟨1, es, .single hs, hes, hhost, hnow, fun _ => Nat.one_pos⟩

theorem arrive (place : Place) (c : Call) (remarks : List Log.Line) (rest : Plan) (r : Run σ) :
    Proceeds h True (.awaits place c rest) r (.plan rest) (r.arrive place c remarks) :=
  of_step (.arrive place c remarks rest) (by simp) (by simp) (by simp)

theorem trans (ha : Proceeds h m t r t' r') (ha' : Proceeds h m' t' r' t'' r'') :
    Proceeds h (m ∨ m') t r t'' r'' := by
  obtain ⟨n, es, hs, hes, hhost, hnow, hn⟩ := ha
  obtain ⟨n', es', hs', hes', hhost', hnow', hn'⟩ := ha'
  rw [hhost] at hs' hhost'
  refine ⟨n + n', es ++ es', hs.trans hs', ?_, ?_, hnow'.trans hnow, ?_⟩
  · rw [hes', hes, List.append_assoc]
  · rw [hhost', Event.requests_append, List.map_append, Host.after_append]
  · rintro (hm | hm)
    · exact Nat.add_pos_left (hn hm) n'
    · exact Nat.add_pos_right n (hn' hm)

theorem mono (ha : Proceeds h m t r t' r') (hm : m' → m) : Proceeds h m' t r t' r' := by
  obtain ⟨n, es, hs, hes, hhost, hnow, hn⟩ := ha
  exact ⟨n, es, hs, hes, hhost, hnow, fun h => hn (hm h)⟩

theorem branch {rule : JoinRule} {next : List Text → Plan} (before after : List Task)
    (ha : Proceeds h m t r t' r') :
    Proceeds h m (.joined rule (before ++ t :: after) next) r
      (.joined rule (before ++ t' :: after) next) r' := by
  obtain ⟨n, es, hs, ha⟩ := ha
  exact ⟨n, es, hs.branch before after, ha⟩

theorem advances (ha : Proceeds h m t r t' r') : Advances h m t r t' r' := by
  obtain ⟨n, es, hs, ha⟩ := ha
  exact ⟨n, es, hs.steps, ha⟩

end Proceeds

/-- The task of a join after a sweep over some branches, others standing before them. -/
def gathered (rule : JoinRule) (next : List Text → Plan) (before : List Task) :
    Except Halt (List Strand) → Task
  | .ok strands => .joined rule (before ++ Strand.tasks strands) next
  | .error why => .plan (.halt why)

theorem gathered_map_cons (rule : JoinRule) (next : List Text → Plan) (before : List Task)
    (s : Strand) (x : Except Halt (List Strand)) :
    gathered rule next before (x.map (s :: ·)) = gathered rule next (before ++ [s.task]) x := by
  cases x <;> simp [gathered, Except.map, Strand.tasks]

theorem ends?_eq_some {rule : JoinRule} {clear : Bool} {s : Strand} {why : Halt}
    (h : ends? rule clear s = some why) : s = .halted why := by
  cases s with
  | halted w =>
    simp only [ends?, Option.ite_none_right_eq_some, Option.some.injEq] at h
    rw [h.2]
  | finished | waiting | joining => simp [ends?] at h

variable {h : Host σ}

theorem sweep_proceeds {α : Type} {f : α → Run σ → Strand × Run σ} {g : α → Task}
    (moves : α → Nat → Prop) (rule : JoinRule) (next : List Text → Plan) {as : List α}
    (hf : ∀ a ∈ as, ∀ r, Proceeds h (moves a r.now) (g a) r (f a r).1.task (f a r).2)
    (clear : Bool) (before : List Task) (r : Run σ) :
    Proceeds h (∃ a ∈ as, moves a r.now) (.joined rule (before ++ as.map g) next) r
      (gathered rule next before (sweep f rule clear as r).1) (sweep f rule clear as r).2 := by
  induction as generalizing clear before r with
  | nil => exact (Proceeds.refl h _ r).mono (by simp)
  | cons a as ih =>
    -- The first branch goes on in its place, and then stands before the others.
    have ha : Proceeds h (moves a r.now) (.joined rule (before ++ g a :: as.map g) next) r
        (.joined rule (before ++ (f a r).1.task :: as.map g) next) (f a r).2 :=
      (hf a (by simp) r).branch before (as.map g)
    rw [List.map_cons, sweep]
    cases he : ends? rule clear (f a r).1 with
    | some why =>
      rw [ends?_eq_some he] at ha
      exact (ha.trans (.of_step (.fail before _ why) (by simp) rfl rfl)).mono fun _ => .inr trivial
    | none =>
      have has := ih (fun b hb => hf b (by simp [hb])) (clear && (f a r).1.isFinished)
        (before ++ [(f a r).1.task]) (f a r).2
      rw [List.append_assoc, List.singleton_append, ← gathered_map_cons] at has
      refine (ha.trans has).mono ?_
      rintro ⟨b, hb, hm⟩
      rcases List.mem_cons.1 hb with rfl | hb
      · exact .inl hm
      -- The clock stands still, so that the first branch keeps no other from what it is due.
      · obtain ⟨_, _, _, _, _, hnow, _⟩ := ha
        exact .inr ⟨b, hb, by rwa [hnow]⟩

theorem conclude_proceeds {rule : JoinRule} {next : List Text → Plan}
    (hnext : ∀ ts r, Proceeds h False (.plan (next ts)) r (start h (next ts) r).1.task
      (start h (next ts) r).2) (x : Except Halt (List Strand) × Run σ) :
    Proceeds h False (gathered rule next [] x.1) x.2 (conclude h rule next x).1.task
      (conclude h rule next x).2 := by
  obtain ⟨why | strands, r⟩ := x
  · exact .refl h _ r
  · rw [conclude]
    cases ht : Strand.texts? strands with
    | none => exact .refl h _ r
    | some texts =>
      have hs : Strand.tasks strands = texts.map fun t => .plan (.done t) := by
        rw [Strand.texts?_eq_some_iff.1 ht, Strand.tasks_eq_map, List.map_map]
        rfl
      have hmeet : Proceeds h True (gathered rule next [] (.ok strands)) r
          (.plan (next texts)) r := by
        rw [gathered, hs]
        exact .of_step (.meet rule texts next) (by simp) rfl rfl
      exact (hmeet.trans (hnext texts r)).mono False.elim

theorem start_proceeds (h : Host σ) (p : Plan) (r : Run σ) :
    Proceeds h False (.plan p) r (start h p r).1.task (start h p r).2 := by
  induction p generalizing r with
  | done t => exact .refl h _ r
  | halt why => exact .refl h _ r
  | note place n rest ih =>
    rw [start]
    have hnote : Proceeds h True (.plan (.note place n rest)) r (.plan rest)
        (r.record (.noted place n)) := .of_step (.note place n rest) (by simp) rfl rfl
    exact (hnote.trans (ih _)).mono False.elim
  | ask place c next ih =>
    have hask : Proceeds h True (.plan (.ask place c next)) r
        (.awaits place c (next (h c r.host).1.answer)) (r.begin h place c).2 :=
      .of_step (.ask place c next ⟨place, List.mem_singleton_self _⟩) (by simp) rfl rfl
    rw [start_ask]
    split
    · exact (hask.trans (.trans (.arrive place c _ _ _) (ih _ _))).mono False.elim
    · exact hask.mono False.elim
  | join rule branches next ihb ihn =>
    -- The join is taken apart, its branches are started in turn, and the values are put together.
    have hfork : Proceeds h True (.plan (.join rule branches next)) r
        (.joined rule (branches.map .plan) next) r :=
      .of_step (.fork rule branches next) (by simp) rfl rfl
    have hsweep := sweep_proceeds (fun _ _ => False) rule next ihb true [] r
    rw [start_join]
    exact (hfork.trans (hsweep.trans (conclude_proceeds ihn _))).mono False.elim

/-- The strand waits for an answer that has come by now. -/
def IsDue (now : Nat) (s : Strand) : Prop := ∃ t, due s = some t ∧ t ≤ now

theorem exists_isDue {now t : Nat} {ss : List Strand} (h : dueAll ss = some t) (ht : t ≤ now) :
    ∃ s ∈ ss, IsDue now s := by
  induction ss generalizing t with
  | nil => simp [dueAll] at h
  | cons s ss ih =>
    rw [dueAll] at h
    cases hs : due s with
    | none =>
      rw [hs] at h
      obtain ⟨s', hs', hd⟩ := ih h ht
      exact ⟨s', by simp [hs'], hd⟩
    | some a =>
      rw [hs] at h
      cases hss : dueAll ss with
      | none =>
        rw [hss] at h
        cases h
        exact ⟨s, by simp, t, hs, ht⟩
      | some b =>
        rw [hss] at h
        obtain rfl : min a b = t := by simpa [sooner] using h
        rcases min_le_iff.1 ht with ha | hb
        · exact ⟨s, by simp, a, hs, ha⟩
        · obtain ⟨s', hs', hd⟩ := ih hss hb
          exact ⟨s', by simp [hs'], hd⟩

theorem resume_proceeds (h : Host σ) (s : Strand) (r : Run σ) :
    Proceeds h (IsDue r.now s) s.task r (resume h s r).1.task (resume h s r).2 := by
  induction s generalizing r with
  | finished t => exact (Proceeds.refl h _ r).mono (by simp [IsDue, due])
  | halted why => exact (Proceeds.refl h _ r).mono (by simp [IsDue, due])
  | waiting t place c remarks rest =>
    rw [resume]
    split
    · exact (Proceeds.trans (.arrive place c remarks rest r) (start_proceeds h rest _)).mono
        fun _ => .inl trivial
    · exact (Proceeds.refl h _ r).mono (by simp_all [IsDue, due])
  | joining rule ss next ih =>
    rw [resume_joining]
    have hsweep := sweep_proceeds (fun s now => IsDue now s) rule next ih true [] r
    rw [List.nil_append, ← Strand.tasks_eq_map] at hsweep
    refine (hsweep.trans (conclude_proceeds (fun ts r => start_proceeds h (next ts) r) _)).mono ?_
    rintro ⟨t, hd, ht⟩
    exact .inl (exists_isDue hd ht)

theorem start_advances (h : Host σ) (p : Plan) (r : Run σ) :
    Advances h False (.plan p) r (start h p r).1.task (start h p r).2 :=
  (start_proceeds h p r).advances

theorem resume_advances (h : Host σ) (s : Strand) (r : Run σ) :
    Advances h (IsDue r.now s) s.task r (resume h s r).1.task (resume h s r).2 :=
  (resume_proceeds h s r).advances

/-- How a run ends that does not go on with the strand any more. -/
def outcome : Strand → Outcome
  | .finished t => .text t
  | .halted why => .halted why
  | _ => .unfinished

theorem finish_zero (h : Host σ) (s : Strand) (r : Run σ) : finish h 0 s r = (outcome s, r) := by
  cases s <;> simp [finish, outcome]

theorem finish_succ (h : Host σ) (rounds : Nat) (s : Strand) (r : Run σ) :
    finish h (rounds + 1) s r =
      match due s with
      | none => (outcome s, r)
      | some t => finish h rounds (resume h s { r with now := t }).1
          (resume h s { r with now := t }).2 := by
  cases s <;> rfl

@[simp] theorem finish_finished (h : Host σ) (rounds : Nat) (t : Text) (r : Run σ) :
    finish h rounds (.finished t) r = (.text t, r) := by
  cases rounds <;> rfl

@[simp] theorem finish_halted (h : Host σ) (rounds : Nat) (why : Halt) (r : Run σ) :
    finish h rounds (.halted why) r = (.halted why, r) := by
  cases rounds <;> rfl

theorem run_of_start {h : Host σ} {p : Plan} {r r' : Run σ} {s : Strand}
    (hstart : start h p r = (s, r')) (rounds : Nat) : run h rounds p r = finish h rounds s r' := by
  rw [run, hstart]

def Outcome.Ends : Outcome → Task → Prop
  | .text t, u => u = .plan (.done t)
  | .halted why, u => u = .plan (.halt why)
  | .unfinished, _ => True

theorem ends_outcome (s : Strand) : (outcome s).Ends s.task := by
  cases s <;> simp [outcome, Outcome.Ends, Strand.task]

theorem finish_trail (h : Host σ) (rounds : Nat) (s : Strand) (r : Run σ) :
    ∃ n es t, Task.Trail h n s.task r.host es t ∧
      (finish h rounds s r).2.events = r.events ++ es ∧
      (finish h rounds s r).2.host = h.after r.host ((Event.requests es).map (·.2)) ∧
      (finish h rounds s r).1.Ends t := by
  induction rounds generalizing s r with
  | zero =>
    rw [finish_zero]
    exact ⟨0, [], s.task, .refl _ _, by simp, rfl, ends_outcome s⟩
  | succ rounds ih =>
    rw [finish_succ]
    cases due s with
    | none => exact ⟨0, [], s.task, .refl _ _, by simp, rfl, ends_outcome s⟩
    | some t =>
      obtain ⟨n, es, hs, hes, hhost, -⟩ := resume_proceeds h s { r with now := t }
      obtain ⟨n', es', u, hs', hes', hhost', hu⟩ := ih (resume h s { r with now := t }).1
        (resume h s { r with now := t }).2
      rw [hhost] at hs' hhost'
      refine ⟨n + n', es ++ es', u, hs.trans hs', ?_, ?_, hu⟩
      · rw [hes', hes, List.append_assoc]
        rfl
      · rw [hhost', Event.requests_append, List.map_append, Host.after_append]

/--
A run goes through steps of its plan, in each of which a call gets the answer that the host has for
it by then, and its journal grows by their events.
-/
theorem run_trail (h : Host σ) (rounds : Nat) (p : Plan) (r : Run σ) :
    ∃ n es t, Task.Trail h n (.plan p) r.host es t ∧
      (run h rounds p r).2.events = r.events ++ es ∧
      (run h rounds p r).2.host = h.after r.host ((Event.requests es).map (·.2)) ∧
      (run h rounds p r).1.Ends t := by
  obtain ⟨n, es, hs, hes, hhost, -⟩ := start_proceeds h p r
  obtain ⟨n', es', t, hs', hes', hhost', ht⟩ :=
    finish_trail h rounds (start h p r).1 (start h p r).2
  rw [hhost] at hs' hhost'
  refine ⟨n + n', es ++ es', t, hs.trans hs', ?_, ?_, ht⟩
  · rw [run, hes', hes, List.append_assoc]
  · rw [run, hhost', Event.requests_append, List.map_append, Host.after_append]

/--
A run goes through steps of its plan, in which calls get the answers that the host gives in this
very run, and its journal grows by their events.
-/
theorem run_steps_tells (h : Host σ) (rounds : Nat) (p : Plan) (r : Run σ) :
    ∃ n es t, Task.Steps (h.Tells r.host (Event.requests es)) n (.plan p) es t ∧
      (run h rounds p r).2.events = r.events ++ es ∧
      (run h rounds p r).2.host = h.after r.host ((Event.requests es).map (·.2)) ∧
      (run h rounds p r).1.Ends t := by
  obtain ⟨n, es, t, hs, hrun⟩ := run_trail h rounds p r
  exact ⟨n, es, t, hs.steps, hrun⟩

theorem halted_of_safe {E : Event → Prop} {H : Halt → Prop} {rounds : Nat} {p : Plan} {s : σ}
    {why : Halt} {r : Run σ} (hrun : run h rounds p ⟨s, 0, []⟩ = (.halted why, r))
    (hsafe : p.Safe (h.Tells s r.requests) E H) : H why := by
  obtain ⟨n, es, t, hs, hes, -, ht⟩ := run_steps_tells h rounds p ⟨s, 0, []⟩
  rw [hrun] at hes ht
  cases ht
  have hrequests : r.requests = Event.requests es := congrArg Event.requests hes
  rw [hrequests] at hsafe
  cases (hs.safe hsafe).1 with
  | halt hwhy => exact hwhy

theorem run_steps {A : Answering} (hA : h.Keeps A) (rounds : Nat) (p : Plan) (r : Run σ) :
    ∃ n es t, Task.Steps A n (.plan p) es t ∧ (run h rounds p r).2.events = r.events ++ es ∧
      (run h rounds p r).1.Ends t := by
  obtain ⟨n, es, t, hs, hes, -, ht⟩ := run_steps_tells h rounds p r
  exact ⟨n, es, t, hs.mono fun _ _ => hA.of_tells, hes, ht⟩

theorem halted_of_keeps {A : Answering} (hA : h.Keeps A) {E : Event → Prop} {H : Halt → Prop}
    {rounds : Nat} {p : Plan} {r r' : Run σ} {why : Halt}
    (hrun : run h rounds p r = (.halted why, r')) (hsafe : p.Safe A E H) : H why := by
  obtain ⟨n, es, t, hs, -, ht⟩ := run_steps hA rounds p r
  rw [hrun] at ht
  cases ht
  cases (hs.safe hsafe).1 with
  | halt hwhy => exact hwhy

theorem requests_start (h : Host σ) (p : Plan) (r : Run σ) :
    r.requests <+: (start h p r).2.requests := by
  obtain ⟨n, es, -, hes, -⟩ := start_advances h p r
  exact Run.requests_prefix hes

theorem requests_of_start {h : Host σ} {p : Plan} {r r' : Run σ} {s : Strand}
    (hstart : start h p r = (s, r')) : r.requests <+: r'.requests := by
  have hprefix := requests_start h p r
  rwa [hstart] at hprefix

theorem requests_sweep (h : Host σ) (rule : JoinRule) (clear : Bool) (ps : List Plan) (r : Run σ) :
    r.requests <+: (sweep (start h) rule clear ps r).2.requests := by
  have hps : ∀ p ∈ ps, ∀ r, Proceeds h False (.plan p) r (start h p r).1.task (start h p r).2 :=
    fun p _ r => start_proceeds h p r
  obtain ⟨n, es, -, hes, -⟩ :=
    sweep_proceeds (fun _ _ => False) rule (fun _ => .done []) hps clear [] r
  exact Run.requests_prefix hes

theorem requests_sweep_cons (h : Host σ) (rule : JoinRule) (clear : Bool) (p : Plan)
    (ps : List Plan) (r : Run σ) :
    (start h p r).2.requests <+: (sweep (start h) rule clear (p :: ps) r).2.requests := by
  rw [sweep]
  cases ends? rule clear (start h p r).1 with
  | some why => exact List.prefix_rfl
  | none => exact requests_sweep h rule _ ps _

theorem requests_conclude (h : Host σ) (rule : JoinRule) (next : List Text → Plan)
    (swept : Except Halt (List Strand) × Run σ) :
    swept.2.requests <+: (conclude h rule next swept).2.requests := by
  obtain ⟨why | strands, r⟩ := swept
  · exact List.prefix_rfl
  · rw [conclude]
    cases Strand.texts? strands with
    | none => exact List.prefix_rfl
    | some texts => exact requests_start h (next texts) r

theorem requests_follow (h : Host σ) (f : Text → Plan) (started : Strand × Run σ) :
    started.2.requests <+: (follow h f started).2.requests := by
  obtain ⟨s, r⟩ := started
  cases s with
  | finished t => exact requests_start h (f t) r
  | halted | waiting | joining => exact List.prefix_rfl

theorem requests_of_run {h : Host σ} {rounds : Nat} {p : Plan} {r r' : Run σ} {o : Outcome}
    (hrun : run h rounds p r = (o, r')) : (start h p r).2.requests <+: r'.requests := by
  rcases hstart : start h p r with ⟨s, r₁⟩
  rw [run_of_start hstart] at hrun
  obtain ⟨n, es, t, -, hes, -⟩ := finish_trail h rounds s r₁
  rw [hrun] at hes
  exact Run.requests_prefix hes

end Schedule
end Inlay
