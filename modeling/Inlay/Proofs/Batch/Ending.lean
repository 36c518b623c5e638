import Inlay.Proofs.Batch.Course
import Inlay.Proofs.Plan.Ending

/-!
Two ways to work on a batch, with a window and one document after the other. Both are courses of it,
and both come to an end: in the window, a document is written or the clock moves to the time of an
answer, which takes some document at least one step further.
-/
namespace Inlay.Batch

open Course

variable {h : Host World}

def State.course (s : State) : Course := ⟨s.flight ++ s.pending, s.desk, s.run⟩

theorem State.course_fill (room : Nat) (s : State) : (s.fill room).course = s.course := by
  simp [fill, course]

theorem reaches_stepAll (before flight after : Flight) (desk : Desk) (r : Run World) :
    Reaches h ⟨before ++ (flight ++ after), desk, r⟩
      ⟨before ++ ((stepAll h flight r).1 ++ after), desk, (stepAll h flight r).2⟩ := by
  induction flight generalizing before r with
  | nil => exact .refl
  | cons doc rest ih =>
    obtain ⟨source, p⟩ := doc
    have hrest := ih (before ++ [(source, (p.step h r).1)]) (p.step h r).2
    rw [List.append_assoc, List.append_assoc] at hrest
    exact .head (.go before (rest ++ after) source p desk r) hrest

theorem reaches_poll (flight after : Flight) (desk : Desk) (r : Run World) :
    Reaches h ⟨flight ++ after, desk, r⟩
      ⟨(poll h flight r).1 ++ after, desk, (poll h flight r).2⟩ := by
  cases flight with
  | nil => exact .refl
  | cons doc rest =>
    obtain ⟨source, p⟩ := doc
    rw [poll]
    split
    · exact .refl
    · dsimp only
      split
      · exact .single (.go [] (rest ++ after) source p desk r)
      · exact reaches_stepAll [] ((source, p) :: rest) after desk r

inductive Round (h : Host World) (room : Nat) (s : State) : State → Prop
  | deliver {source : Source} {p : Progress} {rest : Flight} {r : Run World}
      {outcome : Except Halt Text}
      (hpoll : poll h (s.fill room).flight (s.fill room).run = ((source, p) :: rest, r))
      (hp : p.outcome? = some outcome) :
    Round h room s { s.fill room with
      flight := rest
      desk := ((s.fill room).desk.deliver source outcome r).1
      run := ((s.fill room).desk.deliver source outcome r).2 }
  | wait {source : Source} {p : Progress} {rest : Flight} {r : Run World} {t : Nat}
      (hpoll : poll h (s.fill room).flight (s.fill room).run = ((source, p) :: rest, r))
      (hp : p.outcome? = none) (ht : nextDue ((source, p) :: rest) = some t) :
    Round h room s { s.fill room with
      flight := (source, p) :: rest
      run := { r with now := t } }

variable {room : Nat} {s s' : State}

theorem Round.reaches (hround : Round h room s s') : Reaches h s.course s'.course := by
  rw [← s.course_fill room]
  have hpolled := reaches_poll (h := h) (s.fill room).flight (s.fill room).pending
    (s.fill room).desk (s.fill room).run
  cases hround with
  | deliver hpoll hp =>
    rw [hpoll] at hpolled
    exact hpolled.tail (.deliver _ _ _ hp)
  | wait hpoll hp ht =>
    rw [hpoll] at hpolled
    exact hpolled.tail (.wait _ _ _ _)

theorem Round.work_eq (hround : Round h room s s') (rounds : Nat) :
    work h room (rounds + 1) s = work h room rounds s' := by
  rw [work]
  cases hround with
  | deliver hpoll hp =>
    cases hflight : (s.fill room).flight with
    | nil =>
      rw [hflight] at hpoll
      cases hpoll
    | cons doc rest =>
      rw [hflight] at hpoll
      simp only [hpoll, hp]
  | wait hpoll hp ht =>
    cases hflight : (s.fill room).flight with
    | nil =>
      rw [hflight] at hpoll
      cases hpoll
    | cons doc rest =>
      rw [hflight] at hpoll
      simp only [hpoll, hp, ht]

theorem work_of_empty (h : Host World) (room : Nat) (hs : s.course.docs = []) (rounds : Nat) :
    work h room rounds s = s := by
  obtain ⟨hflight, hpending⟩ := List.append_eq_nil_iff.1 hs
  obtain ⟨flight, pending, desk, r⟩ := s
  subst hflight hpending
  cases rounds with
  | zero => rfl
  | succ rounds => simp [work, State.fill]

theorem step_poised (h : Host World) (p : Progress) (r : Run World) :
    (p.step h r).1.outcome?.isSome ∨ (p.step h r).1.due.isSome := by
  have hpoised : ∀ s : Strand, Schedule.Poised s →
      (Progress.under s).outcome?.isSome ∨ (Progress.under s).due.isSome := by
    rintro s (hs | hs)
    · cases s <;> simp_all [Schedule.outcome, Progress.outcome?]
    · exact .inr hs
  cases p with
  | idle p => exact hpoised _ (Schedule.start_poised h p r)
  | under s => exact hpoised _ (Schedule.resume_poised h s r)

theorem poll_cons (h : Host World) (source : Source) (p : Progress) (rest : Flight)
    (r : Run World) :
    ∃ p' rest' r', poll h ((source, p) :: rest) r = ((source, p') :: rest', r') ∧
      (p'.outcome?.isSome ∨
        p'.due.isSome ∧ poll h ((source, p) :: rest) r = stepAll h ((source, p) :: rest) r) := by
  by_cases hp : p.outcome?.isSome = true
  · exact ⟨p, rest, r, by rw [poll, if_pos hp], .inl hp⟩
  · by_cases hp' : (p.step h r).1.outcome?.isSome = true
    · refine ⟨(p.step h r).1, rest, (p.step h r).2, ?_, .inl hp'⟩
      simp only [poll, if_neg hp, if_pos hp']
    · have hall : poll h ((source, p) :: rest) r = stepAll h ((source, p) :: rest) r := by
        simp only [poll, if_neg hp, if_neg hp', stepAll]
      exact ⟨_, _, _, hall, .inr ⟨(step_poised h p r).resolve_left hp', hall⟩⟩

theorem foldl_sooner_isSome {a : Option Nat} (ha : a.isSome) (ts : List (Option Nat)) :
    (ts.foldl Schedule.sooner a).isSome := by
  induction ts generalizing a with
  | nil => exact ha
  | cons t ts ih => exact ih (Schedule.sooner_isSome (.inl ha))

theorem nextDue_isSome {source : Source} {p : Progress} (hp : p.due.isSome) (rest : Flight) :
    (nextDue ((source, p) :: rest)).isSome :=
  foldl_sooner_isSome (Schedule.sooner_isSome (.inr hp)) _

theorem exists_round (h : Host World) (hroom : 0 < room) (hs : s.course.docs ≠ []) :
    ∃ s', Round h room s s' := by
  have hflight : (s.fill room).flight ≠ [] := by
    intro hnil
    obtain ⟨hflight, htake⟩ := List.append_eq_nil_iff.1 hnil
    have hpending : s.pending ≠ [] := fun hpending => hs (by simp [State.course, hflight, hpending])
    simp only [hflight, List.take_eq_nil_iff, hpending, or_false, List.length_nil] at htake
    omega
  obtain ⟨⟨source, p⟩, rest, hcons⟩ := List.exists_cons_of_ne_nil hflight
  obtain ⟨p', rest', r', hpoll, hp'⟩ := poll_cons h source p rest (s.fill room).run
  rw [← hcons] at hpoll
  cases hout : p'.outcome? with
  | some outcome => exact ⟨_, .deliver hpoll hout⟩
  | none =>
    rw [hout] at hp'
    obtain ⟨hdue, -⟩ := hp'.resolve_left (by simp)
    obtain ⟨t, ht⟩ := Option.isSome_iff_exists.1 (nextDue_isSome hdue rest')
    exact ⟨_, .wait hpoll hout ht⟩

open Relation (ReflTransGen TransGen)

def tasks (docs : Flight) : List Task := docs.map (·.2.task)

def AnyDue (docs : Flight) (now : Nat) : Prop :=
  ∃ source p t, (source, p) ∈ docs ∧ p.due = some t ∧ t ≤ now

theorem step_precedes (h : Host World) (p : Progress) (r : Run World) :
    ReflTransGen (Task.Precedes h.Allows) (p.step h r).1.task p.task ∧
      ((∃ t, p.due = some t ∧ t ≤ r.now) →
        TransGen (Task.Precedes h.Allows) (p.step h r).1.task p.task) ∧
      (p.step h r).2.now = r.now := by
  obtain ⟨n, es, hsteps, -, -, hnow, hmoves⟩ := p.step_advances h r
  replace hsteps := hsteps.mono fun _ _ => h.keeps_allows.of_tells
  cases n with
  | zero =>
    refine ⟨?_, fun hdue => absurd (hmoves hdue) (by omega), hnow⟩
    generalize (p.step h r).1.task = t, p.task = u at hsteps
    cases hsteps
    exact .refl
  | succ n => exact ⟨hsteps.transGen.to_reflTransGen, fun _ => hsteps.transGen, hnow⟩

theorem onePrecedes_head {A : Answering} {t t' : Task} (ht : Task.Precedes A t' t)
    (ts : List Task) : Task.OnePrecedes A (t' :: ts) (t :: ts) := ⟨[], t, t', ts, rfl, rfl, ht⟩

theorem onePrecedes_cons {A : Answering} {ts ts' : List Task} (hts : Task.OnePrecedes A ts' ts)
    (t : Task) : Task.OnePrecedes A (t :: ts') (t :: ts) := by
  obtain ⟨before, u, u', after, rfl, rfl, hu⟩ := hts
  exact ⟨t :: before, u, u', after, rfl, rfl, hu⟩

theorem onePrecedes_append {A : Answering} {ts ts' : List Task} (hts : Task.OnePrecedes A ts' ts)
    (us : List Task) : Task.OnePrecedes A (ts' ++ us) (ts ++ us) := by
  obtain ⟨before, u, u', after, rfl, rfl, hu⟩ := hts
  exact ⟨before, u, u', after ++ us, by simp, by simp, hu⟩

theorem stepAll_precedes (h : Host World) (flight : Flight) (r : Run World) :
    ReflTransGen (Task.OnePrecedes h.Allows) (tasks (stepAll h flight r).1) (tasks flight) ∧
      (AnyDue flight r.now →
        TransGen (Task.OnePrecedes h.Allows) (tasks (stepAll h flight r).1) (tasks flight)) := by
  induction flight generalizing r with
  | nil => exact ⟨.refl, fun ⟨_, _, _, hmem, _⟩ => by cases hmem⟩
  | cons doc rest ih =>
    obtain ⟨source, p⟩ := doc
    obtain ⟨hstep, hmoves, hnow⟩ := step_precedes h p r
    obtain ⟨hrest, hmoves'⟩ := ih (p.step h r).2
    have hlater := hrest.lift ((p.step h r).1.task :: ·) fun _ _ hts => onePrecedes_cons hts _
    have hfirst := hstep.lift (· :: tasks rest) fun _ _ ht => onePrecedes_head ht _
    refine ⟨hlater.trans hfirst, ?_⟩
    rintro ⟨source', p', t, hmem, hdue, ht⟩
    rcases List.mem_cons.1 hmem with heq | hmem
    · cases heq
      have hone := (hmoves ⟨t, hdue, ht⟩).lift (· :: tasks rest) fun _ _ ht => onePrecedes_head ht _
      exact TransGen.trans_right hlater hone
    · have hone := (hmoves' ⟨source', p', t, hmem, hdue, by rwa [hnow]⟩).lift
        ((p.step h r).1.task :: ·) fun _ _ hts => onePrecedes_cons hts _
      exact TransGen.trans_left hone hfirst

theorem exists_of_foldl_sooner {a : Option Nat} {ts : List (Option Nat)} {t : Nat}
    (h : ts.foldl Schedule.sooner a = some t) : a = some t ∨ some t ∈ ts := by
  induction ts generalizing a with
  | nil => exact .inl h
  | cons b ts ih =>
    rcases ih h with hsooner | hmem
    · cases a with
      | none => exact .inr (by simp_all [Schedule.sooner])
      | some a =>
        cases b with
        | none => exact .inl (by simpa [Schedule.sooner] using hsooner)
        | some b =>
          obtain rfl : min a b = t := by simpa [Schedule.sooner] using hsooner
          rcases min_choice a b with hmin | hmin
          · exact .inl (by rw [hmin])
          · exact .inr (by simp [hmin])
    · exact .inr (List.mem_cons_of_mem _ hmem)

theorem exists_of_nextDue {flight : Flight} {t : Nat} (ht : nextDue flight = some t) :
    ∃ source p, (source, p) ∈ flight ∧ p.due = some t := by
  rcases exists_of_foldl_sooner ht with hnone | hmem
  · cases hnone
  · obtain ⟨⟨source, p⟩, hdoc, hdue⟩ := List.mem_map.1 hmem
    exact ⟨source, p, hdoc, hdue⟩

theorem length_stepAll (h : Host World) (flight : Flight) (r : Run World) :
    (stepAll h flight r).1.length = flight.length := by
  induction flight generalizing r with
  | nil => rfl
  | cons doc rest ih => exact congrArg (· + 1) (ih _)

theorem length_poll (h : Host World) (flight : Flight) (r : Run World) :
    (poll h flight r).1.length = flight.length := by
  cases flight with
  | nil => rfl
  | cons doc rest =>
    obtain ⟨source, p⟩ := doc
    rw [poll]
    split
    · rfl
    · dsimp only
      split
      · rfl
      · exact congrArg (· + 1) (length_stepAll h rest _)

/--
A round writes a document, or it moves the clock to the time of an answer; if the clock stood at
such a time before, some document has gone a step further.
-/
theorem Round.progress (hround : Round h room s s') :
    s'.course.docs.length + 1 = s.course.docs.length ∨
      s'.course.docs.length = s.course.docs.length ∧ AnyDue s'.flight s'.run.now ∧
        (AnyDue s.flight s.run.now →
          TransGen (Task.OnePrecedes h.Allows) (tasks s'.course.docs) (tasks s.course.docs)) := by
  have hlength := length_poll h (s.fill room).flight (s.fill room).run
  have hdocs : s.course.docs = (s.fill room).flight ++ (s.fill room).pending :=
    congrArg Course.docs (s.course_fill room).symm
  rw [hdocs, List.length_append]
  cases hround with
  | @deliver source p rest r outcome hpoll hp =>
    -- A document that is written leaves the batch.
    left
    simp only [hpoll, List.length_cons] at hlength
    simp only [State.course, List.length_append]
    omega
  | @wait source p rest r t hpoll hp ht =>
    simp only [hpoll] at hlength
    obtain ⟨source', p', hmem, hdue⟩ := exists_of_nextDue ht
    refine .inr ⟨?_, ⟨source', p', t, hmem, hdue, le_rfl⟩, ?_⟩
    · simp only [State.course, List.length_append]
      omega
    · rintro ⟨source', p', t', hmem', hdue', ht'⟩
      -- The front has not ended, and so all documents in flight have been given a step.
      have hall : poll h (s.fill room).flight (s.fill room).run =
          stepAll h (s.fill room).flight (s.fill room).run := by
        cases hflight : (s.fill room).flight with
        | nil =>
          rw [hflight] at hpoll
          cases hpoll
        | cons doc others =>
          obtain ⟨p₁, rest₁, r₁, hpoll', hcase⟩ := poll_cons h doc.1 doc.2 others (s.fill room).run
          rw [hflight, hpoll'] at hpoll
          cases hpoll
          exact (hcase.resolve_left (by simp [hp])).2
      obtain ⟨-, hmoves⟩ := stepAll_precedes h (s.fill room).flight (s.fill room).run
      have hmoved := hmoves ⟨source', p', t', List.mem_append_left _ hmem', hdue', ht'⟩
      rw [← hall, hpoll] at hmoved
      have hlift := hmoved.lift (· ++ tasks (s.fill room).pending)
        fun _ _ hts => onePrecedes_append hts _
      rw [State.course, tasks, tasks, List.map_append, List.map_append]
      exact hlift

def State.Empties (h : Host World) (room : Nat) (s : State) : Prop :=
  ∃ enough s', s'.course.docs = [] ∧ Reaches h s.course s'.course ∧
    ∀ rounds ≥ enough, work h room rounds s = s'

theorem Round.empties (hround : Round h room s s') (hs' : s'.Empties h room) :
    s.Empties h room := by
  obtain ⟨enough, last, hlast, hreach, hwork⟩ := hs'
  refine ⟨enough + 1, last, hlast, hround.reaches.trans hreach, fun rounds hrounds => ?_⟩
  obtain ⟨rounds, rfl⟩ : ∃ n, rounds = n + 1 := ⟨rounds - 1, by omega⟩
  rw [hround.work_eq]
  exact hwork rounds (by omega)

theorem empties (h : Host World) (hroom : 0 < room) (s : State) : s.Empties h room := by
  generalize hlength : s.course.docs.length = n
  induction n generalizing s with
  | zero =>
    have hnil := List.length_eq_zero_iff.1 hlength
    exact ⟨0, s, hnil, .refl, fun rounds _ => work_of_empty h room hnil rounds⟩
  | succ n ih =>
    have hexists : ∀ s : State, s.course.docs.length = n + 1 → ∃ s', Round h room s s' := by
      intro s hs
      refine exists_round h hroom fun hnil => ?_
      rw [hnil] at hs
      cases hs
    -- Between two documents, the steps of tasks carry the induction.
    have hdue : ∀ s : State, s.course.docs.length = n + 1 → AnyDue s.flight s.run.now →
        s.Empties h room := by
      intro s hs hany
      have hacc : Acc (TransGen (Task.OnePrecedes h.Allows)) (tasks s.course.docs) :=
        (Task.acc_onePrecedes fun t _ => Task.acc t).transGen
      generalize htasks : tasks s.course.docs = ts at hacc
      induction hacc generalizing s with
      | intro ts _ ihacc =>
        subst htasks
        obtain ⟨s₁, hround⟩ := hexists s hs
        rcases hround.progress with hshort | ⟨hsame, hany₁, hmoves⟩
        · exact hround.empties (ih s₁ (by omega))
        · exact hround.empties (ihacc _ (hmoves hany) s₁ (by omega) hany₁ rfl)
    obtain ⟨s₁, hround⟩ := hexists s hlength
    rcases hround.progress with hshort | ⟨hsame, hany₁, -⟩
    · exact hround.empties (ih s₁ (by omega))
    · exact hround.empties (hdue s₁ (by omega) hany₁)

theorem reaches_work (h : Host World) (hroom : 0 < room) (rounds : Nat) (s : State) :
    Reaches h s.course (work h room rounds s).course := by
  induction rounds generalizing s with
  | zero => exact .refl
  | succ rounds ih =>
    by_cases hs : s.course.docs = []
    · rw [work_of_empty h room hs]
      exact .refl
    · obtain ⟨s', hround⟩ := exists_round h hroom hs
      rw [hround.work_eq]
      exact hround.reaches.trans (ih s')

def idle (plans : List (Source × Plan)) : Flight := plans.map fun doc => (doc.1, .idle doc.2)

/-- Renders and then writes one document after the other. -/
def inTurn (h : Host World) (rounds : Nat) : List (Source × Plan) → Desk → Run World → Course
  | [], d, r => ⟨[], d, r⟩
  | (source, p) :: rest, d, r =>
    match Schedule.run h rounds p r with
    | (.text t, r) =>
      let (d, r) := d.deliver source (.ok t) r
      inTurn h rounds rest d r
    | (.halted why, r) =>
      let (d, r) := d.deliver source (.error why) r
      inTurn h rounds rest d r
    | (.unfinished, r) => ⟨idle ((source, p) :: rest), d, r⟩

theorem reaches_finish (rounds : Nat) (source : Source) (strand : Strand) (rest : Flight) (d : Desk)
    (r : Run World) :
    ∃ strand', Reaches h ⟨(source, .under strand) :: rest, d, r⟩
        ⟨(source, .under strand') :: rest, d, (Schedule.finish h rounds strand r).2⟩ ∧
      Schedule.outcome strand' = (Schedule.finish h rounds strand r).1 := by
  induction rounds generalizing strand r with
  | zero =>
    rw [Schedule.finish_zero]
    exact ⟨strand, .refl, rfl⟩
  | succ rounds ih =>
    rw [Schedule.finish_succ]
    cases Schedule.due strand with
    | none => exact ⟨strand, .refl, rfl⟩
    | some t =>
      obtain ⟨strand', hreach, hout⟩ := ih (Schedule.resume h strand { r with now := t }).1
        (Schedule.resume h strand { r with now := t }).2
      refine ⟨strand', .head (.wait _ d r t) (.head ?_ hreach), hout⟩
      exact .go [] rest source (.under strand) d { r with now := t }

theorem reaches_run {rounds : Nat} {source : Source} {p : Plan} {r r' : Run World}
    {o : Except Halt Text} {out : Schedule.Outcome}
    (hrun : Schedule.run h rounds p r = (out, r'))
    (ho : ∀ strand, Schedule.outcome strand = out → (Progress.under strand).outcome? = some o)
    (rest : Flight) (d : Desk) :
    Reaches h ⟨(source, .idle p) :: rest, d, r⟩
      ⟨rest, (d.deliver source o r').1, (d.deliver source o r').2⟩ := by
  obtain ⟨strand, hreach, hout⟩ := reaches_finish (h := h) rounds source (Schedule.start h p r).1
    rest d (Schedule.start h p r).2
  have hfinish : Schedule.finish h rounds (Schedule.start h p r).1 (Schedule.start h p r).2 =
      (out, r') := hrun
  rw [hfinish] at hreach hout
  have hstart : Course.Step h ⟨(source, .idle p) :: rest, d, r⟩
      ⟨(source, .under (Schedule.start h p r).1) :: rest, d, (Schedule.start h p r).2⟩ :=
    .go [] rest source (.idle p) d r
  exact .head hstart (hreach.tail (.deliver rest d r' (ho strand hout)))

theorem exists_inTurn (h : Host World) (plans : List (Source × Plan)) (d : Desk) (r : Run World) :
    ∃ enough c, c.docs = [] ∧ Reaches h ⟨idle plans, d, r⟩ c ∧
      ∀ rounds ≥ enough, inTurn h rounds plans d r = c := by
  induction plans generalizing d r with
  | nil => exact ⟨0, ⟨[], d, r⟩, rfl, .refl, fun _ _ => rfl⟩
  | cons doc rest ih =>
    obtain ⟨source, p⟩ := doc
    obtain ⟨n, hn⟩ := Schedule.run_ends h p r
    have hfinal : ∀ rounds ≥ n, Schedule.run h rounds p r = Schedule.run h n p r :=
      fun rounds hrounds => Schedule.run_of_le hrounds hn
    rcases hrun : Schedule.run h n p r with ⟨out, r'⟩
    -- However the first document ends, the others are worked on from what it has left.
    have hdelivered : ∀ o : Except Halt Text,
        (∀ strand, Schedule.outcome strand = out → (Progress.under strand).outcome? = some o) →
        (∀ rounds ≥ n, inTurn h rounds ((source, p) :: rest) d r =
          inTurn h rounds rest (d.deliver source o r').1 (d.deliver source o r').2) →
        ∃ enough c, c.docs = [] ∧ Reaches h ⟨idle ((source, p) :: rest), d, r⟩ c ∧
          ∀ rounds ≥ enough, inTurn h rounds ((source, p) :: rest) d r = c := by
      intro o ho hnext
      obtain ⟨enough, c, hend, hreach, hc⟩ :=
        ih (d.deliver source o r').1 (d.deliver source o r').2
      refine ⟨max n enough, c, hend, (reaches_run hrun ho _ d).trans hreach,
        fun rounds hrounds => ?_⟩
      rw [hnext rounds (by omega)]
      exact hc rounds (by omega)
    cases out with
    | text t =>
      refine hdelivered (.ok t) ?_ fun rounds hrounds => ?_
      · rintro (_ | _ | _ | _) hstrand <;> cases hstrand
        rfl
      · rw [inTurn, hfinal rounds hrounds, hrun]
    | halted why =>
      refine hdelivered (.error why) ?_ fun rounds hrounds => ?_
      · rintro (_ | _ | _ | _) hstrand <;> cases hstrand
        rfl
      · rw [inTurn, hfinal rounds hrounds, hrun]
    | unfinished =>
      rw [hrun] at hn
      exact absurd rfl hn

end Inlay.Batch
