import Inlay.Proofs.Batch.Collision

namespace Inlay.Batch

/-- What becomes of a document: it is started, and later its verdict goes to the report. -/
inductive Milestone where
  | started (source : Source)
  | settled (entry : Source × Verdict)

def Milestone.started? : Milestone → Option Source
  | started source => some source
  | settled _ => none

def Milestone.settled? : Milestone → Option (Source × Verdict)
  | started _ => none
  | settled entry => some entry

/-- The milestones of a batch so far, the earliest one first. -/
abbrev Journal := List Milestone

namespace Journal

/-- The documents that have been started, in the order in which they were. -/
def started (ms : Journal) : List Source := ms.filterMap Milestone.started?

/-- The documents that have been settled, in the order in which they were. -/
def settled (ms : Journal) : Ledger := ms.filterMap Milestone.settled?

variable (ms : Journal)

@[simp] theorem started_append_started (source : Source) :
    started (ms ++ [.started source]) = started ms ++ [source] := List.filterMap_append

@[simp] theorem started_append_settled (entry : Source × Verdict) :
    started (ms ++ [.settled entry]) = started ms := by
  simp [started, Milestone.started?]

@[simp] theorem settled_append_started (source : Source) :
    settled (ms ++ [.started source]) = settled ms := by
  simp [settled, Milestone.settled?]

@[simp] theorem settled_append_settled (entry : Source × Verdict) :
    settled (ms ++ [.settled entry]) = settled ms ++ [entry] := List.filterMap_append

/--
Documents are started in the order of the sources and settled in the order in which they are
started, and there is room for those that are still to be settled.
-/
structure Orderly (room : Nat) (sources : List Source) (ms : Journal) : Prop where
  started_prefix : ms.started <+: sources
  settled_prefix : ms.settled.map Prod.fst <+: ms.started
  held : ms.started.length ≤ ms.settled.length + room

variable {ms}

theorem lt_length_settled {room i : Nat} {sources : List Source} {source : Source}
    {before : Journal} (h : Orderly room sources (before ++ [.started source]))
    (hbefore : before.started.length = i + room) : i < before.settled.length := by
  have hheld := h.held
  rw [started_append_started, settled_append_started, List.length_append, hbefore,
    List.length_singleton] at hheld
  omega

end Journal

theorem Report.enter_concat (report : Report) (ledger : Ledger) (entry : Source × Verdict) :
    report.enter (ledger ++ [entry]) = (report.enter ledger).enter [entry] := by
  simp only [enter, Ledger.texts_append, Ledger.failures_append, List.length_append, Nat.add_assoc,
    List.append_assoc]

namespace State

variable {h : Host World} {room : Nat} {sources : List Source} {ms : Journal} {s s' : State}

def underway (docs : List (Source × Strand)) : Flight := docs.map fun doc => (doc.1, .under doc.2)

theorem underway_append (docs docs' : List (Source × Strand)) :
    underway (docs ++ docs') = underway docs ++ underway docs' := List.map_append

/--
One thing that can happen to the window next, and the milestone that it may be. More can happen than
does when the batch is at work: there is no order in which documents that have been started go on,
and the clock may move to any time.
-/
inductive Step (h : Host World) (room : Nat) : State → Option Milestone → State → Prop
  | fill (s : State) : Step h room s none (s.fill room)
  /-- The first document of the window that has not been started is. -/
  | start (begun : List (Source × Strand)) (source : Source) (p : Plan) (waiting pending : Flight)
      (desk : Desk) (r : Run World) :
    Step h room ⟨underway begun ++ (source, .idle p) :: waiting, pending, desk, r⟩
      (some (.started source))
      ⟨underway begun ++ (source, ((Progress.idle p).step h r).1) :: waiting, pending, desk,
        ((Progress.idle p).step h r).2⟩
  /-- Some document that has been started goes on. -/
  | resume (before : Flight) (source : Source) (strand : Strand) (after pending : Flight)
      (desk : Desk) (r : Run World) :
    Step h room ⟨before ++ (source, .under strand) :: after, pending, desk, r⟩ none
      ⟨before ++ (source, ((Progress.under strand).step h r).1) :: after, pending, desk,
        ((Progress.under strand).step h r).2⟩
  | wait (s : State) (t : Nat) : Step h room s none { s with run := { s.run with now := t } }
  /-- The first document of the window is written, or the reason is told why it is not. -/
  | settle {source : Source} {p : Progress} {outcome : Except Halt Text} (rest pending : Flight)
      (desk : Desk) (r : Run World) (hp : p.outcome? = some outcome) :
    Step h room ⟨(source, p) :: rest, pending, desk, r⟩
      (some (.settled (source, (post desk.router source outcome r).1)))
      ⟨rest, pending, (desk.deliver source outcome r).1, (desk.deliver source outcome r).2⟩

/-- From the first moment the window can come to the second, with these milestones on the way. -/
inductive Path (h : Host World) (room : Nat) (s : State) : Journal → State → Prop
  | refl : Path h room s [] s
  | tail {ms : Journal} {m : Option Milestone} {s' s'' : State} (hpath : Path h room s ms s')
      (hstep : Step h room s' m s'') : Path h room s (ms ++ m.toList) s''

theorem Path.trans {ms' : Journal} {s'' : State} (hpath : Path h room s ms s')
    (hpath' : Path h room s' ms' s'') : Path h room s (ms ++ ms') s'' := by
  induction hpath' with
  | refl => rwa [List.append_nil]
  | tail _ hstep ih =>
    rw [← List.append_assoc]
    exact ih.tail hstep

theorem Step.path {m : Option Milestone} (hstep : Step h room s m s') :
    Path h room s m.toList s' := Path.refl.tail hstep

theorem Path.exists_of_prefix {before : Journal} (hpath : Path h room s ms s')
    (hbefore : before <+: ms) : ∃ moment, Path h room s before moment := by
  induction hpath with
  | refl =>
    obtain rfl := List.prefix_nil.1 hbefore
    exact ⟨s, .refl⟩
  | @tail ms m s' s'' hpath hstep ih =>
    cases m with
    | none => exact ih (by simpa using hbefore)
    | some m =>
      rcases List.prefix_concat_iff.1 hbefore with rfl | hbefore
      · exact ⟨s'', hpath.tail hstep⟩
      · exact ih hbefore

/--
The window has documents that have been started, then others; these come between the documents that
are settled and the ones that are still to come, in the order of the sources.
-/
structure Arranged (room : Nat) (sources : List Source) (ms : Journal)
    (begun : List (Source × Strand)) (waiting pending : List (Source × Plan)) (s : State) :
    Prop where
  flight_eq : s.flight = underway begun ++ idle waiting
  pending_eq : s.pending = idle pending
  started_eq : ms.started = ms.settled.map Prod.fst ++ begun.map Prod.fst
  sources_eq : sources = ms.started ++ (waiting ++ pending).map Prod.fst
  held : begun.length + waiting.length ≤ room
  report_eq : s.desk.report = Report.enter {} ms.settled

theorem under_not_mem_idle (waiting : List (Source × Plan)) {source : Source} {strand : Strand} :
    (source, Progress.under strand) ∉ idle waiting := by
  intro hmem
  obtain ⟨doc, -, hdoc⟩ := List.mem_map.1 hmem
  cases (Prod.mk.inj hdoc).2

theorem eq_of_idle_mem {as begun : List (Source × Strand)} {waiting : List (Source × Plan)}
    {source : Source} {p : Plan} {rest : Flight}
    (heq : underway as ++ (source, .idle p) :: rest = underway begun ++ idle waiting) :
    as = begun ∧ ∃ later, waiting = (source, p) :: later ∧ rest = idle later := by
  induction as generalizing begun with
  | nil =>
    cases begun with
    | nil =>
      cases waiting with
      | nil => cases heq
      | cons doc later =>
        cases heq
        exact ⟨rfl, later, rfl, rfl⟩
    | cons doc begun => cases heq
  | cons doc as ih =>
    cases begun with
    | nil =>
      -- What is under way is not among what waits.
      have hmem : (doc.1, Progress.under doc.2) ∈ underway [] ++ idle waiting := by
        rw [← heq]
        exact List.mem_cons_self
      exact absurd hmem (under_not_mem_idle waiting)
    | cons doc' begun =>
      obtain ⟨hhead, htail⟩ := List.cons.inj heq
      obtain ⟨rfl, hlater⟩ := ih htail
      have hdoc : doc = doc' := by
        obtain ⟨hsource, hstrand⟩ := Prod.mk.inj hhead
        exact Prod.ext hsource (Progress.under.inj hstrand)
      exact ⟨by rw [hdoc], hlater⟩

theorem exists_of_under_mem {before after : Flight} {begun : List (Source × Strand)}
    {waiting : List (Source × Plan)} {source : Source} {strand : Strand}
    (heq : before ++ (source, .under strand) :: after = underway begun ++ idle waiting) :
    ∃ front back, begun = front ++ (source, strand) :: back ∧ before = underway front ∧
      after = underway back ++ idle waiting := by
  induction begun generalizing before with
  | nil =>
    have hmem : (source, Progress.under strand) ∈ underway [] ++ idle waiting := by simp [← heq]
    exact absurd hmem (under_not_mem_idle waiting)
  | cons doc begun ih =>
    cases before with
    | nil =>
      cases heq
      exact ⟨[], begun, rfl, rfl, rfl⟩
    | cons doc' before =>
      obtain ⟨rfl, htail⟩ := List.cons.inj heq
      obtain ⟨front, back, rfl, rfl, hafter⟩ := ih htail
      exact ⟨doc :: front, back, rfl, rfl, hafter⟩

variable {begun : List (Source × Strand)} {waiting pending : List (Source × Plan)}

theorem Step.arranged {m : Option Milestone} (hstep : Step h room s m s')
    (hs : s.Arranged room sources ms begun waiting pending) :
    ∃ begun' waiting' pending',
      s'.Arranged room sources (ms ++ m.toList) begun' waiting' pending' := by
  obtain ⟨hflight, hpending, hstarted, hsources, hheld, hreport⟩ := hs
  cases hstep with
  | fill =>
    have hlength : s.flight.length = begun.length + waiting.length := by
      simp [hflight, underway, idle]
    refine ⟨begun, waiting ++ pending.take (room - s.flight.length),
      pending.drop (room - s.flight.length), ?_, ?_, ?_, ?_, ?_, ?_⟩
    · simp [State.fill, hflight, hpending, idle]
    · simp [State.fill, hpending, idle]
    · simpa using hstarted
    · simpa using hsources
    · simp only [List.length_append, List.length_take]
      omega
    · simpa [State.fill] using hreport
  | start as source p later later' desk r =>
    obtain ⟨rfl, waiting, rfl, rfl⟩ := eq_of_idle_mem hflight
    refine ⟨as ++ [(source, (Schedule.start h p r).1)], waiting, pending, ?_, hpending, ?_, ?_, ?_,
      ?_⟩
    · rw [underway_append, List.append_assoc]
      rfl
    · simp [hstarted]
    · simp [hsources]
    · simp only [List.length_append, List.length_cons, List.length_nil] at hheld ⊢
      omega
    · simpa using hreport
  | resume before source strand after later' desk r =>
    obtain ⟨front, back, rfl, rfl, rfl⟩ := exists_of_under_mem hflight
    refine ⟨front ++ (source, (Schedule.resume h strand r).1) :: back, waiting, pending, ?_,
      hpending, ?_, ?_, ?_, ?_⟩
    · rw [underway_append, List.append_assoc]
      rfl
    · simpa using hstarted
    · simpa using hsources
    · simpa using hheld
    · simpa using hreport
  | wait => exact ⟨begun, waiting, pending, hflight, hpending, by simpa using hstarted,
      by simpa using hsources, hheld, by simpa using hreport⟩
  | @settle source p outcome rest later' desk r hp =>
    -- A document with an outcome has been started, so that it is the first of those.
    cases begun with
    | nil =>
      cases waiting with
      | nil => cases hflight
      | cons doc later =>
        cases hflight
        cases hp
    | cons doc begun =>
      cases hflight
      refine ⟨begun, waiting, pending, rfl, hpending, ?_, ?_, ?_, ?_⟩
      · simp [hstarted]
      · simpa using hsources
      · simp only [List.length_cons] at hheld
        omega
      · obtain ⟨hdesk, -⟩ := deliver_eq desk doc.1 outcome r
        rw [hdesk, hreport, Option.toList_some, Journal.settled_append_settled,
          Report.enter_concat]

theorem Path.arranged (hpath : Path h room s ms s')
    (hs : s.Arranged room sources [] begun waiting pending) :
    ∃ begun' waiting' pending', s'.Arranged room sources ms begun' waiting' pending' := by
  induction hpath with
  | refl => exact ⟨begun, waiting, pending, hs⟩
  | tail _ hstep ih =>
    obtain ⟨begun', waiting', pending', hs'⟩ := ih
    exact hstep.arranged hs'

theorem Arranged.orderly (hs : s.Arranged room sources ms begun waiting pending) :
    ms.Orderly room sources where
  started_prefix := ⟨_, hs.sources_eq.symm⟩
  settled_prefix := ⟨_, hs.started_eq.symm⟩
  held := by
    have hheld := hs.held
    rw [hs.started_eq, List.length_append, List.length_map, List.length_map]
    omega

theorem Arranged.settled_eq (hs : s.Arranged room sources ms begun waiting pending)
    (hend : s.course.docs = []) : ms.settled.map Prod.fst = sources := by
  obtain ⟨hflight, hpending⟩ := List.append_eq_nil_iff.1 hend
  rw [hs.flight_eq] at hflight
  rw [hs.pending_eq] at hpending
  obtain ⟨hbegun, hwaiting⟩ := List.append_eq_nil_iff.1 hflight
  rw [hs.sources_eq, hs.started_eq, List.map_eq_nil_iff.1 hbegun, List.map_eq_nil_iff.1 hwaiting,
    List.map_eq_nil_iff.1 hpending]
  simp

theorem exists_step (begun : List (Source × Strand)) (source : Source) (p : Progress)
    (rest pending : Flight) (desk : Desk) (r : Run World) :
    ∃ m, Step h room ⟨underway begun ++ (source, p) :: rest, pending, desk, r⟩ m
      ⟨underway begun ++ (source, (p.step h r).1) :: rest, pending, desk, (p.step h r).2⟩ := by
  cases p with
  | idle p => exact ⟨_, .start begun source p rest pending desk r⟩
  | under strand => exact ⟨_, .resume (underway begun) source strand rest pending desk r⟩

theorem exists_path_stepAll (begun : List (Source × Strand)) (flight pending : Flight) (desk : Desk)
    (r : Run World) :
    ∃ ms, Path h room ⟨underway begun ++ flight, pending, desk, r⟩ ms
      ⟨underway begun ++ (stepAll h flight r).1, pending, desk, (stepAll h flight r).2⟩ := by
  induction flight generalizing begun r with
  | nil => exact ⟨[], .refl⟩
  | cons doc rest ih =>
    obtain ⟨source, p⟩ := doc
    obtain ⟨m, hstep⟩ := exists_step begun source p rest pending desk r
    obtain ⟨strand, hstrand⟩ : ∃ strand, (p.step h r).1 = .under strand := by
      cases p <;> exact ⟨_, rfl⟩
    -- The document now stands with those before it, so that the next one may be started.
    obtain ⟨ms, hpath⟩ := ih (begun ++ [(source, strand)]) (p.step h r).2
    rw [underway_append, List.append_assoc, List.append_assoc] at hpath
    rw [stepAll]
    dsimp only
    rw [hstrand] at hstep ⊢
    exact ⟨_, hstep.path.trans hpath⟩

theorem exists_path_poll (h : Host World) (room : Nat) (flight pending : Flight) (desk : Desk)
    (r : Run World) :
    ∃ ms, Path h room ⟨flight, pending, desk, r⟩ ms
      ⟨(poll h flight r).1, pending, desk, (poll h flight r).2⟩ := by
  cases flight with
  | nil => exact ⟨[], .refl⟩
  | cons doc rest =>
    obtain ⟨source, p⟩ := doc
    rw [poll]
    split
    · exact ⟨[], .refl⟩
    · dsimp only
      split
      · obtain ⟨m, hstep⟩ := exists_step [] source p rest pending desk r
        exact ⟨_, hstep.path⟩
      · exact exists_path_stepAll [] ((source, p) :: rest) pending desk r

end State

open State

variable {h : Host World} {s s' : State}

theorem Round.exists_path {room : Nat} (hround : Round h room s s') :
    ∃ ms, State.Path h room s ms s' := by
  have hfill := (State.Step.fill s : State.Step h room s none _).path
  obtain ⟨ms, hpolled⟩ := exists_path_poll h room (s.fill room).flight (s.fill room).pending
    (s.fill room).desk (s.fill room).run
  cases hround with
  | deliver hpoll hp =>
    rw [hpoll] at hpolled
    exact ⟨_, (hfill.trans hpolled).tail (.settle _ _ _ _ hp)⟩
  | @wait source p rest r t hpoll hp ht =>
    rw [hpoll] at hpolled
    exact ⟨_, (hfill.trans hpolled).tail (.wait _ t)⟩

theorem exists_path_work {room : Nat} (hroom : 0 < room) (s : State) :
    ∃ ms, State.Path h room s ms (work h room 1 s) := by
  by_cases hs : s.course.docs = []
  · rw [work_of_empty h room hs]
    exact ⟨[], .refl⟩
  · obtain ⟨s', hround⟩ := exists_round h hroom hs
    rw [hround.work_eq]
    exact hround.exists_path

theorem work_succ {room : Nat} (hroom : 0 < room) (rounds : Nat) (s : State) :
    work h room (rounds + 1) s = work h room 1 (work h room rounds s) := by
  induction rounds generalizing s with
  | zero => rfl
  | succ rounds ih =>
    by_cases hs : s.course.docs = []
    · rw [work_of_empty h room hs, work_of_empty h room hs, work_of_empty h room hs]
    · obtain ⟨s', hround⟩ := exists_round h hroom hs
      rw [hround.work_eq, hround.work_eq, ih s']

theorem exists_journal {room : Nat} (hroom : 0 < room) (s : State) :
    ∃ journal : Nat → Journal, ∀ rounds, journal rounds <+: journal (rounds + 1) ∧
      State.Path h room s (journal rounds) (work h room rounds s) := by
  have hround : ∀ rounds, ∃ ms, State.Path h room (work h room rounds s) ms
      (work h room (rounds + 1) s) := by
    intro rounds
    rw [work_succ hroom]
    exact exists_path_work hroom _
  choose ms hms using hround
  have hsucc : ∀ rounds, ((List.range (rounds + 1)).map ms).flatten =
      ((List.range rounds).map ms).flatten ++ ms rounds := by
    intro rounds
    simp [List.range_succ]
  refine ⟨fun rounds => ((List.range rounds).map ms).flatten, fun rounds => ⟨?_, ?_⟩⟩
  · exact ⟨ms rounds, (hsucc rounds).symm⟩
  · induction rounds with
    | zero => exact .refl
    | succ rounds ih =>
      dsimp only
      rw [hsucc]
      exact ih.trans (hms rounds)

variable {opts : Options} {depth maxConcurrent : Nat} {target : Output.Target}
  {sources : List Source} {r : Run World} {ms : Journal}

def State.initial (opts : Options) (depth : Nat) (target : Output.Target) (sources : List Source)
    (r : Run World) : State where
  pending := documents opts depth sources
  desk := { router := { target := target } }
  run := r

theorem arranged_initial (room : Nat) :
    (State.initial opts depth target sources r).Arranged room sources [] [] []
      (plans opts depth sources) where
  flight_eq := rfl
  pending_eq := documents_eq opts depth sources
  started_eq := rfl
  sources_eq := by
    have hsources : (documents opts depth sources).map Prod.fst = sources := map_fst_documents
    rw [documents_eq, idle, List.map_map] at hsources
    exact hsources.symm
  held := Nat.zero_le room
  report_eq := rfl

/--
The window of a batch is respected at every moment, whenever renderings end. Documents are started
in the order of the sources and settled in that order, and what is settled is what the report says.
Those that have been started and are not settled are never more than the window has room for, so
that the document which stands so far behind another is not started before the other is settled. The
work on a batch takes such a path, on which all documents are settled in the end.
-/
theorem process_window (h : Host World) (opts : Options) (depth maxConcurrent : Nat)
    (target : Output.Target) (sources : List Source) (r : Run World) :
    (∀ ms s, State.Path h (room maxConcurrent) (.initial opts depth target sources r) ms s →
      s.desk.report = Report.enter {} ms.settled ∧
      (∀ moment, moment <+: ms → Journal.Orderly (max 1 maxConcurrent) sources moment) ∧
      ∀ (before after : Journal) source i, ms = before ++ .started source :: after →
        before.started.length = i + max 1 maxConcurrent → i < before.settled.length) ∧
    ∃ journal : Nat → Journal,
      (∀ rounds, journal rounds <+: journal (rounds + 1) ∧ ∃ s,
        State.Path h (room maxConcurrent) (.initial opts depth target sources r)
          (journal rounds) s ∧
        (process h ⟨opts, maxConcurrent, depth, rounds⟩ target sources r).1 = s.desk ∧
        (process h ⟨opts, maxConcurrent, depth, rounds⟩ target sources r).2.host = s.run.host) ∧
      ∃ enough, ∀ rounds ≥ enough, (journal rounds).settled.map Prod.fst = sources := by
  have hroom : 0 < room maxConcurrent := Nat.lt_of_lt_of_le Nat.one_pos (Nat.le_max_left 1 _)
  constructor
  · intro ms s hpath
    have horderly : ∀ moment, moment <+: ms →
        Journal.Orderly (max 1 maxConcurrent) sources moment := by
      intro moment hmoment
      obtain ⟨s', hpath'⟩ := hpath.exists_of_prefix hmoment
      obtain ⟨begun, waiting, pending, hs'⟩ := hpath'.arranged (arranged_initial _)
      exact hs'.orderly
    obtain ⟨begun, waiting, pending, hs⟩ := hpath.arranged (arranged_initial _)
    refine ⟨hs.report_eq, horderly, fun before after source i hms hbefore => ?_⟩
    -- At the moment it is started, the document is in the window with all that are not settled.
    have hmoment : before ++ [.started source] <+: ms := ⟨after, by simp [hms]⟩
    exact Journal.lt_length_settled (horderly _ hmoment) hbefore
  · obtain ⟨journal, hjournal⟩ := exists_journal (h := h) hroom
      (.initial opts depth target sources r)
    obtain ⟨enough, last, hend, -, hwork⟩ :=
      empties h hroom (.initial opts depth target sources r)
    refine ⟨journal, fun rounds => ?_, enough, fun rounds hrounds => ?_⟩
    · obtain ⟨hgrows, hpath⟩ := hjournal rounds
      exact ⟨hgrows, _, hpath, rfl, rfl⟩
    · obtain ⟨-, hpath⟩ := hjournal rounds
      rw [hwork rounds hrounds] at hpath
      obtain ⟨begun, waiting, pending, hs⟩ := hpath.arranged (arranged_initial _)
      exact hs.settled_eq hend

/-- In a window for one document, the second one is started when the first one is settled. -/
theorem process_window_letters :
    ∃ ms : Journal, ms.started = [.file ['a'], .file ['b']] ∧
      ∀ (before after : Journal) source, ms = before ++ .started source :: after →
        before.started.length = 1 → 0 < before.settled.length := by
  obtain ⟨hpaths, journal, hrounds, enough, hend⟩ := process_window lettersLate {} 2 0 .stdout
    [.file ['a'], .file ['b']] ⟨{}, 0, []⟩
  obtain ⟨-, s, hpath, -⟩ := hrounds enough
  obtain ⟨-, horderly, hrefill⟩ := hpaths _ s hpath
  refine ⟨journal enough, ?_, fun before after source hms hbefore =>
    hrefill before after source 0 hms hbefore⟩
  obtain ⟨hstarted, hsettled, -⟩ := horderly _ (List.prefix_refl _)
  rw [hend enough le_rfl] at hsettled
  exact hstarted.eq_of_length_le hsettled.length_le

end Inlay.Batch
