import Inlay.Proofs.Batch.Ending
import Inlay.Proofs.Rendering.Diagnostics

/-!
Batches whose renderings say what they do, and batches whose renderings do not. On the same host
both go through the same rounds: whenever the one writes a document, so does the other, and to the
same file.
-/
namespace Inlay.Batch

open Output

variable {h : Host World} {r r' : Run World}

theorem hush_document {opts opts' : Options} (h : opts.detectCycles = opts'.detectCycles)
    (depth : Nat) (place : Place) (source : Source) :
    (document opts depth place source).hush = (document opts' depth place source).hush := by
  cases source with
  | stdin =>
    refine congrArg (Plan.ask place .readStdin) (funext fun answer => ?_)
    cases answer with
    | ok text => exact Plan.hush_render_eq h depth place .stdin text
    | error cause => rfl
  | file path =>
    refine congrArg (Plan.ask place (.read path)) (funext fun answer => ?_)
    cases answer with
    | ok text => exact Plan.hush_render_eq h depth place (.file path) text
    | error cause => rfl

namespace Progress

/-- A document without the notices that are still to come. -/
def hush : Progress → Progress
  | idle p => idle p.hush
  | under s => under s.hush

@[simp] theorem outcome?_hush (p : Progress) : p.hush.outcome? = p.outcome? := by
  rcases p with _ | _ | _ | _ | _ <;> rfl

@[simp] theorem due_hush (p : Progress) : p.hush.due = p.due := by
  cases p with
  | idle p => rfl
  | under s => exact s.due_hush

theorem step_akin {p p' : Progress} (hp : p.hush = p'.hush) (hr : r.Alike r') :
    (p.step h r).1.hush = (p'.step h r').1.hush ∧ (p.step h r).2.Alike (p'.step h r').2 := by
  have hunder : ∀ {x y : Strand × Run World}, Schedule.Akin x y →
      (under x.1).hush = (under y.1).hush ∧ x.2.Alike y.2 :=
    fun hxy => ⟨congrArg under hxy.strand, hxy.run⟩
  rcases p with p | s <;> rcases p' with p' | s'
  · exact hunder (Schedule.start_akin h (idle.inj hp) hr)
  · cases hp
  · cases hp
  · exact hunder (Schedule.resume_akin h (under.inj hp) hr)

end Progress

/-- Documents without the notices that are still to come. -/
def hushed (flight : Flight) : Flight := flight.map fun doc => (doc.1, doc.2.hush)

theorem exists_of_hushed_cons {source : Source} {p : Progress} {rest flight : Flight}
    (hflight : hushed ((source, p) :: rest) = hushed flight) :
    ∃ p' rest', flight = (source, p') :: rest' ∧ p.hush = p'.hush ∧ hushed rest = hushed rest' := by
  obtain ⟨⟨source', p'⟩, rest', rfl, hdoc, hrest⟩ := List.map_eq_cons_iff.1 hflight.symm
  obtain ⟨rfl, hp⟩ := Prod.mk.inj hdoc
  exact ⟨p', rest', rfl, hp.symm, hrest.symm⟩

theorem stepAll_akin {flight flight' : Flight} (hflight : hushed flight = hushed flight')
    (hr : r.Alike r') :
    hushed (stepAll h flight r).1 = hushed (stepAll h flight' r').1 ∧
      (stepAll h flight r).2.Alike (stepAll h flight' r').2 := by
  induction flight generalizing flight' r r' with
  | nil =>
    obtain rfl : flight' = [] := List.map_eq_nil_iff.1 hflight.symm
    exact ⟨rfl, hr⟩
  | cons doc rest ih =>
    obtain ⟨source, p⟩ := doc
    obtain ⟨p', rest', rfl, hp, hrest⟩ := exists_of_hushed_cons hflight
    obtain ⟨hstep, hstepped⟩ := Progress.step_akin (h := h) hp hr
    obtain ⟨hothers, hall⟩ := ih hrest hstepped
    exact ⟨congrArg₂ (fun q others => (source, q) :: others) hstep hothers, hall⟩

theorem Progress.outcome?_eq {p p' : Progress} (hp : p.hush = p'.hush) :
    p.outcome? = p'.outcome? := by
  rw [← p.outcome?_hush, ← p'.outcome?_hush, hp]

theorem poll_akin {flight flight' : Flight} (hflight : hushed flight = hushed flight')
    (hr : r.Alike r') :
    hushed (poll h flight r).1 = hushed (poll h flight' r').1 ∧
      (poll h flight r).2.Alike (poll h flight' r').2 := by
  rcases flight with _ | ⟨⟨source, p⟩, rest⟩
  · obtain rfl : flight' = [] := List.map_eq_nil_iff.1 hflight.symm
    exact ⟨rfl, hr⟩
  · obtain ⟨p', rest', rfl, hp, hrest⟩ := exists_of_hushed_cons hflight
    obtain ⟨hstep, hstepped⟩ := Progress.step_akin (h := h) hp hr
    rw [poll, poll, Progress.outcome?_eq hp]
    dsimp only
    rw [Progress.outcome?_eq hstep]
    split
    · exact ⟨hflight, hr⟩
    · split
      · exact ⟨congrArg₂ (fun q others => (source, q) :: others) hstep hrest, hstepped⟩
      · exact stepAll_akin hflight hr

theorem nextDue_hushed (flight : Flight) : nextDue (hushed flight) = nextDue flight := by
  simp [nextDue, hushed, Function.comp_def]

structure State.Akin (s s' : State) : Prop where
  flight : hushed s.flight = hushed s'.flight
  pending : hushed s.pending = hushed s'.pending
  desk : s.desk = s'.desk
  run : s.run.Alike s'.run

variable {room : Nat} {s s' t : State}

theorem State.Akin.fill (hs : s.Akin s') (room : Nat) : (s.fill room).Akin (s'.fill room) := by
  have hlength : s.flight.length = s'.flight.length := by
    simpa [hushed] using congrArg List.length hs.flight
  constructor
  · simp only [State.fill, hushed, List.map_append, List.map_take, hlength]
    exact congrArg₂ (fun flight pending => flight ++ pending.take (room - s'.flight.length))
      hs.flight hs.pending
  · simp only [State.fill, hushed, List.map_drop, hlength]
    exact congrArg (·.drop (room - s'.flight.length)) hs.pending
  · exact hs.desk
  · exact hs.run

theorem State.Akin.docs_eq_nil (hs : s.Akin s') (h : s.course.docs = []) :
    s'.course.docs = [] := by
  obtain ⟨hflight, hpending⟩ := List.append_eq_nil_iff.1 h
  have hflight' := hs.flight
  have hpending' := hs.pending
  rw [hflight] at hflight'
  rw [hpending] at hpending'
  exact List.append_eq_nil_iff.2 ⟨List.map_eq_nil_iff.1 hflight'.symm,
    List.map_eq_nil_iff.1 hpending'.symm⟩

theorem deliver_alike (d : Desk) (source : Source) (outcome : Except Halt Text)
    (hr : r.Alike r') :
    (d.deliver source outcome r).1 = (d.deliver source outcome r').1 ∧
      (d.deliver source outcome r).2.Alike (d.deliver source outcome r').2 := by
  obtain ⟨hdesk, hposted, -⟩ := deliver_eq d source outcome r
  obtain ⟨hdesk', hposted', -⟩ := deliver_eq d source outcome r'
  obtain ⟨hvalue, hruns⟩ := (plain_post d.router source outcome).alike hr
  obtain ⟨hverdict, hrouter⟩ := Prod.mk.inj hvalue
  refine ⟨?_, hposted.trans (hruns.trans hposted'.symm)⟩
  rw [hdesk, hdesk', hverdict, hrouter]

theorem Round.exists_akin (hs : s.Akin s') (hround : Round h room s t) :
    ∃ t', Round h room s' t' ∧ t.Akin t' := by
  obtain ⟨hflight, hpending, hdesk, hrun⟩ := hs.fill room
  have hpolled := poll_akin (h := h) hflight hrun
  cases hround with
  | @deliver source p rest r₁ outcome hpoll hp =>
    rw [hpoll] at hpolled
    obtain ⟨hdocs, hruns⟩ := hpolled
    -- The document at the front has ended in one batch just where it has in the other.
    obtain ⟨p', rest', hdocs', hp', hrest⟩ := exists_of_hushed_cons hdocs
    rw [Progress.outcome?_eq hp'] at hp
    obtain ⟨hdelivered, hlast⟩ := deliver_alike (s.fill room).desk source outcome hruns
    rw [hdesk] at hdelivered hlast
    refine ⟨_, .deliver (Prod.ext hdocs' rfl) hp, hrest, hpending, ?_, ?_⟩
    · dsimp only
      rw [hdesk]
      exact hdelivered
    · dsimp only
      rw [hdesk]
      exact hlast
  | @wait source p rest r₁ t hpoll hp ht =>
    rw [hpoll] at hpolled
    obtain ⟨hdocs, hruns⟩ := hpolled
    obtain ⟨p', rest', hdocs', hp', hrest⟩ := exists_of_hushed_cons hdocs
    rw [Progress.outcome?_eq hp'] at hp
    rw [← nextDue_hushed, hdocs, nextDue_hushed, hdocs'] at ht
    rw [hdocs'] at hdocs
    exact ⟨_, .wait (Prod.ext hdocs' rfl) hp ht, hdocs, hpending, hdesk, hruns.at_ t⟩

theorem work_akin (h : Host World) (hroom : 0 < room) (rounds : Nat) (hs : s.Akin s') :
    (work h room rounds s).Akin (work h room rounds s') := by
  induction rounds generalizing s s' with
  | zero => exact hs
  | succ rounds ih =>
    -- The two have the same documents left, so that they go through a round both or neither.
    by_cases hdocs : s.course.docs = []
    · rw [work_of_empty h room hdocs, work_of_empty h room (hs.docs_eq_nil hdocs)]
      exact hs
    · obtain ⟨t, hround⟩ := exists_round h hroom hdocs
      obtain ⟨t', hround', ht⟩ := hround.exists_akin hs
      rw [hround.work_eq, hround'.work_eq]
      exact ih ht

theorem hushed_documents {opts opts' : Options} (h : opts.detectCycles = opts'.detectCycles)
    (depth : Nat) (sources : List Source) :
    hushed (documents opts depth sources) = hushed (documents opts' depth sources) := by
  simp only [hushed, documents, List.mapIdx_eq_zipIdx_map, List.map_map]
  refine List.map_congr_left fun doc _ => ?_
  simp only [Function.comp_apply, Progress.hush, hush_document h]

theorem process_alike (h : Host World) {opts opts' : Options}
    (hopts : opts.detectCycles = opts'.detectCycles) (maxConcurrent depth rounds : Nat)
    (target : Target) (sources : List Source) (hr : r.Alike r') :
    (process h ⟨opts, maxConcurrent, depth, rounds⟩ target sources r).1 =
        (process h ⟨opts', maxConcurrent, depth, rounds⟩ target sources r').1 ∧
      (process h ⟨opts, maxConcurrent, depth, rounds⟩ target sources r).2.Alike
        (process h ⟨opts', maxConcurrent, depth, rounds⟩ target sources r').2 := by
  have hroom : 0 < Batch.room maxConcurrent :=
    Nat.lt_of_lt_of_le Nat.one_pos (Nat.le_max_left 1 _)
  have hstart : State.Akin
      { pending := documents opts depth sources
        desk := { router := { target := target } }
        run := r }
      { pending := documents opts' depth sources
        desk := { router := { target := target } }
        run := r' } := ⟨rfl, hushed_documents hopts depth sources, rfl, hr⟩
  obtain ⟨-, -, hdesk, hruns⟩ := work_akin h hroom rounds hstart
  rw [process, process]
  dsimp only
  rw [hdesk]
  exact ⟨rfl, (Run.alike_say _ _ _).trans (hruns.trans (Run.alike_say _ _ _).symm)⟩

end Inlay.Batch
