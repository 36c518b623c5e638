import Inlay.Proofs.Plan.Wording

/-!
What notices change. Without them a plan makes the same calls at the same times, the host comes to
the same state and the run to the same end; the journal alone is shorter.
-/
namespace Inlay

variable {σ : Type}

namespace Plan

mutual

def hush : Plan → Plan
  | done t => done t
  | halt why => halt why
  | note _ _ rest => rest.hush
  | ask place c next => ask place c fun a => (next a).hush
  | join rule branches next => join rule (hushAll branches) fun ts => (next ts).hush

def hushAll : List Plan → List Plan
  | [] => []
  | p :: ps => p.hush :: hushAll ps

end

theorem hushAll_eq_map (ps : List Plan) : hushAll ps = ps.map hush := by
  induction ps with
  | nil => rfl
  | cons p ps ih => rw [hushAll, ih, List.map_cons]

theorem hush_join (rule : JoinRule) (branches : List Plan) (next : List Text → Plan) :
    (join rule branches next).hush = join rule (branches.map hush) fun ts => (next ts).hush := by
  rw [hush, hushAll_eq_map]

theorem hush_bind (p : Plan) (f : Text → Plan) :
    (p.bind f).hush = p.hush.bind fun t => (f t).hush := by
  induction p with
  | done | halt => rfl
  | note place n rest ih => exact ih
  | ask place c next ih => simp only [bind, hush, ih]
  | join rule branches next _ ih => simp only [bind, hush, ih]

theorem hush_notes (place : Place) (ns : List Notice) (p : Plan) :
    (notes place ns p).hush = p.hush := by
  induction ns with
  | nil => rfl
  | cons n ns ih => exact ih

end Plan

namespace Strand

mutual

/-- The strand without the notices that are still to come. -/
def hush : Strand → Strand
  | finished t => finished t
  | halted why => halted why
  | waiting due place c remarks rest => waiting due place c remarks rest.hush
  | joining rule strands next => joining rule (hushAll strands) fun ts => (next ts).hush

def hushAll : List Strand → List Strand
  | [] => []
  | s :: ss => s.hush :: hushAll ss

end

theorem hushAll_eq_map (ss : List Strand) : hushAll ss = ss.map hush := by
  induction ss with
  | nil => rfl
  | cons s ss ih => rw [hushAll, ih, List.map_cons]

theorem hush_joining (rule : JoinRule) (strands : List Strand) (next : List Text → Plan) :
    (joining rule strands next).hush =
      joining rule (strands.map hush) fun ts => (next ts).hush := by
  rw [hush, hushAll_eq_map]

@[simp] theorem outcome_hush (s : Strand) : Schedule.outcome s.hush = Schedule.outcome s := by
  cases s <;> rfl

@[simp] theorem due_hush (s : Strand) : Schedule.due s.hush = Schedule.due s := by
  induction s with
  | finished | halted | waiting => rfl
  | joining rule strands next ih =>
    rw [hush_joining, Schedule.due, Schedule.due]
    induction strands with
    | nil => rfl
    | cons s ss ihs =>
      rw [List.map_cons, Schedule.dueAll, Schedule.dueAll, ih s List.mem_cons_self,
        ihs fun s' hs' => ih s' (List.mem_cons_of_mem s hs')]

end Strand

/-- A call or the arrival of an answer, not something that is said. -/
def Event.isTraffic : Event → Bool
  | began .. | ended .. => true
  | noted .. | said _ => false

namespace Run

/-- What has passed between the run and its host, and when. -/
def traffic (r : Run σ) : List Event.Stamped := r.journal.filter (·.event.isTraffic)

theorem traffic_record (r : Run σ) (e : Event) :
    (r.record e).traffic = r.traffic ++ if e.isTraffic then [⟨r.now, e⟩] else [] := by
  cases he : e.isTraffic <;> simp [traffic, record, journal, he]

theorem calls_eq_of_traffic (r : Run σ) : r.calls = r.traffic.filterMap (·.event.call?) := by
  rw [calls, traffic, List.filterMap_filter]
  refine List.filterMap_congr fun e _ => ?_
  obtain ⟨time, _ | _ | _ | _⟩ := e <;> rfl

/-- The runs have come to the same state at the same time by the same traffic. -/
structure Alike (r r' : Run σ) : Prop where
  host : r.host = r'.host
  now : r.now = r'.now
  traffic : r.traffic = r'.traffic

namespace Alike

variable {r r' r'' : Run σ}

@[refl] theorem refl (r : Run σ) : Alike r r := ⟨rfl, rfl, rfl⟩

theorem symm (h : Alike r r') : Alike r' r := ⟨h.host.symm, h.now.symm, h.traffic.symm⟩

theorem trans (h : Alike r r') (h' : Alike r' r'') : Alike r r'' :=
  ⟨h.host.trans h'.host, h.now.trans h'.now, h.traffic.trans h'.traffic⟩

theorem calls (h : Alike r r') : r.calls = r'.calls := by
  rw [calls_eq_of_traffic, calls_eq_of_traffic, h.traffic]

theorem record (h : Alike r r') (e : Event) : Alike (r.record e) (r'.record e) :=
  ⟨h.host, h.now, by rw [traffic_record, traffic_record, h.traffic, h.now]⟩

theorem of_record {e : Event} (he : e.isTraffic = false) (r : Run σ) : Alike (r.record e) r :=
  ⟨rfl, rfl, by simp [traffic_record, he]⟩

theorem foldl_record (h : Alike r r') (es : List Event) :
    Alike (es.foldl Run.record r) (es.foldl Run.record r') := by
  induction es generalizing r r' with
  | nil => exact h
  | cons e es ih => exact ih (h.record e)

theorem arrive (h : Alike r r') (place : Place) (c : Call) (remarks : List Log.Line) :
    Alike (r.arrive place c remarks) (r'.arrive place c remarks) := (h.record _).foldl_record _

theorem begin (hr : Alike r r') (h : Host σ) (place : Place) (c : Call) :
    Alike (r.begin h place c).2 (r'.begin h place c).2 := by
  have hbegun : Alike { r with host := (h c r.host).2 } { r' with host := (h c r'.host).2 } :=
    ⟨by rw [hr.host], hr.now, hr.traffic⟩
  exact hbegun.record _

theorem at_ (h : Alike r r') (t : Nat) : Alike { r with now := t } { r' with now := t } :=
  ⟨h.host, rfl, h.traffic⟩

end Alike
end Run

namespace Schedule

/-- The second strand is the first without its notices, after a run that is like the first's. -/
structure Hushes (x y : Strand × Run σ) : Prop where
  strand : y.1 = x.1.hush
  run : x.2.Alike y.2

variable {h : Host σ} {r r' : Run σ}

theorem hushes_iff_pairs {x y : Strand × Run σ} :
    Hushes x y ↔ Pairs (fun s s' => s' = s.hush) Run.Alike x y :=
  ⟨fun h => ⟨h.strand, h.run⟩, fun h => ⟨h.strand, h.run⟩⟩

theorem outcome_eq_of_hush {s s' : Strand} (hs : s' = s.hush) : outcome s = outcome s' := by
  rw [hs, Strand.outcome_hush]

theorem conclude_sweep_hush {α : Type} {f g : α → Run σ → Strand × Run σ} {quiet : α → α}
    (rule : JoinRule) {next : List Text → Plan} {as : List α}
    (hf : ∀ a ∈ as, ∀ r r', Run.Alike r r' → Hushes (f a r) (g (quiet a) r'))
    (hnext : ∀ ts r r', Run.Alike r r' → Hushes (start h (next ts) r) (start h (next ts).hush r'))
    (hr : r.Alike r') :
    Hushes (conclude h rule next (sweep f rule true as r))
      (conclude h rule (fun ts => (next ts).hush) (sweep g rule true (as.map quiet) r')) := by
  have hpairs : List.Forall₂ (fun a b => ∀ r r' : Run σ, Run.Alike r r' →
      Pairs (fun s s' => s' = s.hush) Run.Alike (f a r) (g b r')) as (as.map quiet) :=
    List.forall₂_map_right_iff.2 (List.forall₂_same.2 fun a ha r r' hr =>
      hushes_iff_pairs.1 (hf a ha r r' hr))
  obtain ⟨hswept, hruns⟩ := sweep_pairs (fun _ _ => outcome_eq_of_hush) rule hpairs true hr
  refine hushes_iff_pairs.2 (conclude_pairs (fun _ _ => outcome_eq_of_hush)
    (fun ts r r' hr => hushes_iff_pairs.1 (hnext ts r r' hr)) (fun ss ss' hss => ?_)
    (fun _ => rfl) hswept hruns)
  have hmap : List.Forall₂ (· = ·) (ss.map Strand.hush) ss' :=
    List.forall₂_map_left_iff.2 (hss.imp fun _ _ => Eq.symm)
  rw [List.forall₂_eq_eq_eq] at hmap
  rw [← hmap, Strand.hush_joining]

theorem start_hush (h : Host σ) (p : Plan) (hr : r.Alike r') :
    Hushes (start h p r) (start h p.hush r') := by
  induction p generalizing r r' with
  | done | halt => exact ⟨rfl, hr⟩
  | note place n rest ih =>
    rw [start, Plan.hush]
    exact ih ((Run.Alike.of_record rfl r).trans hr)
  | ask place c next ih =>
    -- The host is in the same state, so that its answer is the same and takes as long.
    rw [Plan.hush, start_ask, start_ask, hr.host, hr.now]
    split
    · exact ih _ ((hr.begin h place c).arrive place c _)
    · exact ⟨rfl, hr.begin h place c⟩
  | join rule branches next ihb ihn =>
    rw [Plan.hush_join, start_join, start_join]
    exact conclude_sweep_hush rule (fun p hp r r' hr => ihb p hp hr)
      (fun ts r r' hr => ihn ts hr) hr

theorem resume_hush (h : Host σ) (s : Strand) (hr : r.Alike r') :
    Hushes (resume h s r) (resume h s.hush r') := by
  induction s generalizing r r' with
  | finished | halted => exact ⟨rfl, hr⟩
  | waiting due place c remarks rest =>
    rw [Strand.hush, resume, resume, hr.now]
    split
    · exact start_hush h rest (hr.arrive place c remarks)
    · exact ⟨rfl, hr⟩
  | joining rule strands next ih =>
    rw [Strand.hush_joining, resume_joining, resume_joining]
    exact conclude_sweep_hush rule (fun s hs r r' hr => ih s hs hr)
      (fun ts r r' hr => start_hush h (next ts) hr) hr

theorem finish_hush (h : Host σ) (rounds : Nat) (s : Strand) (hr : r.Alike r') :
    (finish h rounds s r).1 = (finish h rounds s.hush r').1 ∧
      (finish h rounds s r).2.Alike (finish h rounds s.hush r').2 := by
  induction rounds generalizing s r r' with
  | zero =>
    rw [finish_zero, finish_zero, Strand.outcome_hush]
    exact ⟨rfl, hr⟩
  | succ rounds ih =>
    rw [finish_succ, finish_succ, Strand.due_hush, Strand.outcome_hush]
    cases due s with
    | none => exact ⟨rfl, hr⟩
    | some t =>
      obtain ⟨hstrand, hruns⟩ := resume_hush h s (hr.at_ t)
      dsimp only
      rw [hstrand]
      exact ih _ hruns

/-- Two strands that differ in their notices only, after runs that are alike. -/
structure Akin (x y : Strand × Run σ) : Prop where
  strand : x.1.hush = y.1.hush
  run : x.2.Alike y.2

theorem Hushes.akin {x y z : Strand × Run σ} (hx : Hushes x z) (hy : Hushes y z) : Akin x y :=
  ⟨hx.strand.symm.trans hy.strand, hx.run.trans hy.run.symm⟩

theorem start_akin (h : Host σ) {p p' : Plan} (hp : p.hush = p'.hush) (hr : r.Alike r') :
    Akin (start h p r) (start h p' r') := by
  have hhushed := start_hush h p hr
  rw [hp] at hhushed
  exact hhushed.akin (start_hush h p' (.refl r'))

theorem resume_akin (h : Host σ) {s s' : Strand} (hs : s.hush = s'.hush) (hr : r.Alike r') :
    Akin (resume h s r) (resume h s' r') := by
  have hhushed := resume_hush h s hr
  rw [hs] at hhushed
  exact hhushed.akin (resume_hush h s' (.refl r'))

theorem run_alike (h : Host σ) (rounds : Nat) {p p' : Plan} (hp : p.hush = p'.hush)
    (hr : r.Alike r') :
    (run h rounds p r).1 = (run h rounds p' r').1 ∧
      (run h rounds p r).2.Alike (run h rounds p' r').2 := by
  obtain ⟨hstrand, hstarted⟩ := start_akin h hp hr
  obtain ⟨hend, hruns⟩ := finish_hush h rounds (start h p r).1 hstarted
  obtain ⟨hend', hruns'⟩ := finish_hush h rounds (start h p' r').1 (.refl (start h p' r').2)
  rw [← hstrand] at hend' hruns'
  exact ⟨hend.trans hend'.symm, hruns.trans hruns'.symm⟩

end Schedule
end Inlay
