import Inlay.Proofs.Marker.Tiling
import Inlay.Proofs.Plan.Race
import Inlay.Proofs.Rendering.Timing

namespace Inlay

variable {σ : Type}

namespace Oracle

variable (f : Oracle)

/-- The failure of a command, if it fails. -/
def failure? : Call → Option Failure
  | .execute command directory =>
    match f (.execute command directory) with
    | .ok _ => none
    | .error failure => some failure
  | _ => none

/-- Of the calls that fail this one does so first, and before all later ones that take as long. -/
structure FirstInTime (calls : List Call) (delays : List Nat) (i : Nat) (failure : Failure)
    (time : Nat) : Prop where
  fails : calls[i]?.bind f.failure? = some failure
  delay : delays[i]? = some time
  first : ∀ j failure' time', calls[j]?.bind f.failure? = some failure' →
    delays[j]? = some time' → time < time' ∨ time = time' ∧ i ≤ j

/-- This call is the first that fails, and all calls up to it have ended by the time. -/
structure FirstInOrder (calls : List Call) (delays : List Nat) (i : Nat) (failure : Failure)
    (time : Nat) : Prop where
  fails : calls[i]?.bind f.failure? = some failure
  first : ∀ j < i, calls[j]?.bind f.failure? = none
  time_eq : time = longest (delays.take (i + 1))

variable {f}

theorem exists_fails {calls : List Call} (hfails : ∃ c ∈ calls, (f.failure? c).isSome) :
    ∃ (i : Nat) (failure : Failure), calls[i]?.bind f.failure? = some failure := by
  obtain ⟨c, hc, hsome⟩ := hfails
  obtain ⟨failure, hfailure⟩ := Option.isSome_iff_exists.1 hsome
  obtain ⟨i, hi⟩ := List.getElem?_of_mem hc
  exact ⟨i, failure, by rw [hi, Option.bind_some, hfailure]⟩

theorem exists_firstInTime {calls : List Call} {delays : List Nat}
    (hlength : delays.length = calls.length) (hfails : ∃ c ∈ calls, (f.failure? c).isSome) :
    ∃ i failure time, f.FirstInTime calls delays i failure time := by
  classical
  have hdelay : ∀ {i : Nat} {failure : Failure}, calls[i]?.bind f.failure? = some failure →
      ∃ time, delays[i]? = some time := by
    intro i failure hi
    obtain ⟨c, hc, -⟩ := Option.bind_eq_some_iff.1 hi
    obtain ⟨hlt, -⟩ := List.getElem?_eq_some_iff.1 hc
    exact ⟨delays[i], List.getElem?_eq_getElem _⟩
  -- First the least delay of a failure, and then the first failure with this delay.
  have htime : ∃ (time i : Nat) (failure : Failure), calls[i]?.bind f.failure? = some failure ∧
      delays[i]? = some time := by
    obtain ⟨i, failure, hi⟩ := exists_fails hfails
    obtain ⟨time, hd⟩ := hdelay hi
    exact ⟨time, i, failure, hi, hd⟩
  have hindex := Nat.find_spec htime
  obtain ⟨failure, hi, hd⟩ := Nat.find_spec hindex
  refine ⟨_, failure, _, hi, hd, fun j failure' time' hj hd' => ?_⟩
  rcases (Nat.find_min' htime ⟨j, failure', hj, hd'⟩).lt_or_eq with hlt | heq
  · exact .inl hlt
  · exact .inr ⟨heq, Nat.find_min' hindex ⟨failure', hj, by rw [heq]; exact hd'⟩⟩

theorem exists_firstInOrder {calls : List Call} (delays : List Nat)
    (hfails : ∃ c ∈ calls, (f.failure? c).isSome) :
    ∃ i failure time, f.FirstInOrder calls delays i failure time := by
  classical
  have hindex : ∃ (i : Nat) (failure : Failure), calls[i]?.bind f.failure? = some failure :=
    exists_fails hfails
  obtain ⟨failure, hi⟩ := Nat.find_spec hindex
  refine ⟨_, failure, _, hi, fun j hj => ?_, rfl⟩
  cases hfailure : calls[j]?.bind f.failure? with
  | none => rfl
  | some failure' => exact absurd ⟨failure', hfailure⟩ (Nat.find_min hindex hj)

end Oracle

namespace Errand

def name (opts : Options) (place : Place) (source : Source) (name : Text) : Errand where
  place := place
  notices := if opts.debug then [.resolvingName source name] else []
  call := .lookup name
  settle := fun (value : Option Text) => .ok (value.getD [])

def command (opts : Options) (place : Place) (source : Source) (command : Text) : Errand where
  place := place
  notices := if opts.debug then [.resolvingCommand source command] else []
  call := .execute command source.directory
  settle := fun
    | .ok output => .ok output
    | .error failure => .error (.failed failure)

variable {opts : Options} {place : Place} {source : Source}

theorem plan_name (name : Text) :
    (Errand.name opts place source name).plan = Plan.resolveName opts place source name := by
  rw [Plan.resolveName, Plan.noteIf_eq]
  rfl

theorem plan_command (command : Text) :
    (Errand.command opts place source command).plan =
      Plan.resolveCommand opts place source command := by
  rw [Plan.resolveCommand, Plan.noteIf_eq, plan]
  congr 2
  funext answer
  rcases answer with failure | output <;> rfl

theorem pass_eq {kind : Marker.Kind} {text : Text} {resolve : Text → Plan} {g : Text → Errand}
    (hg : ∀ payload, (g payload).plan = resolve payload) :
    Plan.pass opts place source kind text (fun _ => resolve) =
      .notes place (if opts.debug then Plan.strayNotices source kind text (Marker.scan kind text)
        else []) (.join (Plan.joinRule (Marker.scan kind text))
          (((Segment.markers (Marker.scan kind text)).map fun m => g m.payload).map plan)
          fun values => .done (Segment.splice (Marker.scan kind text) values)) := by
  have hbranches : Plan.branches kind text (fun _ => resolve) =
      ((Segment.markers (Marker.scan kind text)).map fun m => g m.payload).map plan :=
    List.ext_getElem (by simp [Plan.branches]) (by simp [Plan.branches, hg])
  rw [Plan.pass_eq, hbranches]

/-- The errand fails when its call does, and with the call's failure. -/
def Reports (f : Oracle) (e : Errand) : Prop :=
  ∀ why, e.settle (f e.call) = .error why ↔
    ∃ failure, f.failure? e.call = some failure ∧ why = .failed failure

theorem reports_command (f : Oracle) (payload : Text) :
    (command opts place source payload).Reports f := by
  intro why
  simp only [command, Oracle.failure?]
  cases f (.execute payload source.directory) with
  | ok output => simp
  | error failure => simp [eq_comm]

variable {h : Host σ} {f : Oracle} {now time : Nat} {s : σ} {es : List Errand} {i : Nat}
  {failure : Failure}

theorem getElem?_fates_error (hf : h.Follows f) (hes : ∀ e ∈ es, e.Reports f) {why : Halt} :
    (fates h now s es)[i]? = some ⟨time, .error why⟩ ↔
      ∃ failure d, (es.map call)[i]?.bind f.failure? = some failure ∧
        (h.delays s (es.map call))[i]? = some d ∧ time = now + d ∧ why = .failed failure := by
  rw [Schedule.getElem?_fates hf, List.getElem?_map]
  constructor
  · rintro ⟨e, d, he, hd, heq⟩
    obtain ⟨rfl, hx⟩ := Fate.mk.inj heq
    obtain ⟨failure, hfailure, rfl⟩ := (hes e (List.mem_of_getElem? he) why).1 hx.symm
    exact ⟨failure, d, by rw [he, Option.map_some, Option.bind_some, hfailure], hd, rfl, rfl⟩
  · rintro ⟨failure, d, hfailure, hd, rfl, rfl⟩
    obtain ⟨c, hc, hfailure⟩ := Option.bind_eq_some_iff.1 hfailure
    obtain ⟨e, he, rfl⟩ := Option.map_eq_some_iff.1 hc
    have hsettle := (hes e (List.mem_of_getElem? he) (.failed failure)).2 ⟨failure, hfailure, rfl⟩
    exact ⟨e, d, he, hd, by rw [hsettle]⟩

theorem exists_fates_ok (hf : h.Follows f) (hes : ∀ e ∈ es, e.Reports f) {d : Nat}
    (hnone : (es.map call)[i]?.bind f.failure? = none)
    (hd : (h.delays s (es.map call))[i]? = some d) :
    ∃ t, (fates h now s es)[i]? = some ⟨now + d, .ok t⟩ := by
  obtain ⟨hlt, -⟩ := List.getElem?_eq_some_iff.1 hd
  rw [h.length_delays, List.length_map] at hlt
  have he : es[i]? = some es[i] := List.getElem?_eq_getElem hlt
  have hfate : (fates h now s es)[i]? = some ⟨now + d, es[i].settle (f es[i].call)⟩ :=
    (Schedule.getElem?_fates hf).2 ⟨es[i], d, he, hd, rfl⟩
  cases hx : es[i].settle (f es[i].call) with
  | ok t => exact ⟨t, by rw [hfate, hx]⟩
  | error why =>
    rw [hx] at hfate
    obtain ⟨failure, _, hfailure, -⟩ := (getElem?_fates_error hf hes).1 hfate
    rw [hnone] at hfailure
    cases hfailure

theorem stops_of_firstInTime (hf : h.Follows f) (hes : ∀ e ∈ es, e.Reports f)
    (hfirst : f.FirstInTime (es.map call) (h.delays s (es.map call)) i failure time) :
    Schedule.stops .eager (now + time) true (fates h now s es) = some i ∧
      ∀ t < now + time, Schedule.stops .eager t true (fates h now s es) = none := by
  constructor
  · refine Schedule.stops_eager ((getElem?_fates_error hf hes).2
      ⟨failure, time, hfirst.fails, hfirst.delay, rfl, rfl⟩) le_rfl fun j hj time' why hfate => ?_
    obtain ⟨failure', d, hfailure, hd, rfl, -⟩ := (getElem?_fates_error hf hes).1 hfate
    have := hfirst.first j failure' d hfailure hd
    omega
  · refine fun t ht => Schedule.stops_eager_eq_none fun j time' why hfate => ?_
    obtain ⟨failure', d, hfailure, hd, rfl, -⟩ := (getElem?_fates_error hf hes).1 hfate
    have := hfirst.first j failure' d hfailure hd
    omega

theorem stops_of_firstInOrder (hf : h.Follows f) (hes : ∀ e ∈ es, e.Reports f)
    (hfirst : f.FirstInOrder (es.map call) (h.delays s (es.map call)) i failure time) :
    Schedule.stops .inOrder (now + time) true (fates h now s es) = some i ∧
      ∀ t, now ≤ t → t < now + time →
        Schedule.stops .inOrder t true (fates h now s es) = none := by
  have hlt : i < (h.delays s (es.map call)).length := by
    obtain ⟨c, hc, -⟩ := Option.bind_eq_some_iff.1 hfirst.fails
    obtain ⟨hlt, -⟩ := List.getElem?_eq_some_iff.1 hc
    rwa [h.length_delays]
  have hdelay : ∀ j ≤ i, ∃ d, (h.delays s (es.map call))[j]? = some d ∧ d ≤ time := by
    intro j hj
    have hget := List.getElem?_eq_getElem (Nat.lt_of_le_of_lt hj hlt)
    refine ⟨_, hget, ?_⟩
    rw [hfirst.time_eq]
    refine le_longest (List.mem_of_getElem? (i := j) ?_)
    rw [List.getElem?_take_of_lt (Nat.lt_succ_of_le hj), hget]
  constructor
  · obtain ⟨d, hd, hle⟩ := hdelay i le_rfl
    refine Schedule.stops_inOrder ((getElem?_fates_error hf hes).2
      ⟨failure, d, hfirst.fails, hd, rfl, rfl⟩) (Nat.add_le_add_left hle now) fun j hj => ?_
    obtain ⟨d, hd, hle⟩ := hdelay j hj.le
    obtain ⟨t, ht⟩ : ∃ t, (fates h now s es)[j]? = some ⟨now + d, .ok t⟩ :=
      exists_fates_ok hf hes (hfirst.first j hj) hd
    exact ⟨now + d, t, ht, Nat.add_le_add_left hle now⟩
  · intro t hnow ht
    -- One of the calls up to the failing one takes as long as all of them do.
    have hlate : ∃ j ≤ i, ∃ d, (h.delays s (es.map call))[j]? = some d ∧ t < now + d := by
      by_contra hall
      have hle : longest ((h.delays s (es.map call)).take (i + 1)) ≤ t - now := by
        refine longest_le_iff.2 fun d hd => ?_
        obtain ⟨j, hj⟩ := List.getElem?_of_mem hd
        rw [List.getElem?_take, Option.ite_none_right_eq_some] at hj
        by_contra hlt
        exact hall ⟨j, Nat.le_of_lt_succ hj.1, d, hj.2, by omega⟩
      rw [← hfirst.time_eq] at hle
      omega
    obtain ⟨j, hj, d, hd, hlate⟩ := hlate
    obtain ⟨fate, hfate, htime⟩ : ∃ fate, (fates h now s es)[j]? = some fate ∧ t < fate.time := by
      have hj' : j < es.length := by
        obtain ⟨hj', -⟩ := List.getElem?_eq_some_iff.1 hd
        rwa [h.length_delays, List.length_map] at hj'
      exact ⟨_, (Schedule.getElem?_fates hf).2
        ⟨es[j], d, List.getElem?_eq_getElem hj', hd, rfl⟩, hlate⟩
    refine Schedule.stops_inOrder_eq_none (fun k hk time why hfate => ?_) hj hfate htime
    obtain ⟨failure', d, hfailure, -⟩ := (getElem?_fates_error hf hes).1 hfate
    rw [hfirst.first k hk] at hfailure
    cases hfailure

theorem exists_first (hf : h.Follows f) (hes : ∀ e ∈ es, e.Reports f) (segments : List Segment)
    (hfails : ∃ c ∈ es.map call, (f.failure? c).isSome) (now : Nat) (s : σ) :
    ∃ i failure time,
      (if segments.length ≤ 30 then
        f.FirstInTime (es.map call) (h.delays s (es.map call)) i failure time
      else f.FirstInOrder (es.map call) (h.delays s (es.map call)) i failure time) ∧
      (es.map call)[i]?.bind f.failure? = some failure ∧
      Schedule.stops (Plan.joinRule segments) (now + time) true (fates h now s es) = some i ∧
      ∀ t, now ≤ t → t < now + time →
        Schedule.stops (Plan.joinRule segments) t true (fates h now s es) = none := by
  by_cases hfew : segments.length ≤ 30
  · have hrule : Plan.joinRule segments = .eager := if_pos hfew
    obtain ⟨i, failure, time, hfirst⟩ :=
      Oracle.exists_firstInTime (h.length_delays s (es.map call)) hfails
    obtain ⟨hstops, hbefore⟩ := stops_of_firstInTime hf hes hfirst
    rw [hrule]
    exact ⟨i, failure, time, by rwa [if_pos hfew], hfirst.fails, hstops, fun t _ => hbefore t⟩
  · have hrule : Plan.joinRule segments = .inOrder := if_neg hfew
    obtain ⟨i, failure, time, hfirst⟩ :=
      Oracle.exists_firstInOrder (h.delays s (es.map call)) hfails
    obtain ⟨hstops, hbefore⟩ := stops_of_firstInOrder hf hes hfirst
    rw [hrule]
    exact ⟨i, failure, time, by rwa [if_neg hfew], hfirst.fails, hstops, hbefore⟩

end Errand
namespace Schedule

variable {h : Host σ} {f : Oracle}

theorem host_of_start {p : Plan} {s : Strand} {r r' : Run σ} (hstart : start h p r = (s, r'))
    {cs : List Call} (hcalls : r'.calls = r.calls ++ cs) : r'.host = h.after r.host cs := by
  obtain ⟨n, es, -, hes, hhost, -⟩ := start_advances h p r
  rw [hstart] at hes hhost
  have hmade : r'.calls = r.calls ++ (Event.requests es).map (·.2) := by
    rw [Run.calls_eq, hes, List.filterMap_append, ← Run.calls_eq, Event.map_requests]
  rw [hhost, List.append_cancel_left (hmade.symm.trans hcalls)]

theorem run_bind {p : Plan} {t : Text} {r r' : Run σ} (hstart : start h p r = (.finished t, r'))
    (g : Text → Plan) (rounds : Nat) : run h rounds (p.bind g) r = run h rounds (g t) r' := by
  rw [run, start_bind, hstart, follow, run]

theorem start_names (hf : h.Follows f) (hlookup : ∀ name s, (h (.lookup name) s).1.delay = 0)
    (opts : Options) (place : Place) (source : Source) (text : Text) (r : Run σ) :
    ∃ r', start h (.pass opts place source .lookup text fun _ name =>
        .resolveName opts place source name) r = (.finished (f.named text), r') ∧ r'.now = r.now ∧
      r'.calls = r.calls ++
        (Segment.markers (Marker.scan .lookup text)).map fun m => .lookup m.payload := by
  rw [Errand.pass_eq Errand.plan_name]
  have hfates : Errand.fates h r.now r.host ((Segment.markers (Marker.scan .lookup text)).map
        fun m => Errand.name opts place source m.payload) =
      ((Segment.markers (Marker.scan .lookup text)).map fun m =>
        (f (.lookup m.payload)).getD []).map fun t => ⟨r.now, .ok t⟩ := by
    generalize r.host = host
    induction Segment.markers (Marker.scan .lookup text) generalizing host with
    | nil => rfl
    | cons m ms ih =>
      rw [List.map_cons, Errand.fates, ih, List.map_cons, List.map_cons]
      simp only [Errand.name, hlookup, hf _ host, Nat.add_zero]
  obtain ⟨r', hstart, hnow, hcalls⟩ := start_errands (Plan.joinRule (Marker.scan .lookup text))
    place (if opts.debug then Plan.strayNotices source .lookup text (Marker.scan .lookup text)
      else []) (fun values => .done (Segment.splice (Marker.scan .lookup text) values)) hfates
  refine ⟨r', hstart, hnow, ?_⟩
  rw [hcalls, List.map_map]
  rfl

theorem start_pass_nil (h : Host σ) (opts : Options) (place : Place) (source : Source)
    {kind : Marker.Kind} {text : Text} (hplain : Segment.markers (Marker.scan kind text) = [])
    (resolve : Nat → Text → Plan) (r : Run σ) :
    ∃ r', start h (.pass opts place source kind text resolve) r = (.finished text, r') ∧
      r'.now = r.now ∧ r'.calls = r.calls := by
  have hbranches : Plan.branches kind text resolve = ([] : List Errand).map Errand.plan := by
    rw [Plan.branches, hplain]
    rfl
  have hfates : Errand.fates h r.now r.host [] = ([] : List Text).map fun t => ⟨r.now, .ok t⟩ :=
    rfl
  obtain ⟨r', hstart, hnow, hcalls⟩ := start_errands (Plan.joinRule (Marker.scan kind text)) place
    (if opts.debug then Plan.strayNotices source kind text (Marker.scan kind text) else [])
    (fun values => .done (Segment.splice (Marker.scan kind text) values)) hfates
  rw [Plan.pass_eq, hbranches, hstart]
  refine ⟨r', ?_, hnow, hcalls.trans (List.append_nil _)⟩
  rw [Marker.splice_scan_nil hplain]
  rfl

theorem run_passes (hf : h.Follows f) (hlookup : ∀ name s, (h (.lookup name) s).1.delay = 0)
    (opts : Options) (depth : Nat) (source : Source) (chain : List Path) {text : Text}
    (hplain : Segment.markers (Marker.scan .inclusion (f.named text)) = []) (r : Run σ) :
    ∃ r', (∀ rounds, run h rounds (.passes opts (depth + 1) [] source chain text) r =
        run h rounds ((Plan.pass opts [] source .command (f.named text) fun _ command =>
          .resolveCommand opts [] source command).bind fun text => .done text.closeLine) r') ∧
      r'.now = r.now ∧
      r'.calls = r.calls ++ (Segment.markers (Marker.scan .lookup text)).map
        (fun m => .lookup m.payload) ∧
      r'.host = h.after r.host ((Segment.markers (Marker.scan .lookup text)).map
        fun m => .lookup m.payload) := by
  obtain ⟨r₁, hnames, hnow₁, hcalls₁⟩ := start_names hf hlookup opts [] source text r
  obtain ⟨r₂, hincludes, hnow₂, hcalls₂⟩ := start_pass_nil h opts [] source hplain
    (fun i relative => .resolveFile opts [] source chain
      (fun path => .passes opts depth ([] ++ [i]) (.file path)) relative) r₁
  have hhost₁ := host_of_start hnames hcalls₁
  have hhost₂ := host_of_start hincludes (hcalls₂.trans (List.append_nil _).symm)
  refine ⟨r₂, fun rounds => ?_, hnow₂.trans hnow₁, hcalls₂.trans hcalls₁, hhost₂.trans hhost₁⟩
  exact (run_bind hnames _ rounds).trans (run_bind hincludes _ rounds)

theorem run_ask (h : Host σ) (place : Place) (c : Call) (next : c.Answer → Plan) (r : Run σ) :
    ∃ extra r', (∀ rounds, run h (rounds + extra) (.ask place c next) r =
        run h rounds (next (h c r.host).1.answer) r') ∧
      r'.now = r.now + (h c r.host).1.delay ∧ r'.calls = r.calls ++ [c] ∧
      r'.host = (h c r.host).2 := by
  have hbegin : (r.begin h place c).2.calls = r.calls ++ [c] := by
    simp [Run.calls_eq, Event.call?]
  have harrive : ∀ (r : Run σ) remarks, (r.arrive place c remarks).calls = r.calls := by
    intro r remarks
    simp [Run.calls_eq, Event.call?]
  by_cases hzero : (h c r.host).1.delay = 0
  · refine ⟨0, (r.begin h place c).2.arrive place c (h c r.host).1.remarks, fun rounds => ?_, ?_,
      (harrive _ _).trans hbegin, Run.host_arrive ..⟩
    · rw [Nat.add_zero, run, start_ask, if_pos hzero, run]
    · rw [Run.now_arrive, hzero]
      rfl
  · let r₁ : Run σ := { (r.begin h place c).2 with now := r.now + (h c r.host).1.delay }
    refine ⟨1, r₁.arrive place c (h c r.host).1.remarks, fun rounds => ?_, Run.now_arrive ..,
      (harrive _ _).trans hbegin, Run.host_arrive ..⟩
    have hstart : start h (.ask place c next) r = (.waiting (r.now + (h c r.host).1.delay) place c
        (h c r.host).1.remarks (next (h c r.host).1.answer), (r.begin h place c).2) := by
      rw [start_ask, if_neg hzero]
    rw [run_of_start hstart, finish_succ, due]
    dsimp only
    rw [resume, if_pos le_rfl, run]

theorem run_render (h : Host σ) (opts : Options) (depth : Nat) (source : Source) (text : Text)
    (s : σ) :
    ∃ extra chain r', (∀ rounds, run h (rounds + extra) (.render opts depth [] source text)
        ⟨s, 0, []⟩ = run h rounds (.passes opts depth [] source chain text) r') ∧
      r'.now = (h.delays s (opts.naming source)).sum ∧ r'.calls = opts.naming source ∧
      r'.host = h.after s (opts.naming source) := by
  rcases Plan.render_cases opts source with ⟨path, hnaming, hrender⟩ | ⟨hnaming, hrender⟩
  · rw [hrender, hnaming]
    obtain ⟨extra, r', hrun, hnow, hcalls, hhost⟩ := run_ask h [] (.identify path)
      (fun identity => .passes opts depth [] source [identity] text) ⟨s, 0, []⟩
    exact ⟨extra, _, r', hrun, by simpa [Host.delays] using hnow, hcalls, hhost⟩
  · rw [hrender, hnaming]
    exact ⟨0, [], ⟨s, 0, []⟩, fun _ => rfl, rfl, rfl, rfl⟩

theorem run_commands (hf : h.Follows f) (opts : Options) (source : Source) (text : Text)
    (g : Text → Plan) {commands : List Call}
    (hcommands : (Segment.markers (Marker.scan .command text)).map
      (fun m => .execute m.payload source.directory) = commands)
    (hfails : ∃ c ∈ commands, (f.failure? c).isSome) (r : Run σ) :
    ∃ i failure time rounds r', run h rounds ((Plan.pass opts [] source .command text
        fun _ command => .resolveCommand opts [] source command).bind g) r =
        (.halted (.failed failure), r') ∧
      (if (Marker.scan .command text).length ≤ 30 then
        f.FirstInTime commands (h.delays r.host commands) i failure time
      else f.FirstInOrder commands (h.delays r.host commands) i failure time) ∧
      r'.now = r.now + time ∧
      r'.calls = r.calls ++ if time = 0 then commands.take (i + 1) else commands := by
  obtain ⟨es, hes, hcalls, hpass⟩ : ∃ es : List Errand, (∀ e ∈ es, e.Reports f) ∧
      es.map Errand.call = commands ∧
      Plan.pass opts [] source .command text (fun _ command =>
        .resolveCommand opts [] source command) =
      .notes [] (if opts.debug then Plan.strayNotices source .command text
        (Marker.scan .command text) else []) (.join (Plan.joinRule (Marker.scan .command text))
          (es.map Errand.plan) fun values =>
            .done (Segment.splice (Marker.scan .command text) values)) := by
    refine ⟨_, ?_, ?_, Errand.pass_eq Errand.plan_command⟩
    · intro e he
      obtain ⟨m, -, rfl⟩ := List.mem_map.1 he
      exact Errand.reports_command f _
    · rw [← hcommands, List.map_map]
      rfl
  obtain ⟨rounds, hends⟩ := run_ends h ((Plan.pass opts [] source .command text
    fun _ command => .resolveCommand opts [] source command).bind g) r
  rw [hpass, Plan.bind_notes, Plan.bind] at hends ⊢
  rw [← hcalls] at hfails ⊢
  -- The commands are known, and so is the moment at which the first failure that counts is heard
  -- of.
  obtain ⟨i, failure, time, hfirst, hi, hstops, hbefore⟩ :=
    Errand.exists_first hf hes (Marker.scan .command text) hfails r.now r.host
  obtain ⟨time', why, r', hrun, hfate, hnow, hmade⟩ :=
    run_errands (Nat.le_add_right ..) hbefore hstops hends
  obtain ⟨failure', d, hi', -, -, rfl⟩ := (Errand.getElem?_fates_error hf hes).1 hfate
  obtain rfl : failure = failure' := Option.some.inj (hi.symm.trans hi')
  refine ⟨i, failure, time, rounds, r', hrun, hfirst, hnow, ?_⟩
  simpa using hmade

end Schedule

/--
A document without includes of which a command fails: the failure that is reported is the first in
time if the segments are few, and the first in the text if they are many. By then all commands have
been started, or, if it comes at once, those up to the failing one and no other.
-/
theorem fails_first {h : Host σ} {f : Oracle} (hf : h.Follows f)
    (hlookup : ∀ name s, (h (.lookup name) s).1.delay = 0) (opts : Options) (depth : Nat)
    {source : Source} {text : Text}
    (hplain : Segment.markers (Marker.scan .inclusion (f.named text)) = [])
    (hfails : ∃ c ∈ f.commands depth source text, (f.failure? c).isSome) (s : σ) :
    let before := opts.naming source ++
      (Segment.markers (Marker.scan .lookup text)).map fun m => .lookup m.payload
    let commands := f.commands depth source text
    let delays := h.delays (h.after s before) commands
    ∃ i failure time rounds r,
      Schedule.run h rounds (Plan.render opts (depth + 1) [] source text) ⟨s, 0, []⟩ =
        (.halted (.failed failure), r) ∧
      (if (Marker.scan .command (f.named text)).length ≤ 30 then
        f.FirstInTime commands delays i failure time
      else f.FirstInOrder commands delays i failure time) ∧
      r.now = (h.delays s (opts.naming source)).sum + time ∧
      r.calls = before ++ if time = 0 then commands.take (i + 1) else commands := by
  intro before commands delays
  obtain ⟨extra, chain, r₁, hrender, hnow₁, hcalls₁, hhost₁⟩ :=
    Schedule.run_render h opts (depth + 1) source text s
  obtain ⟨r₂, hpasses, hnow₂, hcalls₂, hhost₂⟩ :=
    Schedule.run_passes hf hlookup opts depth source chain hplain r₁
  have hfilled : f.filled (f.renderedFile depth) source text = f.named text := by
    rw [Oracle.filled, Oracle.includes, hplain]
    exact Marker.splice_scan_nil hplain
  have hcommands : (Segment.markers (Marker.scan .command (f.named text))).map
      (fun m => Call.execute m.payload source.directory) = commands := by
    rw [← hfilled]
    rfl
  have hstate : r₂.host = h.after s before := by
    rw [hhost₂, hhost₁, ← Host.after_append]
  obtain ⟨i, failure, time, rounds, r, hrun, hfirst, hnow, hcalls⟩ :=
    Schedule.run_commands hf opts source (f.named text) (fun text => .done text.closeLine)
      hcommands hfails r₂
  rw [hstate] at hfirst
  refine ⟨i, failure, time, rounds + extra, r, ?_, hfirst, ?_, ?_⟩
  · rw [hrender, hpasses, hrun]
  · rw [hnow, hnow₂, hnow₁]
  · rw [hcalls, hcalls₂, hcalls₁]

/-- Commands that begin with a bang fail. -/
def Oracle.failing : Oracle
  | .execute command _ =>
    if command.head? = some '!' then .error (.commandFailed command "exit status: 1".toList [])
    else .ok command
  | c => ofFiles [] c

/-- All but variables take a while, and later calls a shorter one. -/
def Host.failing : Host Nat :=
  Oracle.failing.host fun n c => match c with | .lookup _ => 0 | _ => 9 - n

/-- The second of two commands fails first, and the third has been started by then. -/
theorem fails_first_failing :
    ∃ rounds r, Schedule.run Host.failing rounds
        (Plan.render {} 1 [] .stdin "$((!a))$((!b))$((c))".toList) ⟨0, 0, []⟩ =
          (.halted (.failed (.commandFailed "!b".toList "exit status: 1".toList [])), r) ∧
      r.now = 8 ∧
      r.calls = [.execute "!a".toList ['.'], .execute "!b".toList ['.'], .execute ['c'] ['.']] := by
  have hcommands : Oracle.failing.commands 0 .stdin "$((!a))$((!b))$((c))".toList =
      [.execute "!a".toList ['.'], .execute "!b".toList ['.'], .execute ['c'] ['.']] := by
    decide +kernel
  have hfollows : Host.failing.Follows Oracle.failing := Oracle.host_follows _ _
  have hlookup : ∀ name s, (Host.failing (.lookup name) s).1.delay = 0 := fun _ _ => rfl
  have hplain : Segment.markers (Marker.scan .inclusion
      (Oracle.failing.named "$((!a))$((!b))$((c))".toList)) = [] := by
    decide +kernel
  have hfew : (Marker.scan .command
      (Oracle.failing.named "$((!a))$((!b))$((c))".toList)).length ≤ 30 := by
    decide +kernel
  obtain ⟨i, failure, time, rounds, r, hrun, hfirst, hnow, hcalls⟩ :=
    fails_first hfollows hlookup {} 0 hplain (by rw [hcommands]; decide) 0
  have hbefore : ({} : Options).naming .stdin ++
      (Segment.markers (Marker.scan .lookup "$((!a))$((!b))$((c))".toList)).map
        (fun m => Call.lookup m.payload) = [] := by
    decide +kernel
  rw [if_pos hfew, hcommands, hbefore] at hfirst
  rw [hcommands, hbefore] at hcalls
  -- The command in the middle fails after eight, the one before it later, the one behind it never.
  have htime : time < 8 ∨ time = 8 ∧ i ≤ 1 :=
    hfirst.first 1 (.commandFailed "!b".toList "exit status: 1".toList []) 8 rfl rfl
  obtain rfl : i = 1 := by
    rcases i with _ | _ | _ | i
    · have hnine : 9 = time := Option.some.inj hfirst.delay
      omega
    · rfl
    · cases hfirst.fails
    · cases hfirst.fails
  obtain rfl : 8 = time := Option.some.inj hfirst.delay
  cases hfirst.fails
  exact ⟨rounds, r, hrun, hnow, hcalls⟩

end Inlay
