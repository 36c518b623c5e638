import Inlay.Proofs.Plan.Schedule
import Inlay.Proofs.Rendering.Passes

namespace Inlay

variable {σ : Type}

/-- What a sequential rendering carries along: the host's state, and the calls in their order. -/
structure Memory (σ : Type) where
  host : σ
  calls : List Call := []
  deriving DecidableEq

/-- A computation that makes calls, and that ends with its first failure. -/
abbrev Sequential (σ α : Type) := ExceptT Halt (StateM (Memory σ)) α

namespace Sequential

def call (h : Host σ) (c : Call) : Sequential σ c.Answer := do
  let m ← get
  set (⟨(h c m.host).2, m.calls ++ [c]⟩ : Memory σ)
  return (h c m.host).1.answer

/-- One pass: the markers of a kind are resolved from left to right. -/
def pass (kind : Marker.Kind) (text : Text) (resolve : Text → Sequential σ Text) :
    Sequential σ Text := do
  let values ← (Segment.markers (Marker.scan kind text)).mapM fun m => resolve m.payload
  return Segment.splice (Marker.scan kind text) values

def name (h : Host σ) (name : Text) : Sequential σ Text := do
  let value : Option Text ← call h (.lookup name)
  return value.getD []

def command (h : Host σ) (source : Source) (command : Text) : Sequential σ Text := do
  let answer : Except Failure Text ← call h (.execute command source.directory)
  match answer with
  | .ok output => return output
  | .error failure => throw (.failed failure)

def readFile (h : Host σ) (path : Path) (nested : Text → Sequential σ Text) :
    Sequential σ Text := do
  let answer : Except Fault Text ← call h (.read path)
  match answer with
  | .ok text => nested text
  | .error cause => throw (.failed (.unreadable path cause))

def file (h : Host σ) (opts : Options) (source : Source) (chain : List Path)
    (nested : Path → List Path → Text → Sequential σ Text) (relative : Text) :
    Sequential σ Text := do
  let path := source.resolve relative
  if opts.detectCycles then
    let identity : Path ← call h (.identify path)
    if chain.any (Path.same identity) then throw (.failed (.cycle (chain ++ [identity])))
    else readFile h path (nested path (chain ++ [identity]))
  else readFile h path (nested path chain)

def document (h : Host σ) (opts : Options) :
    (depth : Nat) → Source → List Path → Text → Sequential σ Text
  | 0, _, _, _ => throw .tooDeep
  | depth + 1, source, chain, text => do
    let text ← pass .lookup text (name h)
    let text ← pass .inclusion text
      (file h opts source chain fun path => document h opts depth (.file path))
    let text ← pass .command text (command h source)
    return text.closeLine

def render (h : Host σ) (opts : Options) (depth : Nat) (source : Source) (text : Text) :
    Sequential σ Text :=
  match opts.detectCycles, source.path? with
  | true, some path => do
    let identity : Path ← call h (.identify path)
    document h opts depth source [identity] text
  | _, _ => document h opts depth source [] text

end Sequential

/-- What a sequential rendering would know at this point of a run. -/
def Run.memory (r : Run σ) : Memory σ := ⟨r.host, r.calls⟩

namespace Run

@[simp] theorem memory_noted (r : Run σ) (place : Place) (n : Notice) :
    (r.record (.noted place n)).memory = r.memory := by
  rw [memory, calls_eq, events_record, memory, calls_eq]
  simp [record, Event.call?]

@[simp] theorem memory_arrive (r : Run σ) (place : Place) (c : Call) (remarks : List Log.Line) :
    (r.arrive place c remarks).memory = r.memory := by
  rw [memory, calls_eq, events_arrive, memory, calls_eq]
  simp [arrive, record, Event.call?]

theorem memory_begin (h : Host σ) (place : Place) (c : Call) (r : Run σ) :
    (r.begin h place c).2.memory = ⟨(h c r.host).2, r.calls ++ [c]⟩ := by
  rw [memory, calls_eq, events_begin, calls_eq]
  simp [begin, record, Event.call?]

end Run

namespace Sequential

variable {α β : Type}

/-- How a computation ends from a point on, and what it knows then. -/
def eval (e : Sequential σ α) (m : Memory σ) : Except Halt α × Memory σ := e.run.run m

@[simp] theorem eval_pure (a : α) (m : Memory σ) : eval (pure a) m = (.ok a, m) := rfl

@[simp] theorem eval_throw (why : Halt) (m : Memory σ) :
    eval (throw why : Sequential σ α) m = (.error why, m) := rfl

@[simp] theorem eval_call (h : Host σ) (c : Call) (m : Memory σ) :
    eval (call h c) m = (.ok (h c m.host).1.answer, ⟨(h c m.host).2, m.calls ++ [c]⟩) := rfl

theorem eval_bind (e : Sequential σ α) (k : α → Sequential σ β) (m : Memory σ) :
    eval (e >>= k) m =
      match eval e m with
      | (.ok a, m') => eval (k a) m'
      | (.error why, m') => (.error why, m') := by
  simp only [eval, bind, ExceptT.bind, ExceptT.run, ExceptT.mk, StateT.bind, StateT.run]
  obtain ⟨why | a, m'⟩ := e m <;> rfl

def passAt (kind : Marker.Kind) (text : Text) (resolve : Nat → Text → Sequential σ Text) :
    Sequential σ Text := do
  let values ← ((Segment.markers (Marker.scan kind text)).mapIdx fun i m =>
    resolve i m.payload).mapM id
  return Segment.splice (Marker.scan kind text) values

theorem passAt_eq (kind : Marker.Kind) (text : Text) (g : Text → Sequential σ Text) :
    passAt kind text (fun _ => g) = pass kind text g := by
  have hmap : ((Segment.markers (Marker.scan kind text)).mapIdx fun _ m => g m.payload) =
      (Segment.markers (Marker.scan kind text)).map fun m => g m.payload :=
    List.ext_getElem (by simp) fun i _ _ => by simp
  rw [passAt, hmap, List.mapM_map]
  rfl

/--
The parts of a sequential rendering, for which it makes no difference where a document stands.
-/
def parts (h : Host σ) : Parts (Sequential σ Text) where
  done := pure
  halt := throw
  bind := bind
  pass _ _ := passAt
  name _ _ := name h
  command _ := command h
  identify _ path next := call h (.identify path) >>= next
  read _ _ := readFile h

theorem file_eq_parts (h : Host σ) (opts : Options) (place : Place) (source : Source)
    (chain : List Path) (nested : Path → List Path → Text → Sequential σ Text) (relative : Text) :
    file h opts source chain nested relative =
      (parts h).file opts.detectCycles place source chain nested relative := by
  unfold file Parts.file
  rfl

theorem document_eq_parts (h : Host σ) (opts : Options) (depth : Nat) (place : Place)
    (source : Source) (chain : List Path) (text : Text) :
    document h opts depth source chain text =
      (parts h).passes opts.detectCycles depth place source chain text := by
  induction depth generalizing place source chain text with
  | zero => rfl
  | succ depth ih =>
    have hfiles : (fun i => (parts h).file opts.detectCycles place source chain fun path =>
        (parts h).passes opts.detectCycles depth (place ++ [i]) (.file path)) =
          fun _ => file h opts source chain fun path => document h opts depth (.file path) := by
      funext i relative
      rw [file_eq_parts h opts place]
      refine congrArg (fun nested => (parts h).file _ place source chain nested relative) ?_
      funext path chain text
      exact (ih (place ++ [i]) (.file path) chain text).symm
    rw [Parts.passes, hfiles]
    simp only [document, Parts.document, parts, passAt_eq]

theorem render_eq_parts (h : Host σ) (opts : Options) (depth : Nat) (place : Place)
    (source : Source) (text : Text) :
    render h opts depth source text =
      (parts h).render opts.detectCycles depth place source text := by
  unfold render Parts.render
  simp only [document_eq_parts h opts depth place]
  rfl

end Sequential

def Host.Immediate (h : Host σ) : Prop := ∀ c s, (h c s).1.delay = 0

/-- Starting the plan comes at once to the end that the computation comes to. -/
def Computes (h : Host σ) (p : Plan) (e : Sequential σ Text) : Prop :=
  ∀ r : Run σ, ∃ r' : Run σ, Schedule.start h p r = (Strand.ended (e.eval r.memory).1, r') ∧
    r'.memory = (e.eval r.memory).2

namespace Computes

open Schedule

variable {h : Host σ}

theorem done (t : Text) : Computes h (.done t) (pure t) := fun r => ⟨r, rfl, rfl⟩

theorem halt (why : Halt) : Computes h (.halt why) (throw why) := fun r => ⟨r, rfl, rfl⟩

theorem note {place : Place} {n : Notice} {p : Plan} {e : Sequential σ Text}
    (hp : Computes h p e) : Computes h (.note place n p) e := by
  intro r
  obtain ⟨r', hs, hm⟩ := hp (r.record (.noted place n))
  rw [Run.memory_noted] at hs hm
  exact ⟨r', by rw [start, hs], hm⟩

theorem ask (hh : h.Immediate) {place : Place} {c : Call} {next : c.Answer → Plan}
    {k : c.Answer → Sequential σ Text} (hp : ∀ a, Computes h (next a) (k a)) :
    Computes h (.ask place c next) (Sequential.call h c >>= k) := by
  intro r
  obtain ⟨r', hs, hm⟩ := hp (h c r.host).1.answer
    ((r.begin h place c).2.arrive place c (h c r.host).1.remarks)
  rw [Run.memory_arrive, Run.memory_begin] at hs hm
  rw [Sequential.eval_bind, Sequential.eval_call]
  exact ⟨r', by rw [start_ask, if_pos (hh c r.host), hs]; rfl, hm⟩

theorem bind {p : Plan} {f : Text → Plan} {e : Sequential σ Text} {k : Text → Sequential σ Text}
    (hp : Computes h p e) (hf : ∀ t, Computes h (f t) (k t)) :
    Computes h (p.bind f) (e >>= k) := by
  intro r
  obtain ⟨r', hs, hm⟩ := hp r
  rw [start_bind, hs, Sequential.eval_bind]
  rcases hx : e.eval r.memory with ⟨why | t, m⟩
  · rw [hx] at hm
    exact ⟨r', rfl, hm⟩
  · rw [hx] at hm
    obtain rfl : r'.memory = m := hm
    exact hf t r'

/-- On a host without delay a sweep is a loop that ends with the first failure. -/
theorem sweep {α : Type} {as : List α} {ps : List Plan} {g : α → Sequential σ Text}
    (hps : List.Forall₂ (fun a p => Computes h p (g a)) as ps) (rule : JoinRule) (r : Run σ) :
    ∃ r' : Run σ, Schedule.sweep (start h) rule true ps r =
        ((Sequential.eval (as.mapM g) r.memory).1.map (List.map .finished), r') ∧
      r'.memory = (Sequential.eval (as.mapM g) r.memory).2 := by
  induction hps generalizing r with
  | nil => exact ⟨r, rfl, rfl⟩
  | @cons a p as ps ha _ ih =>
    -- A branch ends as soon as it starts, so that a failure finds a text in every earlier one.
    obtain ⟨r₁, hs₁, hm₁⟩ := ha r
    rw [Schedule.sweep, hs₁, List.mapM_cons, Sequential.eval_bind]
    rcases hx : (g a).eval r.memory with ⟨why | t, m₁⟩
    · rw [hx] at hm₁
      refine ⟨r₁, ?_, hm₁⟩
      cases rule <;> rfl
    · rw [hx] at hm₁
      obtain rfl : r₁.memory = m₁ := hm₁
      obtain ⟨r₂, hs₂, hm₂⟩ := ih r₁
      simp only [Strand.ended, ends?, Strand.isFinished, Bool.and_true, hs₂, Sequential.eval_bind]
      rcases hy : Sequential.eval (as.mapM g) r₁.memory with ⟨why | ts, m₂⟩
      all_goals
        rw [hy] at hm₂
        exact ⟨r₂, rfl, hm₂⟩

theorem join {α : Type} {as : List α} {ps : List Plan} {g : α → Sequential σ Text}
    {rule : JoinRule} {next : List Text → Plan} {k : List Text → Sequential σ Text}
    (hps : List.Forall₂ (fun a p => Computes h p (g a)) as ps)
    (hnext : ∀ ts, Computes h (next ts) (k ts)) :
    Computes h (.join rule ps next) (as.mapM g >>= k) := by
  intro r
  obtain ⟨r', hs, hm⟩ := sweep hps rule r
  rw [start_join, hs, Sequential.eval_bind]
  rcases hx : Sequential.eval (as.mapM g) r.memory with ⟨why | ts, m⟩
  · rw [hx] at hm
    exact ⟨r', rfl, hm⟩
  · rw [hx] at hm
    obtain rfl : r'.memory = m := hm
    have ht : Strand.texts? (ts.map .finished) = some ts := Strand.texts?_eq_some_iff.2 rfl
    simp only [Except.map, conclude, ht]
    exact hnext ts r'

theorem notes {place : Place} {ns : List Notice} {p : Plan} {e : Sequential σ Text}
    (hp : Computes h p e) : Computes h (.notes place ns p) e := by
  induction ns with
  | nil => exact hp
  | cons n ns ih => exact .note ih

theorem noteIf {opts : Options} {place : Place} {n : Notice} {p : Plan} {e : Sequential σ Text}
    (hp : Computes h p e) : Computes h (.noteIf opts place n p) e := by
  rw [Plan.noteIf_eq]
  exact .notes hp

theorem passWith {tell : Telling} {place : Place} {source : Source} {kind : Marker.Kind}
    {text : Text} {resolve : Nat → Text → Plan} {g : Nat → Text → Sequential σ Text}
    (hp : ∀ i payload, Computes h (resolve i payload) (g i payload)) :
    Computes h (.passWith tell place source kind text resolve)
      (Sequential.passAt kind text g) := by
  refine .notes (.join ?_ fun values => .done _)
  rw [Plan.branches, List.forall₂_iff_get]
  exact ⟨by simp, fun i _ _ => by simpa using hp i _⟩

theorem congruence (hh : h.Immediate) (tell : Telling) (opts : Options) :
    Parts.Congruence (Plan.parts tell opts) (Sequential.parts h) (fun _ => False)
      (fun _ => False) fun _ _ p e => Computes h p e where
  done text := .done text
  stops h := by
    cases h with
    | deep | cycle => exact .halt _
    | left h | right h => exact h.elim
  bind := .bind
  pass := .passWith
  name _ _ := .noteIf (.ask hh fun _ => .done _)
  command _ _ := by
    refine .noteIf (.ask hh fun answer => ?_)
    cases answer with
    | ok output => exact .done output
    | error failure => exact .halt _
  identify hnext := .ask hh hnext
  read hnext := by
    refine .noteIf (.ask hh fun answer => ?_)
    cases answer with
    | ok text => exact hnext text
    | error cause => exact .halt _
  inner := id

theorem render (hh : h.Immediate) (opts : Options) (depth : Nat) (place : Place) (source : Source)
    (text : Text) :
    Computes h (.render opts depth place source text)
      (Sequential.render h opts depth source text) := by
  rw [Plan.render_eq_parts, Sequential.render_eq_parts h opts depth place]
  exact (congruence hh (.strays opts) opts).related.render (.refl _ _ depth)

end Computes

/-- The second computation does what the first does, unless the first comes too deep. -/
def Deepens {α : Type} (e e' : Sequential σ α) : Prop :=
  ∀ m, (e.eval m).1 = .error .tooDeep ∨ e'.eval m = e.eval m

namespace Deepens

variable {α β : Type} {h : Host σ}

theorem refl (e : Sequential σ α) : Deepens e e := fun _ => .inr rfl

theorem tooDeep (e : Sequential σ α) : Deepens (throw .tooDeep) e := fun _ => .inl rfl

theorem bind {e e' : Sequential σ α} {k k' : α → Sequential σ β} (he : Deepens e e')
    (hk : ∀ a, Deepens (k a) (k' a)) : Deepens (e >>= k) (e' >>= k') := by
  intro m
  rw [Sequential.eval_bind, Sequential.eval_bind]
  rcases he m with hm | hm
  · rcases hx : e.eval m with ⟨why | a, m'⟩
    · obtain rfl : why = .tooDeep := by simpa [hx] using hm
      exact .inl rfl
    · simp [hx] at hm
  · rw [hm]
    rcases e.eval m with ⟨why | a, m'⟩
    · exact .inr rfl
    · exact hk a m'

theorem all {es es' : List (Sequential σ α)} (h : List.Forall₂ Deepens es es') :
    Deepens (es.mapM id) (es'.mapM id) := by
  induction h with
  | nil => exact refl _
  | cons he _ ih =>
    rw [List.mapM_cons, List.mapM_cons]
    exact he.bind fun _ => ih.bind fun _ => refl _

theorem passAt {kind : Marker.Kind} {text : Text} {g g' : Nat → Text → Sequential σ Text}
    (hg : ∀ i payload, Deepens (g i payload) (g' i payload)) :
    Deepens (Sequential.passAt kind text g) (Sequential.passAt kind text g') := by
  refine (all ?_).bind fun _ => refl _
  rw [List.forall₂_iff_get]
  exact ⟨by simp, fun i _ _ => by simpa using hg i _⟩

/-- The depth is all that makes a difference, and a greater one takes nothing away. -/
theorem congruence (h : Host σ) :
    Parts.Congruence (Sequential.parts h) (Sequential.parts h) (· = .tooDeep) (fun _ => False)
      fun _ _ e e' => Deepens e e' where
  done _ := refl _
  stops hstops := by
    cases hstops with
    | deep | cycle => exact refl _
    | left hwhy =>
      subst hwhy
      exact tooDeep _
    | right hwhy => exact hwhy.elim
  bind := bind
  pass := passAt
  name _ _ := refl _
  command _ _ := refl _
  identify hnext := (refl _).bind hnext
  read hnext := by
    refine (refl _).bind fun answer => ?_
    cases answer with
    | ok text => exact hnext text
    | error cause => exact refl _
  inner := id

theorem render {opts : Options} {depth depth' : Nat} (hd : depth ≤ depth') (source : Source)
    (text : Text) :
    Deepens (Sequential.render h opts depth source text)
      (Sequential.render h opts depth' source text) := by
  rw [Sequential.render_eq_parts h opts depth [], Sequential.render_eq_parts h opts depth' []]
  refine (congruence h).related.render fun chain => ⟨fun _ => rfl, ?_, ?_, ?_⟩
  · exact fun hlt => absurd hlt (Nat.not_lt.2 hd)
  · exact fun hne => absurd rfl hne
  · exact fun hsub => absurd (List.Subset.refl chain) hsub

end Deepens

/-- The end of a run that comes to the end of a computation. -/
def Schedule.Outcome.ofExcept : Except Halt Text → Outcome
  | .ok t => .text t
  | .error why => .halted why

theorem Computes.run {h : Host σ} {p : Plan} {e : Sequential σ Text} (hp : Computes h p e)
    (rounds : Nat) (r : Run σ) :
    Prod.map id Run.memory (Schedule.run h rounds p r) =
      Prod.map Schedule.Outcome.ofExcept id (e.eval r.memory) := by
  obtain ⟨r', hs, hm⟩ := hp r
  rw [Schedule.run, hs]
  rcases hx : e.eval r.memory with ⟨why | t, m⟩
  all_goals
    rw [hx] at hm
    obtain rfl : r'.memory = m := hm
    cases rounds <;> rfl

/--
Without delays a rendering ends as the sequential one does, after the same calls in the same order
and with the host in the same state. Where the sequential one does not come too deep, this is so
however much deeper documents may include one another.
-/
theorem run_eq_sequential {h : Host σ} (hh : h.Immediate) (opts : Options) (depth : Nat)
    (source : Source) (text : Text) (s : σ) :
    (∀ rounds, Prod.map id Run.memory
        (Schedule.run h rounds (Plan.render opts depth [] source text) ⟨s, 0, []⟩) =
      Prod.map .ofExcept id ((Sequential.render h opts depth source text).eval ⟨s, []⟩)) ∧
    (((Sequential.render h opts depth source text).eval ⟨s, []⟩).1 ≠ .error .tooDeep →
      ∀ depth' ≥ depth, ∀ rounds, Prod.map id Run.memory
        (Schedule.run h rounds (Plan.render opts depth' [] source text) ⟨s, 0, []⟩) =
      Prod.map .ofExcept id ((Sequential.render h opts depth source text).eval ⟨s, []⟩)) := by
  have hrun : ∀ depth rounds, Prod.map id Run.memory
      (Schedule.run h rounds (Plan.render opts depth [] source text) ⟨s, 0, []⟩) =
      Prod.map .ofExcept id ((Sequential.render h opts depth source text).eval ⟨s, []⟩) :=
    fun depth rounds => (Computes.render hh opts depth [] source text).run rounds ⟨s, 0, []⟩
  refine ⟨hrun depth, fun hdeep depth' hd rounds => ?_⟩
  rw [hrun, (Deepens.render hd source text _).resolve_left hdeep]

/-- A host that counts its calls, and whose commands fail from the eighth call on. -/
def Host.counting : Host Nat
  | .lookup _, n => (⟨some [Char.ofNat (48 + n)], 0, []⟩, n + 1)
  | .identify path, n => (⟨path, 0, []⟩, n + 1)
  | .read _, n => (⟨.ok "$((x))".toList, 0, []⟩, n + 1)
  | .readStdin, n => (⟨.error .invalidText, 0, []⟩, n + 1)
  | .execute command _, n =>
    (⟨if n < 7 then .ok [Char.ofNat (48 + n)] else .error (.commandFailed command [] []), 0, []⟩,
      n + 1)

/-- The second of three commands fails, and the third one is never started. -/
theorem run_eq_sequential_counting :
    Host.counting.Immediate ∧
    ((Sequential.render Host.counting {} 2 .stdin "$<<a>>$<<b>>$((c))$((d))$((e))".toList).eval
      ⟨0, []⟩).1 ≠ .error .tooDeep ∧
    ∀ depth ≥ 2, ∀ rounds, Prod.map id Run.memory (Schedule.run Host.counting rounds
        (Plan.render {} depth [] .stdin "$<<a>>$<<b>>$((c))$((d))$((e))".toList) ⟨0, 0, []⟩) =
      (.halted (.failed (.commandFailed ['d'] [] [])),
        ⟨8, [.identify ['a'], .read ['a'], .execute ['x'] ['.'], .identify ['b'], .read ['b'],
          .execute ['x'] ['.'], .execute ['c'] ['.'], .execute ['d'] ['.']]⟩) := by
  have hi : Host.counting.Immediate := by rintro (_ | _) _ <;> rfl
  have hs : (Sequential.render Host.counting {} 2 .stdin
      "$<<a>>$<<b>>$((c))$((d))$((e))".toList).eval ⟨0, []⟩ =
      (.error (.failed (.commandFailed ['d'] [] [])),
        ⟨8, [.identify ['a'], .read ['a'], .execute ['x'] ['.'], .identify ['b'], .read ['b'],
          .execute ['x'] ['.'], .execute ['c'] ['.'], .execute ['d'] ['.']]⟩) := by
    decide +kernel
  have hdeep : ((Sequential.render Host.counting {} 2 .stdin
      "$<<a>>$<<b>>$((c))$((d))$((e))".toList).eval ⟨0, []⟩).1 ≠ .error .tooDeep := by
    rw [hs]
    decide
  refine ⟨hi, hdeep, fun depth hd rounds => ?_⟩
  rw [(run_eq_sequential hi {} 2 .stdin _ 0).2 hdeep depth hd rounds, hs]
  rfl

end Inlay
