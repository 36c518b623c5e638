import Inlay.Proofs.Plan.Ending
import Inlay.Proofs.Rendering.Passes

namespace Inlay

variable {σ : Type}

/-- The rendering ends with a text after the calls, once its run is given rounds enough. -/
def Renders (h : Host σ) (opts : Options) (depth : Nat) (source : Source) (text : Text) (s : σ)
    (t : Text) (calls : List Call) : Prop :=
  ∃ rounds r, Schedule.run h rounds (Plan.render opts depth [] source text) ⟨s, 0, []⟩ =
    (.text t, r) ∧ r.calls = calls

/-- The rendering ends without a text, once its run is given rounds enough. -/
def Refuses (h : Host σ) (opts : Options) (depth : Nat) (source : Source) (text : Text) (s : σ)
    (why : Halt) : Prop :=
  ∃ rounds r, Schedule.run h rounds (Plan.render opts depth [] source text) ⟨s, 0, []⟩ =
    (.halted why, r)

/-- What is asked for before the passes over a document begin. -/
def Options.naming (opts : Options) (source : Source) : List Call :=
  match opts.detectCycles, source.path? with
  | true, some path => [.identify path]
  | _, _ => []

theorem Plan.render_cases (opts : Options) (source : Source) :
    (∃ path, opts.naming source = [.identify path] ∧ ∀ depth place text,
      render opts depth place source text = ask place (.identify path) fun (identity : Path) =>
        passes opts depth place source [identity] text) ∨
    (opts.naming source = [] ∧ ∀ depth place text,
      render opts depth place source text = passes opts depth place source [] text) := by
  simp only [Options.naming, render]
  cases opts.detectCycles with
  | false => exact .inr ⟨rfl, fun _ _ _ => rfl⟩
  | true =>
    cases source with
    | stdin => exact .inr ⟨rfl, fun _ _ _ => rfl⟩
    | file path => exact .inl ⟨path, rfl, fun _ _ _ => rfl⟩

variable {h : Host σ} {opts : Options} {depth : Nat} {source : Source} {text t : Text} {s : σ}

theorem Renders.yields {A : Answering} (hA : h.Keeps A) {calls : List Call}
    (hr : Renders h opts depth source text s t calls) :
    (Plan.render opts depth [] source text).Yields A t calls := by
  obtain ⟨n, r, hrun, rfl⟩ := hr
  obtain ⟨cs, hcs, hcalls⟩ := Schedule.yields_of_run hA hrun
  exact hcs.of_eq (by rw [hcalls]; exact (zero_add cs).symm)

theorem exists_renders_iff {f : Oracle} (hf : h.Follows f) :
    (∃ calls, Renders h opts depth source text s t calls) ↔
      ∃ cs, (Plan.render opts depth [] source text).Yields f.only t cs := by
  constructor
  · rintro ⟨calls, hr⟩
    exact ⟨calls, hr.yields hf.keeps⟩
  · rintro ⟨cs, hcs⟩
    obtain ⟨n, r, hrun⟩ := Schedule.run_text_of_yields hf hcs ⟨s, 0, []⟩
    exact ⟨r.calls, n, r, hrun, rfl⟩

variable {A : Answering} {E : Event → Prop} {H : Halt → Prop}

theorem Refuses.of_safe (hA : h.Keeps A)
    (hsafe : (Plan.render opts depth [] source text).Safe A E H) {why : Halt}
    (hr : Refuses h opts depth source text s why) : H why := by
  obtain ⟨rounds, r, hrun⟩ := hr
  exact Schedule.halted_of_keeps hA hrun hsafe

theorem Event.of_safe (hA : h.Keeps A)
    (hsafe : (Plan.render opts depth [] source text).Safe A E H) {rounds : Nat} {e : Event}
    (he : e ∈ (Schedule.run h rounds (Plan.render opts depth [] source text) ⟨s, 0, []⟩).2.events)
    (hown : e.isOwn = true) : E e := by
  obtain ⟨n, es, t, hsteps, hes, -⟩ := Schedule.run_steps hA rounds
    (Plan.render opts depth [] source text) ⟨s, 0, []⟩
  have hmem : e ∈ es := by
    rw [hes] at he
    simpa [Run.events, Run.journal] using he
  exact (hsteps.safe hsafe).2 e hmem hown

theorem renders_or_refuses (h : Host σ) (opts : Options) (depth : Nat) (source : Source)
    (text : Text) (s : σ) :
    (∃ t calls, Renders h opts depth source text s t calls) ∨
      ∃ why, Refuses h opts depth source text s why := by
  obtain ⟨rounds, hends⟩ := Schedule.run_ends h (Plan.render opts depth [] source text) ⟨s, 0, []⟩
  cases hrun : Schedule.run h rounds (Plan.render opts depth [] source text) ⟨s, 0, []⟩ with
  | mk outcome r =>
    rw [hrun] at hends
    cases outcome with
    | text t => exact .inl ⟨t, r.calls, rounds, r, hrun, rfl⟩
    | halted why => exact .inr ⟨why, rounds, r, hrun⟩
    | unfinished => exact absurd rfl hends

namespace Oracle

/-- A host with an oracle's answers. How long one takes depends on the calls made before as well. -/
def host (f : Oracle) (delay : Nat → Call → Nat) : Host Nat :=
  fun c n => (⟨f c, delay n c, []⟩, n + 1)

theorem host_follows (f : Oracle) (delay : Nat → Call → Nat) : (f.host delay).Follows f :=
  fun _ _ => rfl

/-- The files of a table; a variable holds its own name, and a command says itself. -/
def ofFiles (files : List (Path × Text)) : Oracle
  | .lookup name => some name
  | .identify path => path
  | .read path =>
    match files.find? (Path.same path ·.1) with
    | some (_, text) => .ok text
    | none => .error (.system .noEntry)
  | .readStdin => .error (.system .noEntry)
  | .execute command _ => .ok command

end Oracle

/--
Two hosts with the same answers, which may come in any order, give a document the same texts, and
have the same calls made for them. How deeply documents may include one another makes no difference
to either, once it suffices.
-/
theorem renders_iff_of_follows {σ₁ σ₂ : Type} {h₁ : Host σ₁} {h₂ : Host σ₂} {f : Oracle}
    (hf₁ : h₁.Follows f) (hf₂ : h₂.Follows f) (opts : Options) (source : Source) (text : Text)
    (s₁ : σ₁) (s₂ : σ₂) :
    (∀ depth t, (∃ calls, Renders h₁ opts depth source text s₁ t calls) ↔
      ∃ calls, Renders h₂ opts depth source text s₂ t calls) ∧
    ∀ depth₁ depth₂ t₁ t₂ calls₁ calls₂, Renders h₁ opts depth₁ source text s₁ t₁ calls₁ →
      Renders h₂ opts depth₂ source text s₂ t₂ calls₂ → t₁ = t₂ ∧ calls₁.Perm calls₂ := by
  refine ⟨fun depth t => ?_, fun depth₁ depth₂ t₁ t₂ calls₁ calls₂ hr₁ hr₂ => ?_⟩
  · rw [exists_renders_iff hf₁, exists_renders_iff hf₂]
  · have hy₁ := (hr₁.yields hf₁.keeps).render_of_le (le_max_left depth₁ depth₂)
    have hy₂ := (hr₂.yields hf₂.keeps).render_of_le (le_max_right depth₁ depth₂)
    obtain ⟨ht, hcs⟩ := hy₁.unique hy₂
    exact ⟨ht, Multiset.coe_eq_coe.1 hcs⟩

/-- One document that runs a command, and another that includes it. -/
def Oracle.nest : Oracle :=
  ofFiles [(['b'], "B$((x))".toList), (['c'], "C$<<b>>".toList)]

/-- The answers that come later to earlier calls change the order of the calls and nothing else. -/
theorem renders_nest_late :
    (Oracle.nest.host fun _ _ => 0).Follows Oracle.nest ∧
    (Oracle.nest.host fun n _ => 10 - n).Follows Oracle.nest ∧
    ∃ calls, Renders (Oracle.nest.host fun n _ => 10 - n) {} 4 .stdin "1$<<c>>2$<<b>>3".toList 0
        "1CBx\n2Bx\n3\n".toList calls ∧
      calls.Perm [.identify ['c'], .read ['c'], .identify ['b'], .read ['b'], .execute ['x'] ['.'],
        .identify ['b'], .read ['b'], .execute ['x'] ['.']] := by
  have hprompt : Renders (Oracle.nest.host fun _ _ => 0) {} 3 .stdin "1$<<c>>2$<<b>>3".toList 0
      "1CBx\n2Bx\n3\n".toList [.identify ['c'], .read ['c'], .identify ['b'], .read ['b'],
        .execute ['x'] ['.'], .identify ['b'], .read ['b'], .execute ['x'] ['.']] :=
    ⟨0, _, Prod.ext (by decide +kernel) rfl, by decide +kernel⟩
  have hdeep : ∃ calls, Renders (Oracle.nest.host fun _ _ => 0) {} 4 .stdin
      "1$<<c>>2$<<b>>3".toList 0 "1CBx\n2Bx\n3\n".toList calls :=
    ⟨_, 0, _, Prod.ext (by decide +kernel) rfl, rfl⟩
  obtain ⟨hiff, huniq⟩ := renders_iff_of_follows (Oracle.host_follows Oracle.nest fun _ _ => 0)
    (Oracle.host_follows Oracle.nest fun n _ => 10 - n) {} .stdin "1$<<c>>2$<<b>>3".toList 0 0
  obtain ⟨calls, hlate⟩ := (hiff 4 _).1 hdeep
  exact ⟨Oracle.host_follows _ _, Oracle.host_follows _ _, calls, hlate,
    (huniq 3 4 _ _ _ _ hprompt hlate).2.symm⟩

end Inlay
