import Inlay.Proofs.Rendering.Race
import Inlay.Proofs.Text.Line

namespace Inlay

variable {σ : Type}

namespace Plan

/-- The passes over a document, where the text of every include goes through a screen. -/
def passesScreened (screen : Text → Plan) (opts : Options) :
    (depth : Nat) → Place → Source → List Path → Text → Plan
  | 0, _, _, _, _ => halt .tooDeep
  | depth + 1, place, source, chain, text =>
    (pass opts place source .lookup text fun _ name =>
      resolveName opts place source name).bind fun text =>
    (pass opts place source .inclusion text fun i relative =>
      (resolveFile opts place source chain
        (fun path chain text =>
          passesScreened screen opts depth (place ++ [i]) (.file path) chain text)
        relative).bind screen).bind fun text =>
    (pass opts place source .command text fun _ command =>
      resolveCommand opts place source command).bind fun text =>
    done text.closeLine

/--
A rendering that has what every include comes to go through a screen before it is set in place.
-/
def renderScreened (screen : Text → Plan) (opts : Options) (depth : Nat) (place : Place)
    (source : Source) (text : Text) : Plan :=
  match opts.detectCycles, source.path? with
  | true, some path => ask place (.identify path) fun (identity : Path) =>
      passesScreened screen opts depth place source [identity] text
  | _, _ => passesScreened screen opts depth place source [] text

variable {opts : Options} {place : Place} {source : Source} {screen : Text → Plan}

theorem readFile_bind (path : Path) (nested : Text → Plan) (g : Text → Plan) :
    (readFile opts place source path nested).bind g =
      readFile opts place source path fun text => (nested text).bind g := by
  rw [readFile, readFile, noteIf_eq, noteIf_eq, bind_notes]
  apply congrArg (notes place _)
  apply congrArg (ask place (.read path))
  funext answer
  rcases answer with cause | text <;> rfl

theorem resolveFile_bind (chain : List Path) (nested : Path → List Path → Text → Plan)
    (relative : Text) (g : Text → Plan) :
    (resolveFile opts place source chain nested relative).bind g =
      resolveFile opts place source chain (fun path chain text => (nested path chain text).bind g)
        relative := by
  cases hopts : opts.detectCycles with
  | false => rw [resolveFile_unchecked hopts, resolveFile_unchecked hopts, readFile_bind]
  | true =>
    rw [resolveFile_checked hopts, resolveFile_checked hopts]
    apply congrArg (ask place (.identify (source.resolve relative)))
    funext identity
    dsimp only
    split
    · rfl
    · exact readFile_bind ..

/-- A screen that lets closed texts through lets every document through. -/
theorem passes_bind (hscreen : ∀ t, t.Closed → screen t = done t) (depth : Nat)
    (chain : List Path) (text : Text) :
    (passes opts depth place source chain text).bind screen =
      passes opts depth place source chain text := by
  cases depth with
  | zero => rfl
  | succ depth =>
    have hend : ∀ t : Text, (done t.closeLine).bind screen = done t.closeLine := fun t =>
      hscreen _ t.closed_closeLine
    simp only [passes_succ, bind_assoc, hend]

/--
Behind such a screen the includes are what they are without it, and so the document is as well.
-/
theorem passesScreened_eq (hscreen : ∀ t, t.Closed → screen t = done t) (depth : Nat)
    (place : Place) (source : Source) (chain : List Path) (text : Text) :
    passesScreened screen opts depth place source chain text =
      passes opts depth place source chain text := by
  induction depth generalizing place source chain text with
  | zero => rfl
  | succ depth ih =>
    simp only [passesScreened, passes, resolveFile_bind, ih, passes_bind hscreen]

theorem renderScreened_eq (hscreen : ∀ t, t.Closed → screen t = done t) (opts : Options)
    (depth : Nat) (place : Place) (source : Source) (text : Text) :
    renderScreened screen opts depth place source text =
      render opts depth place source text := by
  unfold renderScreened render
  cases opts.detectCycles with
  | false => exact passesScreened_eq hscreen ..
  | true =>
    cases source.path? with
    | none => exact passesScreened_eq hscreen ..
    | some path =>
      apply congrArg (ask place (.identify path))
      funext identity
      exact passesScreened_eq hscreen ..

variable {A : Answering} {depth : Nat} {text t : Text} {cs : Multiset Call}

theorem Yields.closed_of_passes {chain : List Path}
    (h : Yields A (passes opts depth place source chain text) t cs) : t.Closed := by
  cases depth with
  | zero => cases h
  | succ depth =>
    rw [passes_succ] at h
    obtain ⟨filled, -, cs₁, -, h, -⟩ := yields_bind_iff.1 h
    obtain ⟨printed, -, cs₂, -, h, -⟩ := yields_bind_iff.1 h
    cases h
    exact Text.closed_closeLine printed

theorem Yields.closed_of_render (h : Yields A (render opts depth place source text) t cs) :
    t.Closed := by
  rcases render_cases opts source with ⟨path, -, hrender⟩ | ⟨-, hrender⟩
  · rw [hrender] at h
    obtain ⟨identity, cs', -, h, -⟩ := yields_ask_iff.1 h
    exact h.closed_of_passes
  · rw [hrender] at h
    exact h.closed_of_passes

end Plan

namespace Schedule

theorem run_passes_of_closed (h : Host σ) (opts : Options) (depth : Nat) (source : Source)
    (chain : List Path) {t : Text} (hclosed : t.Closed)
    (hplain : ∀ kind, Segment.markers (Marker.scan kind t) = []) (r : Run σ) :
    ∃ r', (∀ rounds, run h rounds (.passes opts (depth + 1) [] source chain t) r =
      (.text t, r')) ∧ r'.calls = r.calls := by
  obtain ⟨r₁, hnames, -, hcalls₁⟩ := start_pass_nil h opts [] source (hplain .lookup)
    (fun _ name => .resolveName opts [] source name) r
  obtain ⟨r₂, hincludes, -, hcalls₂⟩ := start_pass_nil h opts [] source (hplain .inclusion)
    (fun i relative => .resolveFile opts [] source chain
      (fun path => .passes opts depth ([] ++ [i]) (.file path)) relative) r₁
  obtain ⟨r₃, hcommands, -, hcalls₃⟩ := start_pass_nil h opts [] source (hplain .command)
    (fun _ command => .resolveCommand opts [] source command) r₂
  refine ⟨r₃, fun rounds => ?_, hcalls₃.trans (hcalls₂.trans hcalls₁)⟩
  calc run h rounds (.passes opts (depth + 1) [] source chain t) r
      = run h rounds _ r₁ := run_bind hnames _ rounds
    _ = run h rounds _ r₂ := run_bind hincludes _ rounds
    _ = run h rounds (.done t.closeLine) r₃ := run_bind hcommands _ rounds
    _ = (.text t, r₃) := by
        rw [hclosed.closeLine_eq]
        cases rounds <;> rfl

end Schedule

/-- A closed text without markers is rendered as it is, after it has been named and nothing more. -/
theorem renders_of_closed (h : Host σ) (opts : Options) (depth : Nat) (source : Source) {t : Text}
    (hclosed : t.Closed) (hplain : ∀ kind, Segment.markers (Marker.scan kind t) = []) (s : σ) :
    Renders h opts (depth + 1) source t s t (opts.naming source) := by
  obtain ⟨extra, chain, r, hrender, -, hcalls, -⟩ :=
    Schedule.run_render h opts (depth + 1) source t s
  obtain ⟨r', hpasses, hcalls'⟩ :=
    Schedule.run_passes_of_closed h opts depth source chain hclosed hplain r
  exact ⟨0 + extra, r', (hrender 0).trans (hpasses 0), hcalls'.trans hcalls⟩

/--
What a rendering comes to is settled. Its text is closed, which is to say that the rule for the end
of a document, by which nothing but the newlines at the end can change, leaves it as it is. So is
the text of every include at any depth: a screen before it that lets closed texts through, even one
that halts at all others, leaves the rendering the same plan. And if no marker is left in a closed
text, then every rendering of it, on any host, comes to the text itself and asks for nothing but the
name of the document.
-/
theorem render_settles (h : Host σ) (opts : Options) (depth rounds : Nat) (source : Source)
    (text : Text) (s : σ) :
    (∀ t : Text, t.closeLine = t ↔ t.Closed) ∧
    (∀ t : Text, ∃ body newlines newlines', t = body ++ newlines ∧
      t.closeLine = body ++ newlines' ∧ body.getLast? ≠ some '\n' ∧
      (∀ c ∈ newlines, c = '\n') ∧ ∀ c ∈ newlines', c = '\n') ∧
    (∀ screen : Text → Plan, (∀ t, t.Closed → screen t = .done t) →
      Plan.renderScreened screen opts depth [] source text =
        Plan.render opts depth [] source text) ∧
    (∀ t r, Schedule.run h rounds (Plan.render opts depth [] source text) ⟨s, 0, []⟩ =
      (.text t, r) → t.Closed) ∧
    ∀ t : Text, t.Closed → (∀ kind, Segment.markers (Marker.scan kind t) = []) →
      ∀ {σ' : Type} (h' : Host σ') (opts' : Options) (depth' : Nat) (source' : Source) (s' : σ'),
        Renders h' opts' (depth' + 1) source' t s' t (opts'.naming source') ∧
          ∀ c ∈ opts'.naming source', ∃ path, c = .identify path := by
  refine ⟨fun t => Text.closeLine_eq_self_iff, Text.exists_closeLine_eq_append,
    fun screen hscreen => Plan.renderScreened_eq hscreen opts depth [] source text,
    fun t r hrun => ?_, fun t hclosed hplain _ h' opts' depth' source' s' => ⟨?_, fun c hc => ?_⟩⟩
  · obtain ⟨cs, hyields, -⟩ := Schedule.yields_of_run h.keeps_allows hrun
    exact hyields.closed_of_render
  · exact renders_of_closed h' opts' depth' source' hclosed hplain s'
  · rcases Plan.render_cases opts' source' with ⟨path, hnaming, -⟩ | ⟨hnaming, -⟩
    · rw [hnaming] at hc
      exact ⟨path, List.mem_singleton.1 hc⟩
    · rw [hnaming] at hc
      cases hc

/-- The opener of a command that never closes stays in the text, and a second rendering keeps it. -/
theorem render_settles_stray :
    (∃ r, Schedule.run (Oracle.nest.host fun n _ => 10 - n) 9 (Plan.renderScreened
        (fun t => if t.closeLine = t then .done t else .halt .tooDeep) {} 3 [] .stdin
        "$((1$<<c>>\n\n".toList) ⟨0, 0, []⟩ = (.text "$((1CBx\n".toList, r)) ∧
    Renders (Oracle.nest.host fun _ _ => 0) {} 1 (.file ['d']) "$((1CBx\n".toList 0
      "$((1CBx\n".toList [.identify ['d']] := by
  obtain ⟨hfixed, -, hscreened, hcloses, hagain⟩ := render_settles
    (Oracle.nest.host fun n _ => 10 - n) {} 3 9 .stdin "$((1$<<c>>\n\n".toList 0
  have hscreen : ∀ t : Text, t.Closed →
      (if t.closeLine = t then .done t else .halt .tooDeep : Plan) = .done t := fun t ht =>
    if_pos ((hfixed t).2 ht)
  have hrun : Schedule.run (Oracle.nest.host fun n _ => 10 - n) 9
      (Plan.render {} 3 [] .stdin "$((1$<<c>>\n\n".toList) ⟨0, 0, []⟩ =
        (.text "$((1CBx\n".toList, _) := Prod.ext (by decide +kernel) rfl
  have hplain : ∀ kind, Segment.markers (Marker.scan kind "$((1CBx\n".toList) = [] := by
    rintro (_ | _ | _) <;> decide +kernel
  refine ⟨⟨_, (congrArg (Schedule.run _ 9 · ⟨0, 0, []⟩) (hscreened _ hscreen)).trans hrun⟩, ?_⟩
  exact (hagain _ (hcloses _ _ hrun) hplain (Oracle.nest.host fun _ _ => 0) {} 0 (.file ['d']) 0).1

end Inlay
