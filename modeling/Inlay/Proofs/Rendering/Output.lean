import Inlay.Proofs.Rendering.Outcome
import Inlay.Proofs.Rendering.Parallel

namespace Inlay

variable {σ₁ σ₂ : Type}

namespace Comparison

/-- Commands may print anything, and only what is asked for besides is compared. -/
def queries (left : Side σ₁) (right : Side σ₂)
    (agrees : left.host.Agrees left.state right.host right.state) : Comparison σ₁ σ₂ where
  left := left
  right := right
  agrees := agrees
  watched _ := false
  heard _ := false
  heard_append _ _ := rfl
  watched_of_heard := id
  outputs := []

/-- The commands of a document are compared, where those of what it includes print the same. -/
def document (left : Side σ₁) (right : Side σ₂)
    (agrees : left.host.Agrees left.state right.host right.state) (place : Place)
    (outputs : List Text) : Comparison σ₁ σ₂ where
  left := left
  right := right
  agrees := agrees
  watched := place.within
  heard := place.below
  heard_append := place.below_append
  watched_of_heard := Place.within_of_below
  outputs := outputs

end Comparison

/-- Two files with a command each. One command prints what it is told, any other its own text. -/
def Oracle.printing (output : Text) : Oracle
  | .execute command _ => .ok (if command = ['x'] then output else command)
  | c => ofFiles [(['b'], "$((x))".toList), (['c'], "$((z))".toList)] c

def Host.printing (output : Text) : Host Nat := (Oracle.printing output).host fun _ _ => 0

theorem Host.printing_immediate (output : Text) : (Host.printing output).Immediate :=
  fun _ _ => rfl

theorem Host.printing_agrees (output₁ output₂ : Text) :
    (Host.printing output₁).Agrees 0 (Host.printing output₂) 0 := by
  intro _ _ _ c hc
  cases c with
  | execute command directory => cases hc
  | lookup | identify | read | readStdin => rfl

theorem Host.printing_succeeds (output : Text) (requests : List Request) :
    (Host.printing output).Succeeds 0 requests := by
  intro command directory answer htells
  exact ⟨_, ((Oracle.printing output).host_follows fun _ _ => 0).keeps.of_tells htells⟩

/-- The rendering of a text from standard input in which the command prints what it is told. -/
def Schedule.printing (output text : Text) : Outcome × Run Nat :=
  run (Host.printing output) 0 (Plan.render {} 2 [] .stdin text) ⟨0, 0, []⟩

theorem Schedule.run_printing (output text : Text) :
    run (Host.printing output) 0 (Plan.render {} 2 [] .stdin text) ⟨0, 0, []⟩ =
      ((printing output text).1, (printing output text).2) := rfl

variable {h₁ : Host σ₁} {h₂ : Host σ₂} {s₁ : σ₁} {s₂ : σ₂} {opts : Options}
  {depth rounds₁ rounds₂ : Nat} {source : Source} {text : Text} {o₁ o₂ : Schedule.Outcome}
  {r₁ : Run σ₁} {r₂ : Run σ₂}

/--
On hosts without delay that know the same variables and files, and as long as commands succeed, what
they print decides neither which variables and files a rendering asks for nor whether it comes to a
text. If both renderings fail they do so for the same reason, and it is none that a command gives.
-/
theorem queries_eq_of_agrees (hi₁ : h₁.Immediate) (hi₂ : h₂.Immediate)
    (hagrees : h₁.Agrees s₁ h₂ s₂)
    (hrun₁ : Schedule.run h₁ rounds₁ (Plan.render opts depth [] source text) ⟨s₁, 0, []⟩ = (o₁, r₁))
    (hrun₂ : Schedule.run h₂ rounds₂ (Plan.render opts depth [] source text) ⟨s₂, 0, []⟩ = (o₂, r₂))
    (hok₁ : h₁.Succeeds s₁ r₁.requests) (hok₂ : h₂.Succeeds s₂ r₂.requests) :
    r₁.calls.filter (!·.isCommand) = r₂.calls.filter (!·.isCommand) ∧
    ((∃ t₁ t₂, o₁ = .text t₁ ∧ o₂ = .text t₂) ∨
      ∃ why, o₁ = .halted why ∧ o₂ = .halted why ∧
        ((∃ path cause, why = .failed (.unreadable path cause)) ∨
          (∃ chain, why = .failed (.cycle chain)) ∨ why = .tooDeep)) := by
  have hsilent : ∀ es, Exchange.printed (fun _ => false) es <+: [] := by
    intro es
    simp [Exchange.printed]
  obtain ⟨hlevel, hends⟩ :=
    (Comparison.Parallels.render (k := .queries ⟨h₁, s₁, hi₁⟩ ⟨h₂, s₂, hi₂⟩ hagrees) opts depth []
      source text).run hrun₁ hrun₂ ⟨hok₁, hsilent _⟩ ⟨hok₂, hsilent _⟩
  refine ⟨hlevel.filter_calls, ?_⟩
  rcases hends with ⟨t₁, t₂, ho₁, ho₂, -⟩ | ⟨why, hwhy, ho₁, ho₂⟩
  · exact .inl ⟨t₁, t₂, ho₁, ho₂⟩
  · refine .inr ⟨why, ho₁, ho₂, ?_⟩
    cases hwhy with
    | unreadable path cause => exact .inl ⟨path, cause, rfl⟩
    | cycle chain => exact .inr (.inl ⟨chain, rfl⟩)
    | tooDeep => exact .inr (.inr rfl)

/-- Output that looks like an include of a file stays in the text, and the file is not read. -/
theorem queries_eq_of_agrees_printing :
    (Schedule.printing "$<<c>>$((y))".toList "$<<b>>".toList).1 = .text "$<<c>>y\n".toList ∧
    (Schedule.printing "$<<c>>$((y))".toList "$<<b>>".toList).2.calls.filter (!·.isCommand) =
      (Schedule.printing ['x'] "$<<b>>".toList).2.calls.filter (!·.isCommand) :=
  ⟨by decide +kernel,
    (queries_eq_of_agrees (Host.printing_immediate _) (Host.printing_immediate _)
      (Host.printing_agrees _ _) (Schedule.run_printing _ _) (Schedule.run_printing _ _)
      (Host.printing_succeeds _ _) (Host.printing_succeeds _ _)).1⟩

/--
As long as the commands of whatever a document includes print the same on both sides, the document
and all that it includes run the same commands in the same order, whatever its own commands print.
The top document then has the same text before its commands on both sides, and both texts in the end
are this one with what the commands have printed set in their places as it is.
-/
theorem commands_eq_of_printed (hi₁ : h₁.Immediate) (hi₂ : h₂.Immediate)
    (hagrees : h₁.Agrees s₁ h₂ s₂)
    (hrun₁ : Schedule.run h₁ rounds₁ (Plan.render opts depth [] source text) ⟨s₁, 0, []⟩ = (o₁, r₁))
    (hrun₂ : Schedule.run h₂ rounds₂ (Plan.render opts depth [] source text) ⟨s₂, 0, []⟩ = (o₂, r₂))
    (hok₁ : h₁.Succeeds s₁ r₁.requests) (hok₂ : h₂.Succeeds s₂ r₂.requests) {place : Place}
    (hprinted : Exchange.printed place.below (h₁.dialogue s₁ r₁.requests) =
      Exchange.printed place.below (h₂.dialogue s₂ r₂.requests)) :
    r₁.requests.filter (fun request => request.2.isCommand && place.within request.1) =
      r₂.requests.filter (fun request => request.2.isCommand && place.within request.1) ∧
    (place = [] → ∀ t₁ t₂, o₁ = .text t₁ → o₂ = .text t₂ → ∃ before,
      h₁.Completes s₁ r₁.requests [] source before t₁ ∧
      h₂.Completes s₂ r₂.requests [] source before t₂) := by
  have hleft : (Side.mk h₁ s₁ hi₁).Keeps place.below
      (Exchange.printed place.below (h₁.dialogue s₁ r₁.requests)) r₁.requests :=
    ⟨hok₁, List.prefix_rfl⟩
  have hright : (Side.mk h₂ s₂ hi₂).Keeps place.below
      (Exchange.printed place.below (h₁.dialogue s₁ r₁.requests)) r₂.requests :=
    ⟨hok₂, hprinted ▸ List.prefix_rfl⟩
  obtain ⟨hlevel, hends⟩ :=
    (Comparison.Parallels.render (k := .document ⟨h₁, s₁, hi₁⟩ ⟨h₂, s₂, hi₂⟩ hagrees place _) opts
      depth [] source text).run hrun₁ hrun₂ hleft hright
  refine ⟨hlevel.filter_commands, ?_⟩
  rintro rfl t₁ t₂ rfl rfl
  rcases hends with ⟨_, _, ⟨⟩, ⟨⟩, hstart₁, hstart₂⟩ | ⟨why, -, ho₁, -⟩
  · obtain ⟨chain, r₁', r₂', hlevel', hpasses₁, hpasses₂⟩ :=
      (Comparison.level_start _).exists_start_render opts depth [] source text
    obtain ⟨before, _, hbefore, hcompletes₁, hcompletes₂⟩ :=
      hlevel'.exists_completes (hpasses₁.symm.trans hstart₁) (hpasses₂.symm.trans hstart₂)
        hleft hright
    obtain rfl := hbefore rfl
    exact ⟨before, hcompletes₁, hcompletes₂⟩
  · cases ho₁

/--
Where the command of an included document prints another one, the document that includes it runs
that one too.
-/
theorem not_commands_eq_of_agrees :
    ¬ ∀ (h₁ h₂ : Host Nat) (s₁ s₂ : Nat) (opts : Options) (depth rounds₁ rounds₂ : Nat)
      (source : Source) (text : Text) (o₁ o₂ : Schedule.Outcome) (r₁ r₂ : Run Nat),
      h₁.Immediate → h₂.Immediate → h₁.Agrees s₁ h₂ s₂ →
      Schedule.run h₁ rounds₁ (Plan.render opts depth [] source text) ⟨s₁, 0, []⟩ = (o₁, r₁) →
      Schedule.run h₂ rounds₂ (Plan.render opts depth [] source text) ⟨s₂, 0, []⟩ = (o₂, r₂) →
      h₁.Succeeds s₁ r₁.requests → h₂.Succeeds s₂ r₂.requests →
      r₁.calls.filter (·.isCommand) = r₂.calls.filter (·.isCommand) := by
  intro hall
  have heq := hall _ _ 0 0 {} 2 0 0 .stdin "$<<b>>".toList _ _ _ _ (Host.printing_immediate ['x'])
    (Host.printing_immediate "$((y))".toList) (Host.printing_agrees _ _)
    (Schedule.run_printing _ _) (Schedule.run_printing _ _) (Host.printing_succeeds _ _)
    (Host.printing_succeeds _ _)
  have hne : (Schedule.printing ['x'] "$<<b>>".toList).2.calls.filter (·.isCommand) ≠
      (Schedule.printing "$((y))".toList "$<<b>>".toList).2.calls.filter (·.isCommand) := by
    decide +kernel
  exact hne heq

/-- What a command of the top document prints is in its text as it is, though it looks like one. -/
theorem commands_eq_of_printed_printing :
    (Schedule.printing ['x'] "$<<c>>$((x))".toList).1 = .text "z\nx\n".toList ∧
    (Schedule.printing "$((y))".toList "$<<c>>$((x))".toList).1 = .text "z\n$((y))\n".toList ∧
    (Schedule.printing ['x'] "$<<c>>$((x))".toList).2.requests.filter
        (fun request => request.2.isCommand && Place.within [] request.1) =
      (Schedule.printing "$((y))".toList "$<<c>>$((x))".toList).2.requests.filter
        (fun request => request.2.isCommand && Place.within [] request.1) ∧
    ∃ before,
      (Host.printing ['x']).Completes 0
        (Schedule.printing ['x'] "$<<c>>$((x))".toList).2.requests [] .stdin before
        "z\nx\n".toList ∧
      (Host.printing "$((y))".toList).Completes 0
        (Schedule.printing "$((y))".toList "$<<c>>$((x))".toList).2.requests [] .stdin before
        "z\n$((y))\n".toList := by
  have hends₁ : (Schedule.printing ['x'] "$<<c>>$((x))".toList).1 = .text "z\nx\n".toList := by
    decide +kernel
  have hends₂ : (Schedule.printing "$((y))".toList "$<<c>>$((x))".toList).1 =
      .text "z\n$((y))\n".toList := by
    decide +kernel
  have hprinted : Exchange.printed (Place.below []) ((Host.printing ['x']).dialogue 0
      (Schedule.printing ['x'] "$<<c>>$((x))".toList).2.requests) =
      Exchange.printed (Place.below []) ((Host.printing "$((y))".toList).dialogue 0
        (Schedule.printing "$((y))".toList "$<<c>>$((x))".toList).2.requests) := by
    decide +kernel
  obtain ⟨hcommands, hcompletes⟩ := commands_eq_of_printed (Host.printing_immediate _)
    (Host.printing_immediate _) (Host.printing_agrees _ _) (Schedule.run_printing _ _)
    (Schedule.run_printing _ _) (Host.printing_succeeds _ _) (Host.printing_succeeds _ _) hprinted
  exact ⟨hends₁, hends₂, hcommands, hcompletes rfl _ _ hends₁ hends₂⟩

end Inlay
