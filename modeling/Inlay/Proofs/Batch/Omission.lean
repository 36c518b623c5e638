import Inlay.Proofs.Batch.Order

namespace Inlay.Batch

open Output Course

theorem Ledger.map_fst_failures_sublist (ledger : Ledger) :
    (ledger.failures.map Prod.fst).Sublist (ledger.map Prod.fst) := by
  induction ledger with
  | nil => exact .slnil
  | cons entry rest ih =>
    obtain ⟨source, failure | text⟩ := entry
    · exact ih.cons_cons source
    · exact ih.cons source

theorem map_fst_postAll (router : Router) (documents : List (Source × Except Halt Text))
    (r : Run World) : (postAll router documents r).1.map Prod.fst = documents.map Prod.fst := by
  induction documents generalizing router r with
  | nil => rfl
  | cons document rest ih => exact congrArg (document.1 :: ·) (ih _ _)

theorem postAll_omit (router : Router) (before after : List (Source × Except Halt Text))
    (source : Source) (why : Halt) (r : Run World) :
    (postAll router (before ++ (source, .error why) :: after) r).2 =
        (postAll router (before ++ after) r).2 ∧
      ∃ early late : Ledger,
        (postAll router (before ++ (source, .error why) :: after) r).1 =
          early ++ (source, .error (.ofHalt why)) :: late ∧
        (postAll router (before ++ after) r).1 = early ++ late ∧
        early.map Prod.fst = before.map Prod.fst ∧ late.map Prod.fst = after.map Prod.fst := by
  rw [postAll_append, postAll_append]
  exact ⟨rfl, _, _, rfl, rfl, map_fst_postAll _ _ _, map_fst_postAll _ _ _⟩

theorem postAll_of_errors (router : Router) {documents : List (Source × Except Halt Text)}
    (hdocuments : ∀ document ∈ documents, ∃ why, document.2 = .error why) (r : Run World) :
    (postAll router documents r).2 = (router, r) ∧ (postAll router documents r).1.texts = [] := by
  induction documents with
  | nil => exact ⟨rfl, rfl⟩
  | cons document rest ih =>
    obtain ⟨why, hwhy⟩ := hdocuments document (by simp)
    obtain ⟨source, outcome⟩ := document
    subst hwhy
    exact ih fun document hdocument => hdocuments document (by simp [hdocument])

variable {h : Host World} {opts : Options} {depth : Nat} {target : Target}
  {before after : List Source} {source : Source} {r : Run World}
  {outcome : Source → Except Halt Text} {why : Halt}

theorem Course.Records.omits {c c' : Course} (hwhy : outcome source = .error why)
    (hc : c.Records h { router := { target := target } }
      (outcomes outcome (before ++ source :: after)) r)
    (hc' : c'.Records h { router := { target := target } } (outcomes outcome (before ++ after)) r) :
    c.run.host.outside = c'.run.host.outside ∧ c.desk.router = c'.desk.router ∧
      c.desk.report.processed = c'.desk.report.processed ∧
      ∃ early late : List (Source × Failure),
        c.desk.report.failures = early ++ (source, .ofHalt why) :: late ∧
        c'.desk.report.failures = early ++ late ∧
        (early.map Prod.fst).Sublist before ∧ (late.map Prod.fst).Sublist after := by
  obtain ⟨hstate, early, late, hledger, hledger', hbefore, hafter⟩ :=
    postAll_omit { target := target } (outcomes outcome before) (outcomes outcome after) source
      why r
  -- The batches differ by one document, which has failed and posts nothing.
  have hinserted : outcomes outcome (before ++ source :: after) =
      outcomes outcome before ++ (source, .error why) :: outcomes outcome after := by
    rw [outcomes_append, ← hwhy]
    rfl
  rw [map_fst_outcomes] at hbefore hafter
  rw [hinserted] at hc
  rw [outcomes_append] at hc'
  have hdesk := hc.desk_eq
  have hdesk' := hc'.desk_eq
  dsimp only at hdesk hdesk'
  rw [hstate, hledger] at hdesk
  rw [hledger'] at hdesk'
  refine ⟨?_, ?_, ?_, early.failures, late.failures, ?_, ?_, ?_, ?_⟩
  · rw [hc.outside_eq, hc'.outside_eq, hstate]
  · rw [hdesk, hdesk']
  · rw [hdesk, hdesk']
    simp [Report.enter, Ledger.texts, Except.toOption]
  · rw [hdesk]
    simp [Report.enter, Ledger.failures]
  · rw [hdesk']
    simp [Report.enter, Ledger.failures]
  · rw [← hbefore]
    exact early.map_fst_failures_sublist
  · rw [← hafter]
    exact late.map_fst_failures_sublist

theorem Course.Records.of_errors {c : Course} {sources : List Source}
    (hsources : ∀ source ∈ sources, ∃ why, outcome source = .error why)
    (hc : c.Records h { router := { target := target } } (outcomes outcome sources) r) :
    c.desk.router = { target := target } ∧ c.desk.report.processed = 0 ∧
      c.run.host.outside = r.host.outside := by
  have hdocuments : ∀ document ∈ outcomes outcome sources,
      ∃ why, document.2 = .error why := by
    intro document hdocument
    obtain ⟨source, hsource, rfl⟩ := List.mem_map.1 hdocument
    exact hsources source hsource
  obtain ⟨hnothing, htexts⟩ := postAll_of_errors { target := target } hdocuments r
  rw [hc.desk_eq, hc.outside_eq, hnothing, Report.enter, htexts]
  exact ⟨rfl, rfl, rfl⟩

/--
A document that cannot be read or rendered leaves no trace in the output, wherever it stands in the
batch. If no document can, nothing at all is opened, made or written.

Outcomes belong to sources, so that a batch that names standard input twice is left out.
-/
theorem process_omits (hwhy : outcome source = .error why)
    (hforegone : Foregone h outcome (opening opts depth target (before ++ source :: after) r))
    (hharmless : Harmless h (opening opts depth target (before ++ source :: after) r))
    (hforegone' : Foregone h outcome (opening opts depth target (before ++ after) r))
    (hharmless' : Harmless h (opening opts depth target (before ++ after) r))
    (maxConcurrent : Nat) :
    ∃ enough, ∀ rounds ≥ enough, ∃ (desk desk' : Desk) (final final' : Run World)
        (early late : List (Source × Failure)),
      process h ⟨opts, maxConcurrent, depth, rounds⟩ target (before ++ source :: after) r =
        (desk, final) ∧
      process h ⟨opts, maxConcurrent, depth, rounds⟩ target (before ++ after) r =
        (desk', final') ∧
      final.host.outside = final'.host.outside ∧ desk.router = desk'.router ∧
      desk.report.processed = desk'.report.processed ∧
      desk.report.failures = early ++ (source, .ofHalt why) :: late ∧
      desk'.report.failures = early ++ late ∧
      (early.map Prod.fst).Sublist before ∧ (late.map Prod.fst).Sublist after ∧
      desk'.report.total = (before ++ after).length ∧
      ((∀ other ∈ before ++ source :: after, ∃ why, outcome other = .error why) →
        desk.router = { target := target } ∧ desk.report.processed = 0 ∧
          final.host.outside = r.host.outside) := by
  obtain ⟨enough₁, hwith⟩ := exists_process hforegone hharmless maxConcurrent
  obtain ⟨enough₂, hwithout⟩ := exists_process hforegone' hharmless' maxConcurrent
  refine ⟨max enough₁ enough₂, fun rounds hrounds => ?_⟩
  obtain ⟨c, final, hc, heq, -, hhost⟩ := hwith rounds (by omega)
  obtain ⟨c', final', hc', heq', -, hhost'⟩ := hwithout rounds (by omega)
  obtain ⟨houtside, hrouter, hprocessed, early, late, hfailures, hfailures', hearly, hlate⟩ :=
    hc.omits hwhy hc'
  refine ⟨c.desk, c'.desk, final, final', early, late, heq, heq', ?_, hrouter, hprocessed,
    hfailures, hfailures', hearly, hlate, hc'.total.trans length_outcomes, fun hall => ?_⟩
  · rw [hhost, hhost', houtside]
  · rw [hhost]
    exact hc.of_errors hall

/-- A missing document between two others, and nothing but missing ones. -/
theorem process_omits_letters :
    (∃ enough, ∀ rounds ≥ enough, ∃ (desk desk' : Desk) (final final' : Run World)
        (early late : List (Source × Failure)),
      process lettersLate ⟨{}, 2, 2, rounds⟩ (.combined "out".toList)
        [.file ['a'], .file ['m'], .file ['b']] ⟨{}, 0, []⟩ = (desk, final) ∧
      process lettersLate ⟨{}, 2, 2, rounds⟩ (.combined "out".toList)
        [.file ['a'], .file ['b']] ⟨{}, 0, []⟩ = (desk', final') ∧
      final.host.outside = final'.host.outside ∧
      desk.report.failures = early ++ (.file ['m'], .unread (.system .noEntry)) :: late ∧
      desk'.report.failures = early ++ late) ∧
    ∃ enough, ∀ rounds ≥ enough, ∃ (desk : Desk) (final : Run World),
      process lettersLate ⟨{}, 2, 2, rounds⟩ (.combined "out".toList)
        [.file ['m'], .file ['m']] ⟨{}, 0, []⟩ = (desk, final) ∧
      desk.router.shared = none ∧ final.host.tree = {} := by
  have hwhy : lettersOutcome (.file ['m']) = .error (.unread (.system .noEntry)) := rfl
  constructor
  · have hwith : Foregone lettersLate lettersOutcome (opening {} 2 (.combined "out".toList)
        ([.file ['a']] ++ .file ['m'] :: [.file ['b']]) ⟨{}, 0, []⟩) := letters_foregone (by simp)
    have hwithout : Foregone lettersLate lettersOutcome (opening {} 2 (.combined "out".toList)
        ([.file ['a']] ++ [.file ['b']]) ⟨{}, 0, []⟩) := letters_foregone (by simp)
    obtain ⟨enough, h⟩ :=
      process_omits hwhy hwith letters_harmless hwithout letters_harmless 2
    refine ⟨enough, fun rounds hrounds => ?_⟩
    obtain ⟨desk, desk', final, final', early, late, hwith, hwithout, houtside, -, -, hfailures,
      hfailures', -⟩ := h rounds hrounds
    exact ⟨desk, desk', final, final', early, late, hwith, hwithout, houtside, hfailures,
      hfailures'⟩
  · have hwith : Foregone lettersLate lettersOutcome (opening {} 2 (.combined "out".toList)
        ([] ++ .file ['m'] :: [.file ['m']]) ⟨{}, 0, []⟩) := letters_foregone (by simp)
    have hwithout : Foregone lettersLate lettersOutcome (opening {} 2 (.combined "out".toList)
        ([] ++ [.file ['m']]) ⟨{}, 0, []⟩) := letters_foregone (by simp)
    obtain ⟨enough, h⟩ :=
      process_omits hwhy hwith letters_harmless hwithout letters_harmless 2
    refine ⟨enough, fun rounds hrounds => ?_⟩
    obtain ⟨desk, -, final, -, -, -, hwith, -, -, -, -, -, -, -, -, -, hall⟩ := h rounds hrounds
    obtain ⟨hrouter, -, houtside⟩ := hall (by simp [hwhy])
    exact ⟨desk, final, hwith, congrArg Router.shared hrouter,
      congrArg World.Outside.tree houtside⟩

end Inlay.Batch
