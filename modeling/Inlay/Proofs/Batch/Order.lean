import Mathlib
import Inlay.Proofs.Batch.Destination
import Inlay.Proofs.Batch.Ending
import Inlay.Proofs.Rendering.Outcome

namespace Inlay

namespace Oracle

/-- A host with an oracle's answers, each of which may come late and may change the files. -/
def acting (f : Oracle) (delay : Call → Nat) (effect : Call → Tree → Tree) : Host World :=
  fun c w => (⟨f c, delay c, []⟩, { w with tree := effect c w.tree })

variable (f : Oracle) (delay : Call → Nat) (effect : Call → Tree → Tree)

theorem acting_follows : (f.acting delay effect).Follows f := fun _ _ => rfl

theorem acting_quiet : (f.acting delay effect).Quiet := fun _ _ _ hline => by cases hline

end Oracle

theorem Plan.Ends.of_prompt {f : Oracle} {p : Plan} {t : Text}
    (h : (Schedule.run (f.host fun _ _ => 0) 0 p ⟨0, 0, []⟩).1 = .text t) : p.Ends f (.ok t) := by
  obtain ⟨cs, hcs, -⟩ := Schedule.yields_of_run (f.host_follows fun _ _ => 0).keeps (Prod.ext h rfl)
  exact .of_yields hcs

namespace Batch

open Output Course

variable {h : Host World} {opts : Options} {depth : Nat} {target : Target} {sources : List Source}
  {r : Run World} {outcome : Source → Except Halt Text}

def plans (opts : Options) (depth : Nat) (sources : List Source) : List (Source × Plan) :=
  sources.mapIdx fun i source => (source, document opts depth [i] source)

theorem documents_eq (opts : Options) (depth : Nat) (sources : List Source) :
    documents opts depth sources = idle (plans opts depth sources) := by
  simp [documents, idle, plans, List.mapIdx_eq_zipIdx_map]

/-- The sources of a batch, each with what becomes of its document. -/
def outcomes (outcome : Source → Except Halt Text) (sources : List Source) :
    List (Source × Except Halt Text) := sources.map fun source => (source, outcome source)

@[simp] theorem length_outcomes : (outcomes outcome sources).length = sources.length :=
  List.length_map _

@[simp] theorem map_fst_outcomes : (outcomes outcome sources).map Prod.fst = sources := by
  simp [outcomes, Function.comp_def]

theorem outcomes_append (before after : List Source) :
    outcomes outcome (before ++ after) = outcomes outcome before ++ outcomes outcome after :=
  List.map_append

def opening (opts : Options) (depth : Nat) (target : Target) (sources : List Source)
    (r : Run World) : Course :=
  ⟨documents opts depth sources, { router := { target := target } }, r⟩

theorem quiet_opening : (opening opts depth target sources r).Quiet := by
  intro source p hp
  rw [opening, documents_eq] at hp
  obtain ⟨doc, -, heq⟩ := List.mem_map.1 hp
  cases heq
  trivial

theorem conclusions_opening : conclusions outcome (opening opts depth target sources r).docs =
    outcomes outcome sources := by
  have hfst := congrArg (List.map fun source => (source, outcome source))
    (List.zipIdx_map_fst 0 sources)
  rw [List.map_map] at hfst
  rw [conclusions, opening, documents, List.mapIdx_eq_zipIdx_map, List.map_map]
  exact hfst

theorem foregone_opening {f : Oracle} (hf : h.Follows f)
    (hends : ∀ source ∈ sources, ∀ place,
      (document opts depth place source).Ends f (outcome source)) :
    Foregone h outcome (opening opts depth target sources r) := by
  refine foregone_of_follows hf fun source p hp => ?_
  obtain ⟨i, hi, heq⟩ := List.mem_mapIdx.1 hp
  cases heq
  exact hends _ (List.getElem_mem hi) _

theorem ends_of_unread {f : Oracle} {path : Path} {cause : Fault}
    (h : f (.read path) = .error cause) (opts : Options) (depth : Nat) (place : Place) :
    (document opts depth place (.file path)).Ends f (.error (.unread cause)) := by
  constructor
  · intro t cs hyields
    cases hyields with
    | note hask =>
      cases hask with
      | ask ha hrest =>
        cases ha
        rw [h] at hrest
        cases hrest
  · refine .note trivial (.ask trivial ?_)
    rintro a rfl
    rw [h]
    exact .halt rfl

/-- Every way to work on a batch in a window comes to what the posting of its documents comes to. -/
theorem exists_process (hforegone : Foregone h outcome (opening opts depth target sources r))
    (hharmless : Harmless h (opening opts depth target sources r)) (maxConcurrent : Nat) :
    ∃ enough, ∀ rounds ≥ enough, ∃ (c : Course) (final : Run World),
      c.Records h { router := { target := target } } (outcomes outcome sources) r ∧
      process h ⟨opts, maxConcurrent, depth, rounds⟩ target sources r = (c.desk, final) ∧
      final.errors = c.run.errors ∧ final.host = c.run.host := by
  have hroom : 0 < room maxConcurrent := Nat.lt_of_lt_of_le Nat.one_pos (Nat.le_max_left 1 _)
  obtain ⟨enough, s, hend, hreach, hwork⟩ := empties h hroom
    { pending := documents opts depth sources
      desk := { router := { target := target } }
      run := r }
  have hopening : Reaches h (opening opts depth target sources r) s.course := hreach
  have hrecords := hopening.records hend (fun _ => quiet_opening) hforegone hharmless
  rw [conclusions_opening] at hrecords
  refine ⟨enough, fun rounds hrounds => ?_⟩
  rw [process, hwork rounds hrounds]
  refine ⟨s.course, _, hrecords, rfl, ?_, rfl⟩
  exact Run.errors_say_of_ne _ (by decide) _

theorem exists_loop (hforegone : Foregone h outcome (opening opts depth target sources r))
    (hharmless : Harmless h (opening opts depth target sources r)) :
    ∃ enough, ∀ rounds ≥ enough,
      (inTurn h rounds (plans opts depth sources) { router := { target := target } } r).docs = [] ∧
      (inTurn h rounds (plans opts depth sources) { router := { target := target } } r).Records h
        { router := { target := target } } (outcomes outcome sources) r := by
  obtain ⟨enough, c, hend, hreach, hc⟩ := exists_inTurn h (plans opts depth sources)
    { router := { target := target } } r
  rw [← documents_eq] at hreach
  have hopening : Reaches h (opening opts depth target sources r) c := hreach
  have hrecords := hopening.records hend (fun _ => quiet_opening) hforegone hharmless
  rw [conclusions_opening] at hrecords
  refine ⟨enough, fun rounds hrounds => ?_⟩
  rw [hc rounds hrounds]
  exact ⟨hend, hrecords⟩

/-- What a ledger says of a batch that has come to its end. -/
structure Ledger.Accounts (ledger : Ledger) (outcome : Source → Except Halt Text) (target : Target)
    (sources : List Source) (r : Run World) (desk : Desk) (final : Run World) : Prop where
  /-- There is an entry for every source, in their order. -/
  entries : List.Forall₂ (fun source entry => entry.1 = source ∧
    Verdict.Fits (outcome source) entry.2) sources ledger
  report : desk.report = ⟨ledger.texts.length, ledger.failures⟩
  total : desk.report.total = sources.length
  errors : final.errors = r.errors ++ ledger.errors
  /-- On standard output, no document that has a text is left out. -/
  stdout : target = .stdout →
    ledger = sources.map (fun source => (source, (outcome source).mapError .ofHalt)) ∧
      final.host.stdout = r.host.stdout ++ Text.encode ledger.texts.flatten
  /-- A file for all documents holds their texts, unless none of them could open it. -/
  combined : ∀ path, target = .combined path →
    (desk.router.shared = none ∧ ledger.texts = [] ∧
      ∀ l, final.host.tree.content? l = r.host.tree.content? l) ∨
    ∃ w, desk.router.shared = some (.file w) ∧ ∀ l, w.outlet = .file l →
      final.host.tree.content? l = some (Text.encode ledger.texts.flatten)
  /-- In a directory, the path of every document in the output leads to a file, or a device. -/
  files : ∀ dir suffix, target = .directory dir suffix → ∀ source text path,
    (source, .ok text) ∈ ledger → target.destination source = .file path →
      ∃ l, (∃ content, final.host.tree.find r.host.cwd path = .ok (l, .file content)) ∨
        ∃ d, final.host.tree.find r.host.cwd path = .ok (l, .device d)
  /-- A file holds the text of the last document whose path leads to it. -/
  contents : ∀ dir suffix, target = .directory dir suffix → ∀ l, final.host.tree.content? l =
    ((ledger.lastAt? final.host.tree r.host.cwd target l).map Text.encode).or
      (r.host.tree.content? l)

theorem Course.Records.total {c : Course} {documents : List (Source × Except Halt Text)}
    (hc : c.Records h { router := { target := target } } documents r) :
    c.desk.report.total = documents.length := by
  rw [hc.desk_eq, (fits_postAll { target := target } documents r).length_eq,
    ← length_texts_add_length_failures]
  simp [Report.enter, Report.total]

theorem Course.Records.accounts {c : Course} (hquiet : h.Quiet)
    (hc : c.Records h { router := { target := target } } (outcomes outcome sources) r)
    {final : Run World} (houtside : final.host.outside = c.run.host.outside)
    (herrors : final.errors = c.run.errors) :
    ∃ ledger : Ledger, ledger.Accounts outcome target sources r c.desk final := by
  have hlast := houtside.trans hc.outside_eq
  have htree := congrArg World.Outside.tree hlast
  have hstdout := congrArg World.Outside.stdout hlast
  dsimp only [World.outside] at htree hstdout
  have hentries := List.forall₂_map_left_iff.1
    (fits_postAll { target := target } (outcomes outcome sources) r)
  have hreport := congrArg Desk.report hc.desk_eq
  rw [Report.enter, Nat.zero_add, List.nil_append] at hreport
  refine ⟨_, hentries, hreport, hc.total.trans length_outcomes,
    herrors.trans (hc.errors_eq hquiet), ?_, ?_, ?_, ?_⟩
  · -- On standard output, the texts follow each other.
    rintro rfl
    have hfresh : AtStdout { target := .stdout } := ⟨rfl, .inl rfl⟩
    obtain ⟨hledger, hhost⟩ := hfresh.postAll (outcomes outcome sources) r
    rw [outcomes, List.map_map] at hledger
    rw [hstdout, hhost]
    exact ⟨hledger, rfl⟩
  · -- In one file, what has been written depends on whether it has ever been opened.
    rintro path rfl
    have hrouter := congrArg Desk.router hc.desk_eq
    rcases postAll_combined_cases (outcomes outcome sources) r with
      ⟨hclosed, htexts, hsame⟩ | ⟨w, hopen⟩
    · refine .inl ⟨?_, htexts, fun l => ?_⟩
      · rw [hrouter]
        exact congrArg Router.shared hclosed
      · rw [htree, hsame]
    · refine .inr ⟨w, ?_, fun l hl => ?_⟩
      · rw [hrouter]
        exact congrArg Router.shared hopen
      · rw [htree]
        exact content?_postAll_combined _ r (congrArg Router.shared hopen) hl
  · rintro dir suffix rfl source text path hmem hpath
    rw [htree]
    exact exists_file_of_mem_postAll (Target.isApart_directory dir suffix) hmem hpath
  · rintro dir suffix rfl l
    rw [htree]
    exact content?_postAll_apart (Target.isApart_directory dir suffix) _ r l

/--
A batch in a window comes to what the loop comes to that renders and then writes one document after
the other, whatever the window and whenever renderings end: to the same report, the same errors in
the same order, the same output. In both, one ledger accounts for all of it.

A source has one outcome here, wherever it stands. A batch that names standard input twice is left
out: which of the two documents gets what can be read there is no matter of the source.
-/
theorem process_eq_inTurn (hquiet : h.Quiet)
    (hforegone : Foregone h outcome (opening opts depth target sources r))
    (hharmless : Harmless h (opening opts depth target sources r)) (maxConcurrent : Nat) :
    ∃ enough, ∀ rounds ≥ enough, ∃ (loop : Course) (final : Run World),
      inTurn h rounds (plans opts depth sources) { router := { target := target } } r = loop ∧
      loop.docs = [] ∧
      process h ⟨opts, maxConcurrent, depth, rounds⟩ target sources r = (loop.desk, final) ∧
      final.errors = loop.run.errors ∧ final.host.outside = loop.run.host.outside ∧
      ∃ ledger : Ledger, ledger.Accounts outcome target sources r loop.desk final := by
  obtain ⟨enough₁, hprocess⟩ := exists_process hforegone hharmless maxConcurrent
  obtain ⟨enough₂, hloop⟩ := exists_loop hforegone hharmless
  refine ⟨max enough₁ enough₂, fun rounds hrounds => ?_⟩
  obtain ⟨c, final, hc, heq, herrors, hhost⟩ := hprocess rounds (by omega)
  obtain ⟨hend, hl⟩ := hloop rounds (by omega)
  have houtside := (congrArg World.outside hhost).trans (hc.outside_eq.trans hl.outside_eq.symm)
  have herrors' := herrors.trans ((hc.errors_eq hquiet).trans (hl.errors_eq hquiet).symm)
  rw [hc.desk_eq, ← hl.desk_eq] at heq
  exact ⟨_, final, rfl, hend, heq, herrors', houtside, hl.accounts hquiet houtside herrors'⟩

/-- Two documents, one of which runs a command, and one that is missing. -/
def letters : Oracle := Oracle.ofFiles [(['a'], "1$((x))".toList), (['b'], "2".toList)]

def lettersOutcome : Source → Except Halt Text
  | .file ['a'] => .ok "1x\n".toList
  | .file ['b'] => .ok "2\n".toList
  | _ => .error (.unread (.system .noEntry))

def lettersLate : Host World :=
  letters.acting (fun c => if c = .read ['a'] then 9 else 0) fun _ t => t

theorem letters_foregone (hsources : sources ⊆ [.file ['a'], .file ['m'], .file ['b']]) :
    Foregone lettersLate lettersOutcome (opening {} 2 target sources r) := by
  refine foregone_opening (letters.acting_follows _ _) fun source hsource place => ?_
  have hmem := hsources hsource
  simp only [List.mem_cons, List.not_mem_nil, or_false] at hmem
  rcases hmem with rfl | rfl | rfl
  · exact .of_prompt (by cbv)
  · exact ends_of_unread rfl {} 2 place
  · exact .of_prompt (by cbv)

theorem letters_harmless : Harmless lettersLate (opening {} 2 target sources r) :=
  harmless_of_host (fun _ _ => rfl) _

theorem process_eq_inTurn_letters :
    ∃ enough, ∀ rounds ≥ enough, ∃ (loop : Course) (final : Run World),
      inTurn lettersLate rounds (plans {} 2 [.file ['a'], .file ['m'], .file ['b']])
        { router := { target := .stdout } } ⟨{}, 0, []⟩ = loop ∧
      process lettersLate ⟨{}, 2, 2, rounds⟩ .stdout [.file ['a'], .file ['m'], .file ['b']]
        ⟨{}, 0, []⟩ = (loop.desk, final) ∧
      loop.desk.report = ⟨2, [(.file ['m'], .unread (.system .noEntry))]⟩ ∧
      final.host.stdout = Text.encode "1x\n2\n".toList := by
  obtain ⟨enough, h⟩ := process_eq_inTurn (letters.acting_quiet _ _)
    (letters_foregone (List.Subset.refl _)) letters_harmless 2
  refine ⟨enough, fun rounds hrounds => ?_⟩
  obtain ⟨loop, final, hloop, -, hprocess, -, -, ledger, hledger⟩ := h rounds hrounds
  obtain ⟨rfl, hstdout⟩ := hledger.stdout rfl
  exact ⟨loop, final, hloop, hprocess, hledger.report, hstdout⟩

/-- A command that writes the file of an earlier document, which is read late. -/
def scribe : Host World :=
  (Oracle.ofFiles [(['a'], "1".toList), (['b'], "$((x))2".toList)]).acting
    (fun c => if c = .read ['a'] then 9 else 0) fun c t =>
      match c with
      | .execute .. => t.put ["out".toList, ['a']] (.file [0])
      | _ => t

def scribeOutcome : Source → Except Halt Text
  | .file ['a'] => .ok "1\n".toList
  | _ => .ok "x2\n".toList

def besideOut : Run World := ⟨{ tree := { nodes := [(["out".toList], .directory)] } }, 0, []⟩

/--
What a command writes itself is not put in order, even if it changes no text: in the window it comes
before the document whose file it writes, in the loop after it.
-/
theorem not_outside_eq_of_foregone :
    ¬ ∀ (h : Host World) (outcome : Source → Except Halt Text) (target : Target)
      (sources : List Source) (r : Run World) (maxConcurrent rounds : Nat), h.Quiet →
      Foregone h outcome (opening {} 2 target sources r) →
      (process h ⟨{}, maxConcurrent, 2, rounds⟩ target sources r).1.report.total = sources.length →
      (inTurn h rounds (plans {} 2 sources) { router := { target := target } } r).docs = [] →
      (process h ⟨{}, maxConcurrent, 2, rounds⟩ target sources r).2.host.outside = (inTurn h rounds
        (plans {} 2 sources) { router := { target := target } } r).run.host.outside := by
  intro hall
  have hforegone : Foregone scribe scribeOutcome (opening {} 2 (.directory "out".toList none)
      [.file ['a'], .file ['b']] besideOut) := by
    refine foregone_opening (Oracle.acting_follows _ _ _) fun source hsource place => ?_
    simp only [List.mem_cons, List.not_mem_nil, or_false] at hsource
    rcases hsource with rfl | rfl
    · exact .of_prompt (by cbv)
    · exact .of_prompt (by cbv)
  have heq := hall scribe scribeOutcome (.directory "out".toList none) [.file ['a'], .file ['b']]
    besideOut 2 10 (Oracle.acting_quiet _ _ _) hforegone (by cbv) (by cbv)
  have hwindow : (process scribe ⟨{}, 2, 2, 10⟩ (.directory "out".toList none)
      [.file ['a'], .file ['b']] besideOut).2.host.outside.tree.content? ["out".toList, ['a']] =
        some (Text.encode "1\n".toList) := by cbv
  have hloop : (inTurn scribe 10 (plans {} 2 [.file ['a'], .file ['b']])
      { router := { target := .directory "out".toList none } }
        besideOut).run.host.outside.tree.content? ["out".toList, ['a']] = some [0] := by cbv
  rw [heq, hloop] at hwindow
  cases hwindow

end Batch
end Inlay
