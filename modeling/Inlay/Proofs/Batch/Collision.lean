import Inlay.Proofs.Batch.Order
import Inlay.Proofs.Output.Naming
import Inlay.Proofs.Tree.Entry

namespace Inlay

theorem Tree.exists_find_of_fileOf? {t : Tree} {cwd l : Location} {p : Path}
    (h : t.fileOf? cwd p = some l) : ∃ content, t.find cwd p = .ok (l, .file content) := by
  rw [fileOf?] at h
  split at h
  · rename_i l content hfind
    cases h
    exact ⟨content, hfind⟩
  · cases h

namespace Output.Target

/-- The place of the file to which the destination of a source's document leads. -/
def placeOf? (target : Target) (t : Tree) (cwd : Location) (source : Source) : Option Location :=
  match target.destination source with
  | .file path => t.fileOf? cwd path
  | .shared => none

end Output.Target

namespace Batch

open Output Course

theorem Report.total_enter (report : Report) (ledger : Ledger) :
    (report.enter ledger).total = report.total + ledger.length := by
  rw [← length_texts_add_length_failures, enter, total, total, List.length_append]
  dsimp only
  omega

theorem Course.Reaches.total_add_length {h : Host World} {c c' : Course} (hreach : Reaches h c c') :
    c'.desk.report.total + c'.docs.length = c.desk.report.total + c.docs.length := by
  induction hreach with
  | refl => rfl
  | tail _ hlast ih =>
    rw [← ih]
    cases hlast with
    | go | wait => simp
    | deliver rest desk r hp =>
      obtain ⟨hdesk, -⟩ := deliver_eq desk _ _ r
      rw [hdesk, Report.total_enter]
      simp only [List.length_cons, List.length_nil]
      omega

theorem map_fst_documents {opts : Options} {depth : Nat} {sources : List Source} :
    (documents opts depth sources).map Prod.fst = sources := by
  simp [documents, List.mapIdx_eq_zipIdx_map, Function.comp_def]

theorem exists_course {h : Host World} {opts : Options} {depth maxConcurrent rounds : Nat}
    {target : Target} {sources : List Source} {r final : Run World} {desk : Desk}
    (hprocess : process h ⟨opts, maxConcurrent, depth, rounds⟩ target sources r = (desk, final)) :
    ∃ last, Reaches h (opening opts depth target sources r) last ∧ last.desk = desk ∧
      last.run.host = final.host := by
  have hroom : 0 < room maxConcurrent := Nat.lt_of_lt_of_le Nat.one_pos (Nat.le_max_left 1 _)
  cases hprocess
  exact ⟨_, reaches_work h hroom rounds
    { pending := documents opts depth sources
      desk := { router := { target := target } }
      run := r }, rfl, rfl⟩

abbrev Texts := List (Source × Text)

def Texts.rendered (texts : Texts) : List (Source × Except Halt Text) :=
  texts.map fun document => (document.1, .ok document.2)

/-- The verdicts on documents that are all in the output. -/
def Texts.written (texts : Texts) : Ledger := texts.map fun document => (document.1, .ok document.2)

/-- Every document that goes to a file finds its own text there. -/
def Texts.Kept (texts : Texts) (target : Target) (t : Tree) (cwd : Location) : Prop :=
  ∀ document ∈ texts, ∀ l, target.placeOf? t cwd document.1 = some l →
    t.content? l = some (Text.encode document.2)

/-- No two documents with different texts go to one file. -/
def Texts.Compatible (texts : Texts) (target : Target) (t : Tree) (cwd : Location) : Prop :=
  texts.Pairwise fun d d' => ∀ l, target.placeOf? t cwd d.1 = some l →
    target.placeOf? t cwd d'.1 = some l → Text.encode d.2 = Text.encode d'.2

/--
The documents have proper names in the directory, each of them one of its own, and no link stands in
the place of one.
-/
def Distinct (dir : Path) (suffix : Option Text) (sources : List Source) (t : Tree)
    (cwd : Location) : Prop :=
  (sources.Pairwise fun s s' => Target.documentName s suffix ≠ Target.documentName s' suffix) ∧
    ∀ source ∈ sources, (Path.Component.name (Target.documentName source suffix)).IsStep ∧
      ¬t.IsLink cwd (Path.join dir (Target.documentName source suffix))

theorem Verdict.Fits.eq_ok {outcome : Except Halt Text} {text : Text}
    (h : Verdict.Fits outcome (.ok text)) : outcome = .ok text := by
  cases outcome with
  | error why => cases h
  | ok text' =>
    rcases h with h | ⟨e, h⟩
    · cases h
      rfl
    · cases h

theorem exists_texts {documents : List (Source × Except Halt Text)} {ledger : Ledger}
    (hfits : List.Forall₂ (fun document entry => entry.1 = document.1 ∧
      Verdict.Fits document.2 entry.2) documents ledger)
    (hfailures : ledger.failures = []) :
    ∃ texts : Texts, documents = texts.rendered ∧ ledger = texts.written := by
  induction hfits with
  | nil => exact ⟨[], rfl, rfl⟩
  | @cons document entry documents ledger hfit _ ih =>
    obtain ⟨source, outcome⟩ := document
    obtain ⟨source', failure | text⟩ := entry
    · cases hfailures
    · obtain ⟨rfl, hfit⟩ := hfit
      obtain ⟨texts, rfl, rfl⟩ := ih hfailures
      obtain rfl : outcome = .ok text := hfit.eq_ok
      exact ⟨(source', text) :: texts, rfl, rfl⟩

variable {t : Tree} {cwd l : Location} {target : Target} {texts : Texts}

theorem heldAt?_ok (source : Source) (text : Text) :
    heldAt? t cwd target l (source, .ok text) =
      if target.placeOf? t cwd source = some l then some text else none := by
  rw [heldAt?, Target.placeOf?]
  cases target.destination source with
  | file path => rfl
  | shared => rfl

/-- The document that goes to a file while no later one does is the last one there. -/
theorem lastAt?_written {before after : Texts} {document : Source × Text}
    (hplace : target.placeOf? t cwd document.1 = some l)
    (hafter : ∀ later ∈ after, target.placeOf? t cwd later.1 ≠ some l) :
    (Texts.written (before ++ document :: after)).lastAt? t cwd target l = some document.2 := by
  have hnone : (Texts.written after).filterMap (heldAt? t cwd target l) = [] := by
    rw [Texts.written, List.filterMap_map, List.filterMap_eq_nil_iff]
    intro later hlater
    rw [Function.comp_apply, heldAt?_ok, if_neg (hafter later hlater)]
  have hself : heldAt? t cwd target l (document.1, .ok document.2) = some document.2 := by
    rw [heldAt?_ok, if_pos hplace]
  rw [Texts.written] at hnone
  simp [Ledger.lastAt?, Texts.written, hself, hnone]

theorem exists_last {document : Source × Text} (hmem : document ∈ texts)
    (hplace : target.placeOf? t cwd document.1 = some l) :
    ∃ before winner after, texts = before ++ winner :: after ∧
      target.placeOf? t cwd winner.1 = some l ∧
      ∀ later ∈ after, target.placeOf? t cwd later.1 ≠ some l := by
  induction texts generalizing document with
  | nil => cases hmem
  | cons first rest ih =>
    by_cases hlater : ∃ later ∈ rest, target.placeOf? t cwd later.1 = some l
    · obtain ⟨later, hlater, hplace'⟩ := hlater
      obtain ⟨before, winner, after, rfl, hwinner, hafter⟩ := ih hlater hplace'
      exact ⟨first :: before, winner, after, rfl, hwinner, hafter⟩
    · push Not at hlater
      rcases List.mem_cons.1 hmem with rfl | hmem
      · exact ⟨[], document, rest, rfl, hplace, hlater⟩
      · exact absurd hplace (hlater document hmem)

theorem Texts.kept_iff (hcontent : ∀ l text, texts.written.lastAt? t cwd target l = some text →
      t.content? l = some (Text.encode text)) :
    texts.Kept target t cwd ↔ texts.Compatible target t cwd := by
  constructor
  · intro hkept
    refine List.pairwise_of_forall_mem_list fun d hd d' hd' l hl hl' => ?_
    have h := hkept d hd l hl
    rw [hkept d' hd' l hl'] at h
    exact (Option.some.inj h).symm
  · intro hsame document hmem l hl
    obtain ⟨before, winner, after, rfl, hwinner, hafter⟩ := exists_last hmem hl
    rw [hcontent l winner.2 (lastAt?_written hwinner hafter)]
    rcases List.mem_append.1 hmem with hbefore | hmem
    · obtain ⟨-, -, hpairs⟩ := List.pairwise_append.1 hsame
      rw [hpairs document hbefore winner List.mem_cons_self l hl hwinner]
    · rcases List.mem_cons.1 hmem with rfl | hmem
      · rfl
      · exact absurd hl (hafter document hmem)

variable {h : Host World} {opts : Options} {depth : Nat} {dir : Path} {suffix : Option Text}
  {sources : List Source} {r final : Run World} {desk : Desk} {maxConcurrent rounds : Nat}

theorem Distinct.compatible (hsources : texts.map Prod.fst = sources)
    (hdistinct : Distinct dir suffix sources t cwd) :
    texts.Compatible (.directory dir suffix) t cwd := by
  obtain ⟨hnames, hproper⟩ := hdistinct
  rw [← hsources] at hnames hproper
  refine (List.pairwise_map.1 hnames).imp_of_mem fun {d d'} hd hd' hne l hl hl' => ?_
  obtain ⟨hstep, hlink⟩ := hproper d.1 (List.mem_map_of_mem hd)
  obtain ⟨hstep', hlink'⟩ := hproper d'.1 (List.mem_map_of_mem hd')
  obtain ⟨content, hfind⟩ := Tree.exists_find_of_fileOf? hl
  obtain ⟨content', hfind'⟩ := Tree.exists_find_of_fileOf? hl'
  exact absurd rfl (Tree.ne_of_find_join hne hstep hstep' hlink hlink' hfind hfind')

/--
A batch to a directory in which everything is rendered and written. In the end every destination is
a file or a device, and every file has the text of its own document exactly where those that go to
one file have the same text. It is enough for this that all documents have names of their own and
that no link stands in the place of one of them.
-/
theorem process_directory
    (hharmless : Harmless h (opening opts depth (.directory dir suffix) sources r))
    (hprocess : process h ⟨opts, maxConcurrent, depth, rounds⟩ (.directory dir suffix) sources r =
      (desk, final))
    (hreport : desk.report = ⟨sources.length, []⟩) :
    ∃ (last : Course) (texts : Texts), last.docs = [] ∧ last.run.host = final.host ∧
      texts.map Prod.fst = sources ∧
      (∀ document ∈ texts, Delivers h (opening opts depth (.directory dir suffix) sources r) last
        document.1 (.ok document.2)) ∧
      (∀ source ∈ sources, ∃ l,
        (Target.directory dir suffix).placeOf? final.host.tree r.host.cwd source = some l ∨
          ∃ d, final.host.tree.find r.host.cwd
            (Path.join dir (Target.documentName source suffix)) = .ok (l, .device d)) ∧
      (texts.Kept (.directory dir suffix) final.host.tree r.host.cwd ↔
        texts.Compatible (.directory dir suffix) final.host.tree r.host.cwd) ∧
      (Distinct dir suffix sources final.host.tree r.host.cwd →
        texts.Kept (.directory dir suffix) final.host.tree r.host.cwd) := by
  obtain ⟨last, hreach, hdesk, hhost⟩ := exists_course hprocess
  -- The report counts as many documents as there are sources, so that none is left over.
  have hend : last.docs = [] := by
    have htotal := hreach.total_add_length
    rw [hdesk, hreport] at htotal
    simpa [Report.total, opening, documents] using htotal
  obtain ⟨documents, hsources, hdelivers, hrecords⟩ :=
    hreach.exists_records hend (fun _ => quiet_opening) hharmless
  have hledger : (postAll { target := .directory dir suffix } documents r).1.failures = [] := by
    have hfailures := congrArg (·.report.failures) hrecords.desk_eq
    rw [hdesk, hreport] at hfailures
    simpa [Report.enter, opening] using hfailures.symm
  obtain ⟨texts, rfl, hwritten⟩ := exists_texts (fits_postAll _ documents r) hledger
  have htree : final.host.tree =
      (postAll { target := .directory dir suffix } texts.rendered r).2.2.host.tree := by
    rw [← hhost]
    exact congrArg World.Outside.tree hrecords.outside_eq
  have hapart := Target.isApart_directory dir suffix
  have hcontent : ∀ l text, texts.written.lastAt? final.host.tree r.host.cwd
      (.directory dir suffix) l = some text →
      final.host.tree.content? l = some (Text.encode text) := by
    intro l text hlast
    rw [htree, content?_postAll_apart hapart texts.rendered r l, hwritten, ← htree, hlast]
    rfl
  rw [Texts.rendered, List.map_map] at hsources
  have hnames : texts.map Prod.fst = sources := hsources.trans map_fst_documents
  refine ⟨last, texts, hend, hhost, hnames, fun document hmem => ?_, fun source hsource => ?_,
    Texts.kept_iff hcontent, fun hdistinct => ?_⟩
  · exact hdelivers _ (List.mem_map_of_mem hmem)
  · rw [← hnames] at hsource
    obtain ⟨document, hmem, rfl⟩ := List.mem_map.1 hsource
    have hentry : (document.1, .ok document.2) ∈ texts.written := List.mem_map_of_mem hmem
    rw [← hwritten] at hentry
    obtain ⟨l, hfound⟩ := exists_file_of_mem_postAll hapart hentry rfl
    rw [← htree] at hfound
    refine ⟨l, ?_⟩
    rcases hfound with ⟨content, hfile⟩ | hdevice
    · exact .inl (Tree.fileOf?_of_find hfile)
    · exact .inr hdevice
  · exact (Texts.kept_iff hcontent).2 (hdistinct.compatible hnames)

/-- Two documents with names of their own, the first of which is rendered last. -/
theorem process_directory_letters :
    ∃ (desk : Desk) (final : Run World) (texts : Texts),
      process lettersLate ⟨{}, 2, 2, 10⟩ (.directory "out".toList none)
        [.file ['a'], .file ['b']] ⟨{}, 0, []⟩ = (desk, final) ∧
      desk.report = ⟨2, []⟩ ∧ texts.map Prod.fst = [.file ['a'], .file ['b']] ∧
      texts.Kept (.directory "out".toList none) final.host.tree [] := by
  obtain ⟨⟨desk, final⟩, hprocess⟩ : ∃ result, process lettersLate ⟨{}, 2, 2, 10⟩
      (.directory "out".toList none) [.file ['a'], .file ['b']] ⟨{}, 0, []⟩ = result := ⟨_, rfl⟩
  have hreport : desk.report = ⟨2, []⟩ := by
    obtain rfl : _ = desk := congrArg Prod.fst hprocess
    cbv
  obtain ⟨-, texts, -, -, hsources, -, -, -, hkept⟩ :=
    process_directory letters_harmless hprocess hreport
  refine ⟨desk, final, texts, hprocess, hreport, hsources, hkept ⟨?_, fun source hsource => ?_⟩⟩
  · simp only [List.pairwise_cons, List.mem_singleton, forall_eq]
    exact ⟨by decide, by simp⟩
  · refine ⟨Target.isStep_documentName source, ?_⟩
    obtain rfl : _ = final := congrArg Prod.snd hprocess
    simp only [List.mem_cons, List.not_mem_nil, or_false] at hsource
    rcases hsource with rfl | rfl
    · exact Tree.not_isLink_of_locate ["out".toList, ['a']] (Text.encode "1x\n".toList) (by cbv)
    · exact Tree.not_isLink_of_locate ["out".toList, ['b']] (Text.encode "2\n".toList) (by cbv)

def namesakes : World :=
  { tree := { nodes := [
      ([['a']], .directory), ([['a'], ['x']], .file (Text.encode ['A'])),
      ([['b']], .directory), ([['b'], ['x']], .file (Text.encode ['B']))] } }

/--
Sources that are different files do not always have different files as destinations, although all
documents are rendered and written: the second one is written over the first.
-/
theorem not_process_directory_injective :
    ¬ ∀ (h : Host World) (settings : Settings) (dir : Path) (suffix : Option Text)
      (sources : List Source) (r final : Run World) (desk : Desk),
      process h settings (.directory dir suffix) sources r = (desk, final) →
      desk.report = ⟨sources.length, []⟩ →
      ∀ p q l m, .file p ∈ sources → .file q ∈ sources →
        r.host.tree.fileOf? r.host.cwd p = some l → r.host.tree.fileOf? r.host.cwd q = some m →
        l ≠ m →
        (Target.directory dir suffix).placeOf? final.host.tree r.host.cwd (.file p) ≠
          (Target.directory dir suffix).placeOf? final.host.tree r.host.cwd (.file q) := by
  intro hall
  refine hall (World.host World.defaultShell) ⟨{}, 2, 2, 10⟩ "out".toList none
    [.file "a/x".toList, .file "b/x".toList] ⟨namesakes, 0, []⟩ _ _ rfl (by cbv) "a/x".toList
    "b/x".toList [['a'], ['x']] [['b'], ['x']] (by simp) (by simp) (by cbv) (by cbv) (by decide) ?_
  cbv

end Batch
end Inlay
