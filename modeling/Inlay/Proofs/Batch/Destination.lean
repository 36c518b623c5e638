import Inlay.Proofs.Batch.Ledger

/-!
Where the texts of a ledger are found in the end: one after the other on standard output or in the
file that all documents share, or each in the file to which its own path leads, where the last one
stands that was written there.
-/
namespace Inlay

namespace Tree

def fileOf? (t : Tree) (cwd : Location) (p : Path) : Option Location :=
  match t.find cwd p with
  | .ok (l, .file _) => some l
  | _ => none

theorem fileOf?_of_find {t : Tree} {cwd l : Location} {p : Path} {content : Bytes}
    (h : t.find cwd p = .ok (l, .file content)) : t.fileOf? cwd p = some l := by
  rw [fileOf?, h]

theorem content?_of_find {t : Tree} {cwd l : Location} {p : Path} {content : Bytes}
    (h : t.find cwd p = .ok (l, .file content)) : t.content? l = some content := by
  rw [content?, node?_of_walk (locate_eq_ok_iff.1 (find_eq_ok_iff.1 h)).2]

theorem fileOf?_of_device {t : Tree} {cwd l : Location} {p : Path} {d : Device}
    (h : t.find cwd p = .ok (l, .device d)) : t.fileOf? cwd p = none := by
  rw [fileOf?, h]

end Tree

def Output.Target.IsApart (target : Output.Target) : Prop :=
  ∀ source, ∃ path, target.destination source = .file path

theorem Output.Target.isApart_directory (dir : Path) (suffix : Option Text) :
    (directory dir suffix).IsApart := fun _ => ⟨_, rfl⟩

namespace Batch

open Output

/-- What can become of a document, as far as its rendering goes. -/
def Verdict.Fits (outcome : Except Halt Text) (verdict : Verdict) : Prop :=
  match outcome with
  | .error why => verdict = .error (.ofHalt why)
  | .ok text => verdict = .ok text ∨ ∃ e, verdict = .error (.unwritten e)

theorem fits_post (router : Router) (source : Source) (outcome : Except Halt Text) (r : Run World) :
    Verdict.Fits outcome (post router source outcome r).1 := by
  cases outcome with
  | error why => rfl
  | ok text =>
    rw [post]
    rcases router.write source text _ with ⟨e | _, _, _⟩
    · exact .inr ⟨e, rfl⟩
    · exact .inl rfl

theorem fits_postAll (router : Router) (documents : List (Source × Except Halt Text))
    (r : Run World) :
    List.Forall₂ (fun document entry => entry.1 = document.1 ∧ Verdict.Fits document.2 entry.2)
      documents (postAll router documents r).1 := by
  induction documents generalizing router r with
  | nil => exact .nil
  | cons document rest ih => exact .cons ⟨rfl, fits_post router _ _ r⟩ (ih _ _)

theorem length_texts_add_length_failures (ledger : Ledger) :
    ledger.texts.length + ledger.failures.length = ledger.length := by
  induction ledger with
  | nil => rfl
  | cons entry rest ih =>
    obtain ⟨source, failure | text⟩ := entry
    · simp_all [Ledger.texts, Ledger.failures, Except.toOption]
      omega
    · simp_all [Ledger.texts, Ledger.failures, Except.toOption]
      omega

/-- Nothing but standard output is open, or nothing is. -/
def AtStdout (router : Router) : Prop :=
  router.target = .stdout ∧ (router.shared = none ∨ router.shared = some .stdout)

theorem AtStdout.post {router : Router} (h : AtStdout router) (source : Source) (text : Text)
    (r : Run World) :
    (Batch.post router source (.ok text) r).1 = .ok text ∧
      AtStdout (Batch.post router source (.ok text) r).2.1 ∧
      (Batch.post router source (.ok text) r).2.2.host =
        { r.host with stdout := r.host.stdout ++ Text.encode text } := by
  obtain ⟨target, shared⟩ := router
  obtain ⟨rfl, rfl | rfl⟩ := h <;> exact ⟨rfl, ⟨rfl, .inr rfl⟩, rfl⟩

/-- On standard output come the texts of all documents that have one, and nothing else changes. -/
theorem AtStdout.postAll {router : Router} (h : AtStdout router)
    (documents : List (Source × Except Halt Text)) (r : Run World) :
    (Batch.postAll router documents r).1 =
        documents.map (fun document => (document.1, document.2.mapError .ofHalt)) ∧
      (Batch.postAll router documents r).2.2.host = { r.host with
        stdout := r.host.stdout ++
          Text.encode (Batch.postAll router documents r).1.texts.flatten } := by
  induction documents generalizing router r with
  | nil => exact ⟨rfl, by simp [Batch.postAll, Ledger.texts]⟩
  | cons document rest ih =>
    obtain ⟨source, why | text⟩ := document
    · obtain ⟨hledger, hhost⟩ := ih h r
      exact ⟨congrArg (_ :: ·) hledger, hhost⟩
    · obtain ⟨hverdict, hrouter, hhost⟩ := h.post source text r
      obtain ⟨hledger, hrest⟩ := ih hrouter (Batch.post router source (.ok text) r).2.2
      constructor
      · simp only [Batch.postAll, hverdict, List.map_cons]
        exact congrArg (_ :: ·) hledger
      · simp only [Batch.postAll, hrest, hhost, hverdict, Ledger.texts, List.filterMap_cons,
          Except.toOption, List.flatten_cons, Text.encode_append, List.append_assoc]

theorem exists_session (l : Location) (router : Router)
    (documents : List (Source × Except Halt Text)) (r : Run World) :
    ∃ log, Session l router r log (postAll router documents r).2.1
        (postAll router documents r).2.2 ∧
      log.flatMap Entry.written = (postAll router documents r).1.texts.flatten := by
  induction documents generalizing router r with
  | nil => exact ⟨[], .nil router r, rfl⟩
  | cons document rest ih =>
    obtain ⟨source, why | text⟩ := document
    · exact ih router r
    · have hsaid : (r.say .debug ("writing ".toList ++ router.target.describeFor source ++
          "...".toList)).host.tree.content? l = r.host.tree.content? l := rfl
      rcases hwrite : router.write source text (r.say .debug ("writing ".toList ++
        router.target.describeFor source ++ "...".toList)) with ⟨e | _, router', r'⟩
      · have hpost : post router source (.ok text) r = (.error (.unwritten e), router', r') := by
          rw [post, hwrite]
        obtain ⟨log, hsession, hlog⟩ := ih router' r'
        refine ⟨⟨source, text, .error e⟩ :: log, .other hsaid (.write hwrite ?_), ?_⟩
        · simpa only [postAll, hpost] using hsession
        · rw [List.flatMap_cons, Entry.written_of_error rfl, hlog]
          simp [postAll, hpost, Ledger.texts, Except.toOption]
      · have hpost : post router source (.ok text) r = (.ok text, router', r') := by
          rw [post, hwrite]
        obtain ⟨log, hsession, hlog⟩ := ih router' r'
        refine ⟨⟨source, text, .ok ()⟩ :: log, .other hsaid (.write hwrite ?_), ?_⟩
        · simpa only [postAll, hpost] using hsession
        · rw [List.flatMap_cons, Entry.written_of_ok rfl, hlog]
          simp [postAll, hpost, Ledger.texts, Except.toOption]

theorem postAll_combined_cases {path : Path} (documents : List (Source × Except Halt Text))
    (r : Run World) :
    ((postAll { target := .combined path } documents r).2.1 = { target := .combined path } ∧
      (postAll { target := .combined path } documents r).1.texts = [] ∧
      ∀ l, (postAll { target := .combined path } documents r).2.2.host.tree.content? l =
        r.host.tree.content? l) ∨
    ∃ w, (postAll { target := .combined path } documents r).2.1 =
      { target := .combined path, shared := some (.file w) } := by
  induction documents generalizing r with
  | nil => exact .inl ⟨rfl, rfl, fun _ => rfl⟩
  | cons document rest ih =>
    obtain ⟨source, why | text⟩ := document
    · exact ih r
    · obtain ⟨r₀, hsaid, hhost⟩ : ∃ r₀, r.say .debug ("writing ".toList ++
          ({ target := .combined path } : Router).target.describeFor source ++
            "...".toList) = r₀ ∧ r₀.host = r.host := ⟨_, rfl, rfl⟩
      rcases hwrite : ({ target := .combined path } : Router).write source text r₀ with
        ⟨result, router', r'⟩
      rw [← hsaid] at hwrite
      -- Either the file cannot be opened and the next document tries again, or it is open from here
      -- on.
      rcases Router.write_unopened hwrite with ⟨why, t, rfl, -, rfl, rfl, ht⟩ | ⟨w, rfl, -⟩
      · have hpost : post { target := .combined path } source (.ok text) r =
            (.error (.unwritten why), { target := .combined path }, r₀.withTree t) := by
          rw [post, hwrite, hsaid]
        simp only [postAll, hpost]
        rcases ih (r₀.withTree t) with ⟨hrouter, htexts, hsame⟩ | hopen
        · exact .inl ⟨hrouter, htexts, fun l => (hsame l).trans (ht.content?_eq l)⟩
        · exact .inr hopen
      · have hpost : (post { target := .combined path } source (.ok text) r).2 =
            ({ target := .combined path, shared := some (.file w) }, r') := by
          rw [post, hwrite]
          cases result <;> rfl
        obtain ⟨log, hsession, -⟩ := exists_session []
          { target := .combined path, shared := some (.file w) } rest r'
        obtain ⟨w', hw', -⟩ := hsession.exists_writer rfl
        simp only [postAll, hpost]
        exact .inr ⟨w', hw'⟩

/-- The shared file holds the texts of all documents in the output, if one of them has opened it. -/
theorem content?_postAll_combined {path : Path} (documents : List (Source × Except Halt Text))
    (r : Run World) {w : Writer} {l : Location}
    (hshared : (postAll { target := .combined path } documents r).2.1.shared = some (.file w))
    (hfile : w.outlet = .file l) :
    (postAll { target := .combined path } documents r).2.2.host.tree.content? l =
      some (Text.encode (postAll { target := .combined path } documents r).1.texts.flatten) := by
  obtain ⟨log, hsession, hlog⟩ := exists_session l { target := .combined path } documents r
  have hopen : ∀ v, (postAll { target := .combined path } documents r).2.1.shared =
      some (.file v) → v.outlet = .file l := by
    intro v hv
    rw [hshared] at hv
    cases hv
    exact hfile
  rcases hsession.split hopen with hunopened | ⟨_, -, _, -, hholds⟩
  · rw [hunopened.router] at hshared
    cases hshared
  · rw [← hlog]
    exact hholds.content

theorem post_file_cases {router : Router} {source : Source} {path : Path}
    (hpath : router.target.destination source = .file path) (outcome : Except Halt Text)
    (r : Run World) :
    (post router source outcome r).2.1 = router ∧
    ∃ t, (post router source outcome r).2.2.host = (r.withTree t).host ∧ r.host.tree.Grows t ∧
      ((∃ failure, (post router source outcome r).1 = .error failure ∧
          ∀ m, t.content? m = r.host.tree.content? m) ∨
        ∃ text, (post router source outcome r).1 = .ok text ∧
          (((∃ d l, t.find r.host.cwd path = .ok (l, .device d)) ∧
            ∀ m, t.content? m = r.host.tree.content? m) ∨
          ∃ l, t.find r.host.cwd path = .ok (l, .file (Text.encode text)) ∧
            ∀ m, m ≠ l → t.content? m = r.host.tree.content? m)) := by
  cases outcome with
  | error why => exact ⟨rfl, r.host.tree, rfl, .refl _, .inl ⟨_, rfl, fun _ => rfl⟩⟩
  | ok text =>
    rcases hwrite : writeDocument path text (r.say .debug ("writing ".toList ++
      router.target.describeFor source ++ "...".toList)) with ⟨result, r'⟩
    obtain ⟨t, hhost, hgrows, hcases⟩ := writeDocument_cases hwrite
    have hpost : post router source (.ok text) r =
        ((match result with
          | .ok () => .ok text
          | .error e => .error (.unwritten e)), router, r') := by
      rw [post, Router.write, hpath]
      simp only [hwrite]
      cases result <;> rfl
    rw [hpost]
    refine ⟨rfl, t, hhost, hgrows, ?_⟩
    rcases hcases with ⟨⟨why, rfl⟩, hsame⟩ | ⟨rfl, hdevice, hsame⟩ | ⟨l, rfl, hfind, hother⟩
    · exact .inl ⟨_, rfl, hsame⟩
    · exact .inr ⟨text, rfl, .inl ⟨hdevice, hsame⟩⟩
    · exact .inr ⟨text, rfl, .inr ⟨l, hfind, hother⟩⟩

/-- The text that an entry has put in the file at a location, as paths lead in the tree. -/
def heldAt? (t : Tree) (cwd : Location) (target : Target) (l : Location)
    (entry : Source × Verdict) : Option Text :=
  match entry.2, target.destination entry.1 with
  | .ok text, .file path => if t.fileOf? cwd path = some l then some text else none
  | _, _ => none

/-- The text of the last document in the output whose path leads to the file at a location. -/
def Ledger.lastAt? (ledger : Ledger) (t : Tree) (cwd : Location) (target : Target) (l : Location) :
    Option Text := (ledger.filterMap (heldAt? t cwd target l)).getLast?

theorem Ledger.lastAt?_cons (entry : Source × Verdict) (ledger : Ledger) (t : Tree)
    (cwd : Location) (target : Target) (l : Location) :
    Ledger.lastAt? (entry :: ledger) t cwd target l =
      (ledger.lastAt? t cwd target l).or (heldAt? t cwd target l entry) := by
  rw [lastAt?, lastAt?, List.filterMap_cons]
  cases heldAt? t cwd target l entry with
  | none => rw [Option.or_none]
  | some text =>
    rw [List.getLast?_cons]
    cases (ledger.filterMap (heldAt? t cwd target l)).getLast? <;> rfl

/--
What a file holds after a document has been posted, where its path leads in a tree that has grown
since.
-/
theorem content?_post {router : Router} {source : Source} {path : Path}
    (hpath : router.target.destination source = .file path) (outcome : Except Halt Text)
    (r : Run World) {final : Tree}
    (hfinal : (post router source outcome r).2.2.host.tree.Grows final) (l : Location) :
    (post router source outcome r).2.2.host.tree.content? l =
      ((heldAt? final r.host.cwd router.target l
        (source, (post router source outcome r).1)).map Text.encode).or
        (r.host.tree.content? l) := by
  obtain ⟨-, t, hhost, -, hcases⟩ := post_file_cases hpath outcome r
  rw [hhost, Run.tree_withTree] at hfinal ⊢
  rcases hcases with ⟨failure, hverdict, hheld⟩ | ⟨text, hverdict, ⟨⟨d, m, hfind⟩, hheld⟩ |
    ⟨m, hfind, hheld⟩⟩
  · rw [hverdict, heldAt?, hheld]
    rfl
  · have hdevice := hfinal.find_device hfind
    simp only [hverdict, heldAt?, hpath, Tree.fileOf?_of_device hdevice, hheld]
    simp
  · have hcontent := Tree.content?_of_find hfind
    obtain ⟨content, hfile⟩ := hfinal.exists_file hfind
    simp only [hverdict, heldAt?, hpath, Tree.fileOf?_of_find hfile]
    by_cases hm : l = m
    · subst hm
      simp [hcontent]
    · simp [Ne.symm hm, hheld l hm]

theorem postAll_apart {router : Router} (hrouter : router.target.IsApart)
    (documents : List (Source × Except Halt Text)) (r : Run World) :
    (postAll router documents r).2.2.host.cwd = r.host.cwd ∧
      (postAll router documents r).2.2.host.stdout = r.host.stdout ∧
      r.host.tree.Grows (postAll router documents r).2.2.host.tree := by
  induction documents generalizing r with
  | nil => exact ⟨rfl, rfl, .refl _⟩
  | cons document rest ih =>
    obtain ⟨path, hpath⟩ := hrouter document.1
    obtain ⟨hsame, t, hhost, hgrows, -⟩ := post_file_cases hpath document.2 r
    obtain ⟨hcwd, hstdout, hlater⟩ := ih (post router document.1 document.2 r).2.2
    simp only [postAll, hsame]
    rw [hhost] at hcwd hstdout hlater
    exact ⟨hcwd, hstdout, hgrows.trans hlater⟩

/--
Where every document has a file of its own, a file holds in the end the text of the last document
whose path leads to it, and what it held before if there is none.
-/
theorem content?_postAll_apart {router : Router} (hrouter : router.target.IsApart)
    (documents : List (Source × Except Halt Text)) (r : Run World) (l : Location) :
    (postAll router documents r).2.2.host.tree.content? l =
      (((postAll router documents r).1.lastAt? (postAll router documents r).2.2.host.tree
        r.host.cwd router.target l).map Text.encode).or (r.host.tree.content? l) := by
  induction documents generalizing r with
  | nil => rfl
  | cons document rest ih =>
    obtain ⟨source, outcome⟩ := document
    obtain ⟨path, hpath⟩ := hrouter source
    obtain ⟨hsame, t, hhost, -⟩ := post_file_cases hpath outcome r
    obtain ⟨-, -, hfinal⟩ := postAll_apart hrouter rest (post router source outcome r).2.2
    have hposted := content?_post hpath outcome r hfinal l
    have hlater := ih (post router source outcome r).2.2
    have hcwd : (post router source outcome r).2.2.host.cwd = r.host.cwd := by
      rw [hhost]
      rfl
    rw [hcwd, hposted] at hlater
    simp only [postAll, hsame, Ledger.lastAt?_cons]
    rw [hlater, Option.map_or, Option.or_assoc]

theorem exists_file_of_mem_postAll {router : Router} (hrouter : router.target.IsApart)
    {documents : List (Source × Except Halt Text)} {r : Run World} {source : Source} {text : Text}
    (hmem : (source, .ok text) ∈ (postAll router documents r).1) {path : Path}
    (hpath : router.target.destination source = .file path) :
    ∃ l, (∃ content, (postAll router documents r).2.2.host.tree.find r.host.cwd path =
        .ok (l, .file content)) ∨
      ∃ d, (postAll router documents r).2.2.host.tree.find r.host.cwd path =
        .ok (l, .device d) := by
  induction documents generalizing r with
  | nil => cases hmem
  | cons document rest ih =>
    obtain ⟨first, outcome⟩ := document
    obtain ⟨path', hpath'⟩ := hrouter first
    obtain ⟨hsame, t, hhost, -, hcases⟩ := post_file_cases hpath' outcome r
    obtain ⟨-, -, hfinal⟩ := postAll_apart hrouter rest (post router first outcome r).2.2
    have hcwd : (post router first outcome r).2.2.host.cwd = r.host.cwd := by
      rw [hhost]
      rfl
    simp only [postAll, hsame] at hmem ⊢
    rcases List.mem_cons.1 hmem with heq | hmem
    · obtain ⟨rfl, hverdict⟩ := Prod.mk.inj heq
      obtain rfl : path = path' := by
        rw [hpath] at hpath'
        cases hpath'
        rfl
      rw [hhost, Run.tree_withTree] at hfinal
      -- Later documents may write over the file, but it stays where it is.
      rcases hcases with ⟨failure, hfailed, -⟩ | ⟨_, -, ⟨⟨d, l, hfind⟩, -⟩ | ⟨l, hfind, -⟩⟩
      · rw [hfailed] at hverdict
        cases hverdict
      · exact ⟨l, .inr ⟨d, hfinal.find_device hfind⟩⟩
      · exact ⟨l, .inl (hfinal.exists_file hfind)⟩
    · have hrest := ih hmem
      rwa [hcwd] at hrest

end Batch
end Inlay
