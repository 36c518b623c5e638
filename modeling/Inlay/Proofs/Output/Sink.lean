import Mathlib.Algebra.Module.Submodule.Lattice
import Mathlib.Data.List.Permutation
import Inlay.Proofs.Output.Writing

namespace Inlay.Output

/-- A document that was handed over to be written, and what came of it. -/
structure Entry where
  source : Source
  content : Text
  result : Except Failure Unit

namespace Entry

def written (e : Entry) : Text :=
  match e.result with
  | .ok () => e.content
  | .error _ => []

theorem written_of_ok {e : Entry} (h : e.result = .ok ()) : e.written = e.content := by
  rw [written, h]

theorem written_of_error {e : Entry} {why : Failure} (h : e.result = .error why) :
    e.written = [] := by
  rw [written, h]

end Entry

/--
Documents handed over one after the other. In between, others may change the world as they like, so
that what has failed may succeed later, but for the file at one location.
-/
inductive Session (l : Location) : Router → Run World → List Entry → Router → Run World → Prop
  | nil (router : Router) (r : Run World) : Session l router r [] router r
  | other {router router' : Router} {r r' r'' : Run World} {log : List Entry} :
    r'.host.tree.content? l = r.host.tree.content? l → Session l router r' log router' r'' →
      Session l router r log router' r''
  | write {router router' router'' : Router} {r r' r'' : Run World} {source : Source}
      {content : Text} {result : Except Failure Unit} {log : List Entry} :
    router.write source content r = (result, router', r') → Session l router' r' log router'' r'' →
      Session l router r (⟨source, content, result⟩ :: log) router'' r''

namespace Router

variable {path : Path} {source : Source} {content : Text} {r r' : Run World}
  {result : Except Failure Unit} {router' : Router} {w : Writer} {l : Location}

theorem write_of_create {r₁ : Run World} (hcreate : Writer.create path r = (.ok w, r₁))
    (source : Source) (content : Text) :
    ∃ r₂ : Run World, r₂.host = r₁.host ∧
      ({ target := .combined path } : Router).write source content r =
        ((w.append content r₂).1,
          { target := .combined path, shared := some (.file (w.append content r₂).2.1) },
          (w.append content r₂).2.2) := by
  refine ⟨r₁.say .debug ("Opened shared output ".toList ++ (Shared.file w).describe), rfl, ?_⟩
  simp only [write, Target.destination, Router.opened, Shared.create, Step.andThen, hcreate,
    Shared.append]

theorem exists_holds_of_create {r₁ : Run World}
    (hcreate : Writer.create path r = (.ok { path := path, outlet := .file l }, r₁))
    (source : Source) (content : Text) :
    ∃ w r', ({ target := .combined path } : Router).write source content r =
        (.ok (), { target := .combined path, shared := some (.file w) }, r') ∧
      w.Holds r'.host.tree l (Text.encode content) := by
  rcases Writer.create_cases hcreate with ⟨why, -, hwhy, -⟩ | ⟨t, -, ⟨d, hw, -⟩ |
    ⟨m, hw, rfl, hwritable⟩⟩
  · cases hwhy
  · cases hw
  · cases hw
    obtain ⟨r₂, hhost, hwrite⟩ := write_of_create hcreate source content
    have hfresh : Writer.Holds { path := path, outlet := .file l } r₂.host.tree l [] := by
      rw [hhost]
      exact ⟨rfl, rfl, rfl, hwritable.content?_put_self []⟩
    rcases happend : Writer.append { path := path, outlet := .file l } content r₂ with
      ⟨result, w, r'⟩
    obtain ⟨rfl, hholds, -⟩ := hfresh.append happend
    rw [happend] at hwrite
    exact ⟨w, r', hwrite, hholds⟩

theorem write_unopened
    (h : ({ target := .combined path } : Router).write source content r = (result, router', r')) :
    (∃ why t, result = .error why ∧ why.IsOpening ∧ router' = { target := .combined path } ∧
      r' = r.withTree t ∧ r.host.tree.Furnishes t) ∨
    ∃ w, router' = { target := .combined path, shared := some (.file w) } ∧
      ((∃ d, w.outlet = .device d) ∨
        ∃ l, result = .ok () ∧ w.Holds r'.host.tree l (Text.encode content)) := by
  rcases hcreate : Writer.create path r with ⟨opened, r₁⟩
  rcases Writer.create_cases hcreate with ⟨why, t, rfl, hopening, rfl, ht⟩ | ⟨t, -, ⟨d, rfl, -⟩ |
    ⟨l, rfl, -⟩⟩
  · have hwrite : ({ target := .combined path } : Router).write source content r =
        (.error why, { target := .combined path }, r.withTree t) := by
      simp only [write, Target.destination, Router.opened, Shared.create, Step.andThen, hcreate]
    rw [hwrite] at h
    cases h
    exact .inl ⟨why, t, rfl, hopening, rfl, rfl, ht⟩
  · obtain ⟨r₂, -, hwrite⟩ := write_of_create hcreate source content
    rw [hwrite] at h
    cases h
    exact .inr ⟨_, rfl, .inl ⟨d, Writer.append_outlet _ content r₂⟩⟩
  · obtain ⟨w, r₂, hwrite, hholds⟩ := exists_holds_of_create hcreate source content
    rw [hwrite] at h
    cases h
    exact .inr ⟨w, rfl, .inr ⟨l, rfl, hholds⟩⟩

theorem write_opened
    (h : ({ target := .combined path, shared := some (.file w) } : Router).write source content r =
      (result, router', r')) :
    ∃ w', w.append content r = (result, w', r') ∧
      router' = { target := .combined path, shared := some (.file w') } := by
  simp [write, Target.destination, Router.opened, Shared.append] at h
  exact ⟨_, Prod.ext h.1 (Prod.ext rfl h.2.2), h.2.1.symm⟩

end Router

namespace Session

variable {path : Path} {l : Location} {r r' : Run World} {log : List Entry}
  {router router' : Router} {w : Writer} {content : Bytes}

theorem exists_writer (h : Session l router r log router' r') (hrouter : router =
    { target := .combined path, shared := some (.file w) }) :
    ∃ w', router' = { target := .combined path, shared := some (.file w') } ∧
      w'.outlet = w.outlet := by
  induction h generalizing w with
  | nil => exact ⟨w, hrouter, rfl⟩
  | other _ _ ih => exact ih hrouter
  | @write _ router₁ _ r _ _ source text _ _ hwrite _ ih =>
    subst hrouter
    obtain ⟨w₁, happend, hopen⟩ := Router.write_opened hwrite
    obtain ⟨w', hw', houtlet⟩ := ih hopen
    have hsame := Writer.append_outlet w text r
    rw [happend] at hsame
    exact ⟨w', hw', houtlet.trans hsame⟩

theorem holds (h : Session l router r log router' r') (hrouter : router =
    { target := .combined path, shared := some (.file w) })
    (hw : w.Holds r.host.tree l content) :
    (∀ e ∈ log, e.result = .ok ()) ∧
      ∃ w', router' = { target := .combined path, shared := some (.file w') } ∧
        w'.Holds r'.host.tree l (content ++ Text.encode (log.flatMap Entry.written)) := by
  induction h generalizing w content with
  | nil => exact ⟨by simp, w, hrouter, by simpa using hw⟩
  | other hother _ ih =>
    exact ih hrouter ⟨hw.outlet, hw.untold, hw.position, hother.trans hw.content⟩
  | @write _ router₁ _ r _ _ source text _ log hwrite _ ih =>
    subst hrouter
    obtain ⟨w₁, happend, hopen⟩ := Router.write_opened hwrite
    obtain ⟨rfl, hholds, -⟩ := hw.append happend
    obtain ⟨hrest, w', hw', hcontent⟩ := ih hopen hholds
    refine ⟨?_, w', hw', ?_⟩
    · rintro e (- | ⟨-, he⟩)
      · rfl
      · exact hrest e he
    · rw [List.flatMap_cons, Entry.written_of_ok rfl, Text.encode_append, ← List.append_assoc]
      exact hcontent

/-- A session in which every document has failed to open the shared file. -/
structure Unopened (l : Location) (path : Path) (r : Run World) (log : List Entry)
    (router' : Router) (r' : Run World) : Prop where
  router : router' = { target := .combined path }
  failed : ∀ e ∈ log, ∃ why, e.result = .error why ∧ why.IsOpening
  untouched : r'.host.tree.content? l = r.host.tree.content? l

structure Opening where
  early : List Entry
  /-- The document that opens the file. -/
  first : Entry
  late : List Entry
  before : Run World
  router : Router
  after : Run World

/-- A session falls into an unopened one, the document that opens the file, and those after it. -/
structure Opening.Splits (o : Opening) (l : Location) (path : Path) (r : Run World)
    (log : List Entry) (router' : Router) (r' : Run World) : Prop where
  log : log = o.early ++ o.first :: o.late
  early : Session l { target := .combined path } r o.early { target := .combined path } o.before
  unopened : Unopened l path r o.early { target := .combined path } o.before
  write : ({ target := .combined path } : Router).write o.first.source o.first.content o.before =
    (.ok (), o.router, o.after)
  first : o.first.result = .ok ()
  truncated : o.after.host.tree.content? l = some (Text.encode o.first.content)
  late : Session l o.router o.after o.late router' r'
  written : ∀ e ∈ o.late, e.result = .ok ()

theorem Unopened.cons {router : Router} {source : Source} {text : Text} {why : Failure}
    {r₁ : Run World} (h : Unopened l path r₁ log router r') (hwhy : why.IsOpening)
    (hsame : r₁.host.tree.content? l = r.host.tree.content? l) :
    Unopened l path r (⟨source, text, .error why⟩ :: log) router r' := by
  refine ⟨h.router, ?_, h.untouched.trans hsame⟩
  rintro e (- | ⟨-, he⟩)
  · exact ⟨why, rfl, hwhy⟩
  · exact h.failed e he

/--
A session whose shared file is not open at first. Either no document has opened it, or the session
falls into the documents that failed to, the one that opened it, and those that came after.
-/
theorem split (h : Session l { target := .combined path } r log router' r')
    (hfile : ∀ w, router'.shared = some (.file w) → w.outlet = .file l) :
    Unopened l path r log router' r' ∨
    ∃ o : Opening, o.Splits l path r log router' r' ∧
      ∃ w, router' = { target := .combined path, shared := some (.file w) } ∧
        w.Holds r'.host.tree l (Text.encode (log.flatMap Entry.written)) := by
  generalize hfresh : ({ target := .combined path } : Router) = router at h
  induction h with
  | nil => exact .inl ⟨hfresh.symm, by simp, rfl⟩
  | other hother _ ih =>
    rcases ih hfile hfresh with hunopened | ⟨o, ho, hw⟩
    · exact .inl { hunopened with untouched := hunopened.untouched.trans hother }
    · exact .inr ⟨o, { ho with
        early := .other hother ho.early
        unopened := { ho.unopened with untouched := ho.unopened.untouched.trans hother } }, hw⟩
  | @write _ router₁ router' r r₁ r' source text result log hwrite hrest ih =>
    subst hfresh
    rcases Router.write_unopened hwrite with ⟨why, t, rfl, hopening, rfl, rfl, ht⟩ | ⟨w, rfl, hw⟩
    · have hsame := ht.content?_eq l
      rcases ih hfile rfl with hunopened | ⟨o, ho, w, hw, hholds⟩
      · exact .inl (hunopened.cons hopening hsame)
      · refine .inr ⟨{ o with early := ⟨source, text, .error why⟩ :: o.early }, { ho with
          log := by rw [ho.log, List.cons_append]
          early := .write hwrite ho.early
          unopened := ho.unopened.cons hopening hsame }, w, hw, ?_⟩
        rw [List.flatMap_cons, Entry.written_of_error rfl, List.nil_append]
        exact hholds
    · obtain ⟨w', hw', houtlet⟩ := hrest.exists_writer rfl
      have hl : w.outlet = .file l := houtlet ▸ hfile w' (by rw [hw'])
      rcases hw with ⟨d, hd⟩ | ⟨m, rfl, hholds⟩
      · rw [hd] at hl
        cases hl
      · obtain rfl : m = l := by
          rw [hholds.outlet] at hl
          cases hl
          rfl
        obtain ⟨hok, w₂, hw₂, hcontent⟩ := hrest.holds rfl hholds
        have hearly : Unopened m path r [] { target := .combined path } r :=
          ⟨rfl, by simp, rfl⟩
        refine .inr ⟨⟨[], ⟨source, text, .ok ()⟩, log, r, _, r₁⟩,
          ⟨rfl, .nil _ r, hearly, hwrite, rfl, hholds.content, hrest, hok⟩, w₂, hw₂, ?_⟩
        rw [List.flatMap_cons, Entry.written_of_ok rfl, Text.encode_append]
        exact hcontent

end Session

/--
The shared file. As long as every document fails to open it, each of them is told that, the file
keeps what it holds, and the next one tries again. The first that opens it leaves its own text as
all that the file holds; every later one succeeds, and in the end the file holds the texts of those
that were written, in their order. To finish fails in neither case and changes nothing.

A beginning of a session is a session, so that this is true at every point of one.
-/
theorem sink_of_session {path : Path} {l : Location} {r r' : Run World} {log : List Entry}
    {router' : Router} (h : Session l { target := .combined path } r log router' r')
    (hfile : ∀ w, router'.shared = some (.file w) → w.outlet = .file l) :
    (Session.Unopened l path r log router' r' ∧ router'.finish r' = (.ok (), r')) ∨
    ∃ o : Session.Opening, o.Splits l path r log router' r' ∧
      (router'.finish r').1 = .ok () ∧ (router'.finish r').2.host = r'.host ∧
      (router'.finish r').2.host.tree.content? l =
        some (Text.encode (log.flatMap Entry.written)) := by
  rcases h.split hfile with hunopened | ⟨o, ho, w, rfl, hw⟩
  · obtain rfl := hunopened.router
    exact .inl ⟨hunopened, rfl⟩
  · refine .inr ⟨o, ho, ?_, rfl, hw.content⟩
    simp [Router.finish, Shared.flush, Writer.flush, hw.untold]

/-- A file behind a link, which leads to its directory or elsewhere. -/
def behindLink (target : Path) : World where
  tree := { nodes := [(["x".toList], .directory), (["x".toList, "f".toList], .file [1]),
    (["y".toList], .file []), (["d".toList], .link target)] }

/-- The link leads to no directory at first, so that the first document comes too early. -/
theorem sink_of_session_behindLink :
    ∃ router' r', Session ["x".toList, "f".toList] { target := .combined "d/f".toList }
        ⟨behindLink "y".toList, 0, []⟩
        [⟨.stdin, "a".toList, .error (.noDirectory "d".toList (.system .alreadyExists))⟩,
          ⟨.stdin, "b".toList, .ok ()⟩, ⟨.stdin, "c".toList, .ok ()⟩] router' r' ∧
      (∀ w, router'.shared = some (.file w) → w.outlet = .file ["x".toList, "f".toList]) ∧
      (router'.finish r').1 = .ok () ∧
      (router'.finish r').2.host.tree.content? ["x".toList, "f".toList] =
        some (Text.encode "bc".toList) := by
  have hearly : ({ target := .combined "d/f".toList } : Router).write .stdin "a".toList
      ⟨behindLink "y".toList, 0, []⟩ =
        (.error (.noDirectory "d".toList (.system .alreadyExists)),
          { target := .combined "d/f".toList }, _) :=
    Prod.ext (by cbv) (Prod.ext (by cbv) rfl)
  have hcreate : Writer.create "d/f".toList ⟨behindLink "x".toList, 0, []⟩ =
      (.ok { path := "d/f".toList, outlet := .file ["x".toList, "f".toList] }, _) :=
    Prod.ext (by cbv) rfl
  obtain ⟨w, r₁, hopen, hw⟩ := Router.exists_holds_of_create hcreate .stdin "b".toList
  rcases happend : w.append "c".toList r₁ with ⟨result, w', r'⟩
  obtain ⟨rfl, hw', -⟩ := hw.append happend
  have hlate : ({ target := .combined "d/f".toList, shared := some (.file w) } : Router).write
      .stdin "c".toList r₁ =
        (.ok (), { target := .combined "d/f".toList, shared := some (.file w') }, r') := by
    simp only [Router.write, Target.destination, Router.opened, Shared.append, happend]
  have hother : (⟨behindLink "x".toList, 0, []⟩ : Run World).host.tree.content?
      ["x".toList, "f".toList] = (({ target := .combined "d/f".toList } : Router).write .stdin
        "a".toList ⟨behindLink "y".toList, 0, []⟩).2.2.host.tree.content?
          ["x".toList, "f".toList] := by cbv
  have hsession := Session.write hearly (.other hother (.write hopen (.write hlate (.nil _ r'))))
  have hfile : ∀ v,
      ({ target := .combined "d/f".toList, shared := some (.file w') } : Router).shared =
        some (.file v) → v.outlet = .file ["x".toList, "f".toList] := by
    rintro v ⟨⟩
    exact hw'.outlet
  refine ⟨_, r', hsession, hfile, ?_⟩
  rcases sink_of_session hsession hfile with ⟨hunopened, -⟩ | ⟨o, -, hfinish, -, hcontent⟩
  · cases hunopened.router
  · exact ⟨hfinish, hcontent⟩

end Inlay.Output
