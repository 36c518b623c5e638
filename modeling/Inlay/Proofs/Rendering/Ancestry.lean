import Inlay.Proofs.Rendering.Termination

namespace Inlay

namespace Document

variable {A : Answering} {opts : Options} {source : Source} {text : Text} {d : Document}

/-- What the document includes with its marker of this number: a file that it names and is read. -/
inductive Includes (A : Answering) (opts : Options) (d : Document) (i : Nat) : Document → Prop
  | file {path : Path} {chain : List Path} {text : Text} :
    d.Refers A opts i path → Lengthens A opts d.chain path chain → A (.read path) (.ok text) →
    Includes A opts d i ⟨d.place ++ [i], .file path, chain, text⟩

/--
Names that lead on from a document. Each is the name of a file which an include marker names in the
document that stands before it, its variables being in their places; every file but the last is read
and is the document that stands next.
-/
inductive Leads (A : Answering) (opts : Options) (canon : Path → Path) :
    Document → List Path → Prop
  | last {d : Document} {i : Nat} {path : Path} :
    d.Refers A opts i path → Leads A opts canon d [canon path]
  | next {d d' : Document} {i : Nat} {path : Path} {names : List Path} :
    d.Includes A opts i d' → d'.source = .file path → Leads A opts canon d' names →
    Leads A opts canon d (canon path :: names)

/-- The document that a rendering begins with, where files have names. -/
def top (canon : Path → Path) (source : Source) (text : Text) : Document :=
  ⟨[], source, (source.path?.map canon).toList, text⟩

theorem Reached.leads {canon : Path → Path}
    (hcanon : ∀ path identity, A (.identify path) identity → identity = canon path)
    (hopts : opts.detectCycles = true) (hd : Reached A opts source text d) {names : List Path}
    (h : d.Leads A opts canon names) :
    ∃ above, d.chain = (source.path?.map canon).toList ++ above ∧
      (top canon source text).Leads A opts canon (above ++ names) := by
  induction hd generalizing names with
  | stdin hsource =>
    subst hsource
    exact ⟨[], rfl, h⟩
  | file hsource hchain =>
    subst hsource
    obtain ⟨identity, hidentity, -, rfl⟩ := hchain.exists_identity hopts
    obtain rfl := hcanon _ identity hidentity
    exact ⟨[], rfl, h⟩
  | @included d i path chain included hd hrefers hchain hread ih =>
    -- The file's own name stands before whatever leads on from it.
    obtain ⟨above, habove, hleads⟩ := ih (.next (.file hrefers hchain hread) rfl h)
    obtain ⟨identity, hidentity, -, rfl⟩ := hchain.exists_identity hopts
    obtain rfl := hcanon path identity hidentity
    refine ⟨above ++ [canon path], ?_, ?_⟩
    · rw [habove, List.append_assoc]
    · rwa [List.append_assoc, List.singleton_append]

end Document

open Document

/--
A cycle that a run reports, and that no command of the run reports as its own failure, is one of
includes. It begins with the name of the document's file, or with a file that the document includes
where it comes from standard input, and goes on from each document to one that it names for
inclusion, as far as the answers given in this very run are concerned. No name but the last comes
twice, and the last is the name of a file further up.
-/
theorem leads_of_cycle {σ : Type} {h : Host σ} {canon : Path → Path}
    (hcanon : ∀ path s, (h (.identify path) s).1.answer = canon path) {opts : Options}
    {depth rounds : Nat} {source : Source} {text : Text} {s : σ} {chain : List Path} {r : Run σ}
    (hrun : Schedule.run h rounds (Plan.render opts depth [] source text) ⟨s, 0, []⟩ =
      (.halted (.failed (.cycle chain)), r))
    (hown : ∀ command directory,
      ¬ h.Tells s r.requests (.execute command directory) (.error (.cycle chain))) :
    ∃ names, chain = (source.path?.map canon).toList ++ names ∧
      (top canon source text).Leads (h.Tells s r.requests) opts canon names ∧
      2 ≤ chain.length ∧ (chain.dropLast.map Path.components).Nodup ∧
      ∃ last, chain.getLast? = some last ∧ ∃ earlier ∈ chain.dropLast, Path.same last earlier := by
  have hname : ∀ path identity, h.Tells s r.requests (.identify path) identity →
      identity = canon path := by
    intro path identity hidentity
    obtain ⟨s', rfl⟩ := h.keeps_allows.of_tells hidentity
    exact hcanon path s'
  have hsafe : (Plan.render opts depth [] source text).Safe (h.Tells s r.requests) (fun _ => True)
      (fun why => ∀ failure, why = .failed failure →
        ∃ d, Reached (h.Tells s r.requests) opts source text d ∧
          d.Fails (h.Tells s r.requests) opts failure) := by
    refine .render (fun _ _ _ _ => trivial) (fun d hd failure hfails => ?_)
      (fun _ _ _ _ hwhy => by cases hwhy) fun _ _ _ => trivial
    rintro _ ⟨⟩
    exact ⟨d, hd, hfails⟩
  -- Only the answers of this very run count, for the host may give others after other calls.
  obtain ⟨d, hd, hfails⟩ := Schedule.halted_of_safe hrun hsafe _ rfl
  cases hfails with
  | command hfailure => exact absurd hfailure (hown _ _)
  | @cycle i path identity hopts hrefers hidentity hcycle =>
    obtain rfl := hname path identity hidentity
    obtain ⟨above, habove, hleads⟩ := hd.leads hname hopts (.last hrefers)
    obtain ⟨earlier, hearlier, hsame⟩ := List.any_eq_true.1 hcycle
    refine ⟨above ++ [canon path], ?_, hleads, ?_, ?_, canon path, ?_, earlier, ?_, hsame⟩
    · rw [habove, List.append_assoc]
    · have hpos := List.length_pos_of_mem hearlier
      rw [List.length_append, List.length_singleton]
      omega
    · rw [List.dropLast_concat]
      exact hd.nodup_chain hopts
    · exact List.getLast?_concat
    · rwa [List.dropLast_concat]

/-- Three files in a ring, known by their paths without marks, and one that is on no way back. -/
def Oracle.ring : Oracle
  | .identify path => path.unmarked
  | .read path =>
    ofFiles [(['a'], "$<<@b>>".toList), (['b'], "$<<s>>$<<c@>>".toList), (['c'], "$<<@a@>>".toList),
      (['s'], "$((x))".toList)] (.read path.unmarked)
  | c => ofFiles [] c

/-- Its fifth answer is late, which is that of the file on no way back. -/
def Host.ring : Host Nat := Oracle.ring.host fun n _ => if n = 4 then 9 else 0

/-- The cycle is reported while the file beside it is still to come. -/
theorem leads_of_cycle_ring :
    ∃ r, Schedule.run Host.ring 0 (Plan.render {} 4 [] (.file "@a".toList) "$<<@b>>".toList)
        ⟨0, 0, []⟩ = (.halted (.failed (.cycle [['a'], ['b'], ['c'], ['a']])), r) ∧
    ∃ names, [['a'], ['b'], ['c'], ['a']] = [['a']] ++ names ∧
      (top Path.unmarked (.file "@a".toList) "$<<@b>>".toList).Leads (Host.ring.Tells 0 r.requests)
        {} Path.unmarked names := by
  obtain ⟨r, hrun⟩ : ∃ r, Schedule.run Host.ring 0
      (Plan.render {} 4 [] (.file "@a".toList) "$<<@b>>".toList) ⟨0, 0, []⟩ =
      (.halted (.failed (.cycle [['a'], ['b'], ['c'], ['a']])), r) :=
    ⟨_, Prod.ext (by decide +kernel) rfl⟩
  have hown : ∀ command directory, ¬ Host.ring.Tells 0 r.requests (.execute command directory)
      (.error (.cycle [['a'], ['b'], ['c'], ['a']])) := by
    intro command directory htells
    cases (Oracle.ring.host_follows _).keeps.of_tells htells
  obtain ⟨names, hchain, hleads, -⟩ := leads_of_cycle (fun _ _ => rfl) hrun hown
  exact ⟨r, hrun, names, hchain, hleads⟩

end Inlay
