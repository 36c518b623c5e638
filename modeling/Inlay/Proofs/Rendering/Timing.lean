import Inlay.Proofs.Plan.Timing
import Inlay.Proofs.Rendering.Cycle
import Mathlib.Algebra.GroupWithZero.Nat

namespace Inlay

namespace Oracle

variable (f : Oracle)

/-- The text of a file; where it cannot be read, none. -/
def content (path : Path) : Text :=
  match f (.read path) with
  | .ok text => text
  | .error _ => []

/-- What a command of a document puts out; where it fails, nothing. -/
def output (source : Source) (command : Text) : Text :=
  match f (.execute command source.directory) with
  | .ok output => output
  | .error _ => []

/-- A text with its variables and the documents that it includes in their places. -/
def filled (inner : Path → Text) (source : Source) (text : Text) : Text :=
  Segment.splice (Marker.scan .inclusion (f.named text)) ((f.includes source text).map inner)

/-- The text that a document is rendered to, where documents include one another to the depth. -/
def rendered : (depth : Nat) → Source → Text → Text
  | 0, _, _ => []
  | depth + 1, source, text =>
    let filled := f.filled (fun path => rendered depth (.file path) (f.content path)) source text
    (Segment.splice (Marker.scan .command filled)
      ((Segment.markers (Marker.scan .command filled)).map fun m =>
        f.output source m.payload)).closeLine

def renderedFile (depth : Nat) (path : Path) : Text :=
  f.rendered depth (.file path) (f.content path)

/-- The commands of a document, those among them that its variables and includes have put there. -/
def commands (depth : Nat) (source : Source) (text : Text) : List Call :=
  (Segment.markers (Marker.scan .command (f.filled (f.renderedFile depth) source text))).map
    fun m => .execute m.payload source.directory

/--
How long the passes over a document take. An include takes as long as it takes to have the file, and
then as the passes over it.
-/
def span (opts : Options) (delay : Call → Nat) : (depth : Nat) → Source → Text → Nat
  | 0, _, _ => 0
  | depth + 1, source, text =>
    longest ((f.includes source text).map fun path =>
      ((opts.naming (.file path)).map delay).sum + delay (.read path) +
        span opts delay depth (.file path) (f.content path)) +
    longest ((f.commands depth source text).map delay)

/-- How long it takes from an include to the text that stands in its place. -/
def spanFile (opts : Options) (delay : Call → Nat) (depth : Nat) (path : Path) : Nat :=
  ((opts.naming (.file path)).map delay).sum + delay (.read path) +
    f.span opts delay depth (.file path) (f.content path)

variable {f} {opts : Options} {delay : Call → Nat}

theorem rendered_succ (depth : Nat) (source : Source) (text : Text) :
    f.rendered (depth + 1) source text =
      (Segment.splice (Marker.scan .command (f.filled (f.renderedFile depth) source text))
        ((Segment.markers (Marker.scan .command (f.filled (f.renderedFile depth) source text))).map
          fun m => f.output source m.payload)).closeLine := rfl

theorem span_succ (depth : Nat) (source : Source) (text : Text) :
    f.span opts delay (depth + 1) source text =
      longest ((f.includes source text).map (f.spanFile opts delay depth)) +
        longest ((f.commands depth source text).map delay) := rfl

theorem Expands.eq_of_le {depth depth' : Nat} {source : Source} {text : Text}
    (h : f.Expands depth source text) (hle : depth ≤ depth') :
    f.rendered depth' source text = f.rendered depth source text ∧
      f.span opts delay depth' source text = f.span opts delay depth source text := by
  induction depth generalizing depth' source text with
  | zero => exact h.elim
  | succ depth ih =>
    obtain ⟨depth', rfl⟩ : ∃ d, depth' = d + 1 := ⟨depth' - 1, by omega⟩
    have hfile : ∀ path ∈ f.includes source text,
        f.renderedFile depth' path = f.renderedFile depth path ∧
          f.spanFile opts delay depth' path = f.spanFile opts delay depth path := by
      intro path hpath
      obtain ⟨t, ht, hexpands⟩ := h path hpath
      have hcontent : f.content path = t := by rw [content, ht]
      rw [← hcontent] at hexpands
      obtain ⟨hrendered, hspan⟩ := ih hexpands (Nat.le_of_succ_le_succ hle)
      exact ⟨hrendered, by rw [spanFile, hspan, spanFile]⟩
    have hfilled : f.filled (f.renderedFile depth') source text =
        f.filled (f.renderedFile depth) source text := by
      rw [filled, filled, List.map_congr_left fun path hpath => (hfile path hpath).1]
    constructor
    · rw [rendered_succ, rendered_succ, hfilled]
    · rw [span_succ, span_succ, commands, commands, hfilled,
        List.map_congr_left fun path hpath => (hfile path hpath).2]

end Oracle

namespace Plan

variable {f : Oracle} {delay : Call → Nat} {opts : Options} {place : Place} {source : Source}
  {text t : Text} {n : Nat}

theorem exists_latest_of_pass {kind : Marker.Kind} {resolve : Nat → Text → Plan}
    (h : (pass opts place source kind text resolve).Lasts f delay t n) :
    ∃ values, Latest (Lasts f delay) 0 (branches kind text resolve) values n ∧
      t = Segment.splice (Marker.scan kind text) values := by
  rw [pass_eq] at h
  cases lasts_of_notes h with
  | join hbranches hnext =>
    cases hnext
    exact ⟨_, hbranches, rfl⟩

theorem eq_of_lasts_pass {kind : Marker.Kind} {resolve : Nat → Text → Plan} {v : Text → Text}
    {d : Text → Nat}
    (hresolve : ∀ i, ∀ m ∈ Segment.markers (Marker.scan kind text), ∀ t n,
      (resolve i m.payload).Lasts f delay t n → t = v m.payload ∧ n = d m.payload)
    (h : (pass opts place source kind text resolve).Lasts f delay t n) :
    t = Segment.splice (Marker.scan kind text)
        ((Segment.markers (Marker.scan kind text)).map fun m => v m.payload) ∧
      n = longest ((Segment.markers (Marker.scan kind text)).map fun m => d m.payload) := by
  obtain ⟨values, hbranches, rfl⟩ := exists_latest_of_pass h
  obtain ⟨rfl, rfl⟩ := hbranches.eq_mapIdx (v := fun m => v m.payload)
    (d := fun m => d m.payload) hresolve
  exact ⟨rfl, rfl⟩

theorem lasts_of_noteIf {m : Notice} {p : Plan}
    (h : (noteIf opts place m p).Lasts f delay t n) : p.Lasts f delay t n := by
  rw [noteIf_eq] at h
  exact lasts_of_notes h

theorem exists_lasts_of_ask {c : Call} {next : c.Answer → Plan}
    (h : (ask place c next).Lasts f delay t n) :
    ∃ n', (next (f c)).Lasts f delay t n' ∧ n = delay c + n' := by
  cases h with
  | ask h => exact ⟨_, h, rfl⟩

theorem eq_of_lasts_done {u : Text} (h : (done u).Lasts f delay t n) : t = u ∧ n = 0 := by
  cases h
  exact ⟨rfl, rfl⟩

theorem eq_of_lasts_resolveName {name : Text}
    (h : (resolveName opts place source name).Lasts f delay t n) :
    t = (f (.lookup name)).getD [] ∧ n = delay (.lookup name) := by
  obtain ⟨n', hnext, rfl⟩ := exists_lasts_of_ask (lasts_of_noteIf h)
  obtain ⟨rfl, rfl⟩ := eq_of_lasts_done hnext
  exact ⟨rfl, Nat.add_zero _⟩

theorem eq_of_lasts_resolveCommand {command : Text}
    (h : (resolveCommand opts place source command).Lasts f delay t n) :
    t = f.output source command ∧ n = delay (.execute command source.directory) := by
  obtain ⟨n', hnext, rfl⟩ := exists_lasts_of_ask (lasts_of_noteIf h)
  rw [Oracle.output]
  generalize f (.execute command source.directory) = answer at hnext ⊢
  rcases answer with failure | output
  · cases hnext
  · obtain ⟨rfl, rfl⟩ := eq_of_lasts_done hnext
    exact ⟨rfl, Nat.add_zero _⟩

theorem exists_lasts_of_resolveFile {chain : List Path}
    {nested : Path → List Path → Text → Plan} {relative : Text}
    (h : (resolveFile opts place source chain nested relative).Lasts f delay t n) :
    ∃ chain' content n', f (.read (source.resolve relative)) = .ok content ∧
      (nested (source.resolve relative) chain' content).Lasts f delay t n' ∧
        n = ((opts.naming (.file (source.resolve relative))).map delay).sum +
          delay (.read (source.resolve relative)) + n' := by
  have hread : ∀ chain n, (readFile opts place source (source.resolve relative)
      (nested (source.resolve relative) chain)).Lasts f delay t n →
      ∃ content n', f (.read (source.resolve relative)) = .ok content ∧
        (nested (source.resolve relative) chain content).Lasts f delay t n' ∧
        n = delay (.read (source.resolve relative)) + n' := by
    intro chain n h
    obtain ⟨n', hnext, rfl⟩ := exists_lasts_of_ask (lasts_of_noteIf h)
    split at hnext
    · rename_i content hcontent
      exact ⟨content, n', hcontent, hnext, rfl⟩
    · cases hnext
  -- A file costs a question for its name only where detection is on.
  cases hopts : opts.detectCycles with
  | false =>
    rw [resolveFile_unchecked hopts] at h
    obtain ⟨content, n', hcontent, hnested, rfl⟩ := hread _ _ h
    have hnaming : opts.naming (.file (source.resolve relative)) = [] := by
      simp only [Options.naming, hopts]
    exact ⟨_, content, n', hcontent, hnested, by rw [hnaming]; simp⟩
  | true =>
    rw [resolveFile_checked hopts] at h
    obtain ⟨_, hnext, rfl⟩ := exists_lasts_of_ask h
    split at hnext
    · cases hnext
    · obtain ⟨content, n', hcontent, hnested, rfl⟩ := hread _ _ hnext
      have hnaming : opts.naming (.file (source.resolve relative)) =
          [.identify (source.resolve relative)] := by
        simp only [Options.naming, hopts, Source.path?]
      exact ⟨_, content, n', hcontent, hnested, by rw [hnaming]; simp [Nat.add_assoc]⟩

/-- The passes over a document come to its text, and last as long as its span. -/
theorem eq_of_lasts_passes (hlookup : ∀ name, delay (.lookup name) = 0) {depth : Nat}
    {chain : List Path} (h : (passes opts depth place source chain text).Lasts f delay t n) :
    t = f.rendered depth source text ∧ n = f.span opts delay depth source text ∧
      f.Expands depth source text := by
  induction depth generalizing place source chain text t n with
  | zero => cases h
  | succ depth ih =>
    obtain ⟨named, _, _, hnamed, hincluding, rfl⟩ := exists_lasts_of_bind h
    obtain ⟨filled, _, _, hfilled, hexecuting, rfl⟩ := exists_lasts_of_bind hincluding
    obtain ⟨finished, _, _, hfinished, hclosing, rfl⟩ := exists_lasts_of_bind hexecuting
    obtain ⟨rfl, rfl⟩ := eq_of_lasts_done hclosing
    obtain ⟨rfl, rfl⟩ := eq_of_lasts_pass (v := fun name => (f (.lookup name)).getD [])
      (d := fun name => delay (.lookup name))
      (fun _ _ _ _ _ h => eq_of_lasts_resolveName h) hnamed
    -- Names are looked up in no time, so that the second pass begins with the first.
    have hnames : longest ((Segment.markers (Marker.scan .lookup text)).map
        fun m => delay (.lookup m.payload)) = 0 :=
      longest_eq_zero (by simp [hlookup])
    have hfile : ∀ i relative t n, (resolveFile opts place source chain
        (fun path => passes opts depth (place ++ [i]) (.file path)) relative).Lasts f delay t n →
        f.ExpandsFile depth (source.resolve relative) ∧
          t = f.renderedFile depth (source.resolve relative) ∧
            n = f.spanFile opts delay depth (source.resolve relative) := by
      intro i relative t n h
      obtain ⟨chain', content, n', hcontent, hnested, rfl⟩ := exists_lasts_of_resolveFile h
      obtain ⟨rfl, rfl, hexpands⟩ := ih hnested
      have heq : f.content (source.resolve relative) = content := by rw [Oracle.content, hcontent]
      rw [Oracle.renderedFile, Oracle.spanFile, heq]
      exact ⟨⟨content, hcontent, hexpands⟩, rfl, rfl⟩
    -- A pass that comes to its end has waited for each of its branches.
    have hexpands : f.Expands (depth + 1) source text := by
      intro path hpath
      obtain ⟨m, hm, rfl⟩ := List.mem_map.1 hpath
      obtain ⟨i, hi⟩ := List.getElem?_of_mem hm
      obtain ⟨values, hbranches, -⟩ := exists_latest_of_pass hfilled
      obtain ⟨t, n, h⟩ := hbranches.exists_of_mem (mem_branches.2 ⟨i, m, hi, rfl⟩)
      exact (hfile i m.payload t n h).1
    obtain ⟨rfl, rfl⟩ := eq_of_lasts_pass
      (v := fun relative => f.renderedFile depth (source.resolve relative))
      (d := fun relative => f.spanFile opts delay depth (source.resolve relative))
      (fun i m _ t n h => (hfile i m.payload t n h).2) hfilled
    obtain ⟨rfl, rfl⟩ := eq_of_lasts_pass (v := fun command => f.output source command)
      (d := fun command => delay (.execute command source.directory))
      (fun _ _ _ _ _ h => eq_of_lasts_resolveCommand h) hfinished
    refine ⟨?_, ?_, hexpands⟩
    · rw [Oracle.rendered_succ, Oracle.filled, Oracle.includes, List.map_map]
      rfl
    · rw [hnames, Nat.zero_add, Nat.add_zero, Oracle.span_succ, Oracle.commands, Oracle.filled,
        Oracle.includes, List.map_map, List.map_map, List.map_map]
      rfl

end Plan

theorem Oracle.span_congr {f : Oracle} {opts : Options} {delay : Call → Nat} {depth : Nat}
    {source source' : Source} {text text' : Text}
    (hincludes : ∀ path, path ∈ f.includes source' text' ↔ path ∈ f.includes source text)
    (hcommands : ∀ c, c ∈ f.commands depth source' text' ↔ c ∈ f.commands depth source text) :
    f.span opts delay (depth + 1) source' text' = f.span opts delay (depth + 1) source text := by
  have hfiles : longest ((f.includes source' text').map (f.spanFile opts delay depth)) =
      longest ((f.includes source text).map (f.spanFile opts delay depth)) :=
    longest_congr fun n => by simp only [List.mem_map, hincludes]
  have hcalls : longest ((f.commands depth source' text').map delay) =
      longest ((f.commands depth source text).map delay) :=
    longest_congr fun n => by simp only [List.mem_map, hcommands]
  rw [span_succ, span_succ, hfiles, hcalls]

/--
A rendering that comes to a text takes as long as its document: until the slowest of the included
files has been read and rendered in its turn, and then until the slowest of its commands has ended.
How often a file is included or a command run, in which order, and by which rule their results are
joined makes no difference, nor does the depth to which documents may include one another.
-/
theorem now_eq_span {σ : Type} {h : Host σ} {f : Oracle} (hf : h.Follows f) {delay : Call → Nat}
    (hdelay : h.Takes delay) (hlookup : ∀ name, delay (.lookup name) = 0) {opts : Options}
    {depth rounds : Nat} {source : Source} {text t : Text} {s : σ} {r : Run σ}
    (hrun : Schedule.run h rounds (Plan.render opts (depth + 1) [] source text) ⟨s, 0, []⟩ =
      (.text t, r)) :
    t = f.rendered (depth + 1) source text ∧
      r.now = ((opts.naming source).map delay).sum + f.span opts delay (depth + 1) source text ∧
      (∀ more ≥ depth + 1,
        f.span opts delay more source text = f.span opts delay (depth + 1) source text) ∧
      ∀ source' text',
        (∀ path, path ∈ f.includes source' text' ↔ path ∈ f.includes source text) →
        (∀ c, c ∈ f.commands depth source' text' ↔ c ∈ f.commands depth source text) →
        ∀ rounds' s' t' r', Schedule.run h rounds'
            (Plan.render opts (depth + 1) [] source' text') ⟨s', 0, []⟩ = (.text t', r') →
          r'.now =
            ((opts.naming source').map delay).sum + f.span opts delay (depth + 1) source text := by
  have hlaw : ∀ source text rounds s t r, Schedule.run h rounds
        (Plan.render opts (depth + 1) [] source text) ⟨s, 0, []⟩ = (.text t, r) →
      t = f.rendered (depth + 1) source text ∧ f.Expands (depth + 1) source text ∧
        r.now =
          ((opts.naming source).map delay).sum + f.span opts delay (depth + 1) source text := by
    intro source text rounds s t r hrun
    obtain ⟨n, hlasts, hnow⟩ := Schedule.exists_lasts_of_run hf hdelay hrun
    obtain rfl : r.now = n := hnow.trans (Nat.zero_add n)
    rcases Plan.render_cases opts source with ⟨path, hnaming, hrender⟩ | ⟨hnaming, hrender⟩
    · rw [hrender] at hlasts
      obtain ⟨n', hpasses, hn⟩ := Plan.exists_lasts_of_ask hlasts
      obtain ⟨ht, rfl, hexpands⟩ := Plan.eq_of_lasts_passes hlookup hpasses
      exact ⟨ht, hexpands, by rw [hn, hnaming]; simp⟩
    · rw [hrender] at hlasts
      obtain ⟨ht, hn, hexpands⟩ := Plan.eq_of_lasts_passes hlookup hlasts
      exact ⟨ht, hexpands, by rw [hn, hnaming]; simp⟩
  obtain ⟨ht, hexpands, hnow⟩ := hlaw source text rounds s t r hrun
  refine ⟨ht, hnow, fun more hmore => (hexpands.eq_of_le hmore).2, ?_⟩
  intro source' text' hincludes hcommands rounds' s' t' r' hrun'
  rw [(hlaw source' text' rounds' s' t' r' hrun').2.2, Oracle.span_congr hincludes hcommands]

/-- Files are named and read sooner than commands end, and one file later than all others. -/
def Call.patience : Call → Nat
  | .lookup _ => 0
  | .identify _ => 1
  | .read path => if path = ['b'] then 5 else 2
  | .readStdin => 0
  | .execute .. => 7

/-- One document two levels down decides how long it takes, wherever else it is included. -/
theorem now_eq_span_nest :
    ∃ r r', Schedule.run (Oracle.nest.host fun _ => Call.patience) 20
        (Plan.render {} 3 [] (.file ['m']) "$<<b>>$<<c>>$((y))".toList) ⟨0, 0, []⟩ =
          (.text "Bx\nCBx\ny\n".toList, r) ∧ r.now = 1 + (1 + 2 + (1 + 5 + 7) + 7) ∧
      Schedule.run (Oracle.nest.host fun _ => Call.patience) 20
        (Plan.render {} 3 [] (.file ['m']) "$((y))$<<c>>$((y))$<<b>>$<<c>>".toList) ⟨0, 0, []⟩ =
          (.text "yCBx\nyBx\nCBx\n".toList, r') ∧ r'.now = r.now := by
  have hspan : Oracle.nest.span {} Call.patience 3 (.file ['m']) "$<<b>>$<<c>>$((y))".toList =
      1 + 2 + (1 + 5 + 7) + 7 := by
    decide +kernel
  have hrun : ∃ r, Schedule.run (Oracle.nest.host fun _ => Call.patience) 20
      (Plan.render {} 3 [] (.file ['m']) "$<<b>>$<<c>>$((y))".toList) ⟨0, 0, []⟩ =
        (.text "Bx\nCBx\ny\n".toList, r) :=
    ⟨_, Prod.ext (by decide +kernel) rfl⟩
  have hrun' : ∃ r, Schedule.run (Oracle.nest.host fun _ => Call.patience) 20
      (Plan.render {} 3 [] (.file ['m']) "$((y))$<<c>>$((y))$<<b>>$<<c>>".toList) ⟨0, 0, []⟩ =
        (.text "yCBx\nyBx\nCBx\n".toList, r) :=
    ⟨_, Prod.ext (by decide +kernel) rfl⟩
  obtain ⟨r, hr⟩ := hrun
  obtain ⟨r', hr'⟩ := hrun'
  have htakes : (Oracle.nest.host fun _ => Call.patience).Takes Call.patience := fun _ _ => rfl
  obtain ⟨-, hnow, -, hsame⟩ := now_eq_span
    (Oracle.host_follows Oracle.nest fun _ => Call.patience) htakes (fun _ => rfl) hr
  refine ⟨r, r', hr, ?_, hr', ?_⟩
  · rw [hnow, hspan]
    rfl
  · rw [hnow]
    have hincludes : Oracle.nest.includes (.file ['m']) "$((y))$<<c>>$((y))$<<b>>$<<c>>".toList =
          [['c'], ['b'], ['c']] ∧
        Oracle.nest.includes (.file ['m']) "$<<b>>$<<c>>$((y))".toList = [['b'], ['c']] := by
      decide +kernel
    have hcommands : Oracle.nest.commands 2 (.file ['m'])
            "$((y))$<<c>>$((y))$<<b>>$<<c>>".toList =
          [.execute ['y'] ['.'], .execute ['y'] ['.']] ∧
        Oracle.nest.commands 2 (.file ['m']) "$<<b>>$<<c>>$((y))".toList =
          [.execute ['y'] ['.']] := by
      decide +kernel
    refine hsame _ _ (fun path => ?_) (fun c => ?_) _ _ _ _ hr'
    · rw [hincludes.1, hincludes.2]
      simp only [List.mem_cons, List.not_mem_nil]
      tauto
    · rw [hcommands.1, hcommands.2]
      simp

end Inlay
