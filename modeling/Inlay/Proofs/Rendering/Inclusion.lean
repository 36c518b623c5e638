import Inlay.Proofs.Rendering.Document
import Inlay.Proofs.Rendering.Outcome

namespace Inlay

namespace Plan

variable {A : Answering} {opts : Options}

/-- An include that comes to a text goes on to the file that it names, which is not in the chain. -/
theorem Yields.exists_read {place : Place} {source : Source} {chain : List Path}
    {nested : Path → List Path → Text → Plan} {relative t : Text} {cs : Multiset Call}
    (h : Yields A (resolveFile opts place source chain nested relative) t cs) :
    ∃ longer text cs', Lengthens A opts chain (source.resolve relative) longer ∧
      A (.read (source.resolve relative)) (.ok text) ∧
      Yields A (nested (source.resolve relative) longer text) t cs' := by
  cases hopts : opts.detectCycles with
  | false =>
    rw [resolveFile_unchecked hopts] at h
    obtain ⟨text, cs', htext, h, -⟩ := yields_readFile_iff.1 h
    exact ⟨chain, text, cs', .unchecked hopts, htext, h⟩
  | true =>
    rw [resolveFile_checked hopts] at h
    obtain ⟨(identity : Path), _, hidentity, h, -⟩ := yields_ask_iff.1 h
    split at h
    · cases h
    · rename_i hnew
      obtain ⟨text, cs', htext, h, -⟩ := yields_readFile_iff.1 h
      exact ⟨chain ++ [identity], text, cs',
        .checked hopts hidentity (Bool.eq_false_iff.2 hnew), htext, h⟩

end Plan

theorem Lengthens.unique {f : Oracle} {opts : Options} {chain longer longer' : List Path}
    {path : Path} (h : Lengthens f.only opts chain path longer)
    (h' : Lengthens f.only opts chain path longer') : longer = longer' := by
  cases h with
  | unchecked hoff => cases h' with
    | unchecked => rfl
    | checked hon => exact absurd (hoff.symm.trans hon) Bool.false_ne_true
  | checked hon hidentity => cases h' with
    | unchecked hoff => exact absurd (hoff.symm.trans hon) Bool.false_ne_true
    | checked _ hidentity' => rw [hidentity.trans hidentity'.symm]

namespace Document

/--
How the document comes to its text: its variables being in their places, its includes come to these
texts, and the commands that are then in it make it the text in the end.
-/
structure Fills (A : Answering) (opts : Options) (d : Document) (named : Text)
    (values : List Text) (t : Text) : Prop where
  names : d.Names A opts named
  includes : ∃ depth cs, Plan.YieldsAll A
    (Plan.branches .inclusion named fun i relative =>
      Plan.resolveFile opts d.place d.source d.chain
        (fun path => Plan.passes opts depth (d.place ++ [i]) (.file path)) relative) values cs
  commands : ∃ executed cs, Plan.Yields A
    (.pass opts d.place d.source .command (Segment.splice (Marker.scan .inclusion named) values)
      fun _ command => .resolveCommand opts d.place d.source command) executed cs ∧
    t = executed.closeLine

variable {f : Oracle} {opts : Options} {source : Source} {text t : Text} {d : Document}

/-- A document that comes to a text is filled, and every file that it includes comes to one too. -/
theorem fills_of_yields {below : Nat} {cs : Multiset Call}
    (h : Plan.Yields f.only (.passes opts below d.place d.source d.chain d.text) t cs) :
    ∃ less named values, below = less + 1 ∧ d.Fills f.only opts named values t ∧
      ∀ i path, d.Refers f.only opts i path → ∃ longer c v cs', values[i]? = some v ∧
        Lengthens f.only opts d.chain path longer ∧ f (.read path) = .ok c ∧
        Plan.Yields f.only (.passes opts less (d.place ++ [i]) (.file path) longer c) v cs' := by
  obtain _ | less := below
  · cases h
  obtain ⟨named, _, _, hnamed, h, -⟩ := Plan.yields_bind_iff.1 h
  obtain ⟨included, _, _, hincluded, h, -⟩ := Plan.yields_bind_iff.1 h
  obtain ⟨values, hvalues, rfl⟩ := Plan.yields_pass_iff.1 hincluded
  obtain ⟨executed, _, _, hexecuted, hdone, -⟩ := Plan.yields_bind_iff.1 h
  cases hdone
  refine ⟨less, named, values, rfl, ⟨⟨_, hnamed⟩, ⟨less, _, hvalues⟩, executed, _, hexecuted, rfl⟩,
    ?_⟩
  rintro i _ ⟨named', m, ⟨_, hnamed'⟩, hm, rfl⟩
  obtain ⟨rfl, -⟩ := hnamed.unique hnamed'
  obtain ⟨v, _, hv, hyields⟩ := hvalues.exists_getElem? (Plan.getElem?_branches hm)
  obtain ⟨longer, c, cs', hlonger, hc, hyields⟩ := hyields.exists_read
  exact ⟨longer, c, v, cs', hv, hlonger, hc.symm, hyields⟩

theorem Reached.exists_yields {depth : Nat} {cs : Multiset Call}
    (h : Plan.Yields f.only (.render opts depth [] source text) t cs)
    (hd : Reached f.only opts source text d) :
    ∃ below u cs', d.place.length + below = depth ∧ (d.place = [] → u = t) ∧
      Plan.Yields f.only (.passes opts below d.place d.source d.chain d.text) u cs' := by
  induction hd with
  | stdin hsource =>
    subst hsource
    refine ⟨depth, t, cs, Nat.zero_add depth, fun _ => rfl, ?_⟩
    rw [Plan.render] at h
    cases hopts : opts.detectCycles <;> simpa [hopts, Source.path?] using h
  | @file path chain hsource hchain =>
    subst hsource
    rw [Plan.render] at h
    cases hchain with
    | unchecked hoff =>
      simp only [hoff] at h
      exact ⟨depth, t, cs, Nat.zero_add depth, fun _ => rfl, h⟩
    | @checked identity hon hidentity =>
      simp only [hon, Source.path?] at h
      obtain ⟨identity', cs', hidentity', h, -⟩ := Plan.yields_ask_iff.1 h
      obtain rfl : identity = identity' := hidentity.trans hidentity'.symm
      exact ⟨depth, t, cs', Nat.zero_add depth, fun _ => rfl, h⟩
  | @included d i path chain included _ hrefers hchain hread ih =>
    obtain ⟨below, u, cs', hdepth, -, hyields⟩ := ih
    obtain ⟨less, _, _, rfl, -, hfiles⟩ := fills_of_yields hyields
    obtain ⟨longer, c, v, cs'', -, hlonger, hc, hv⟩ := hfiles i path hrefers
    obtain rfl := hchain.unique hlonger
    obtain rfl : included = c := Except.ok.inj (hread.trans hc)
    -- The file lies one deeper than its document, and so it is not the top.
    refine ⟨less, v, cs'', ?_, fun hplace => ?_, hv⟩
    · rw [List.length_append, List.length_singleton]
      omega
    · simp at hplace

end Document

theorem Plan.Yields.render_of_passes {A : Answering} {opts : Options} {chain longer : List Path}
    {path : Path} (hlonger : Lengthens A opts chain path longer) {depth depth' : Nat}
    (hd : depth ≤ depth') {place : Place} {text t : Text} {cs : Multiset Call}
    (h : Yields A (.passes opts depth place (.file path) longer text) t cs) :
    ∃ cs', Yields A (.render opts depth' [] (.file path) text) t cs' := by
  -- On its own the file has fewer names above it, and so there are fewer that are refused below.
  have hless : ∀ chain', chain' ⊆ longer →
      Yields A (.passes opts depth' [] (.file path) chain' text) t cs := by
    intro chain' hchain
    have hle : Refines A ⊥ (passes opts depth place (.file path) longer text)
        (passes opts depth' [] (.file path) chain' text) := .passes_of_subset hd hchain text
    obtain ⟨cs', h', rfl⟩ := hle t cs h
    exact h'
  rw [Plan.render]
  cases hlonger with
  | unchecked hoff =>
    rw [hoff]
    exact ⟨cs, hless [] (List.nil_subset chain)⟩
  | @checked identity hon hidentity =>
    rw [hon]
    exact ⟨_, .ask hidentity (hless [identity] (List.subset_append_right ..))⟩

variable {σ : Type}

theorem Plan.Echoes.exists_run {h : Host σ} {f : Oracle} (hf : h.Follows f) {H : Halt → Prop}
    {p : Plan} {t : Text} (hp : p.Echoes f H t) (s : σ) :
    ∃ rounds r, Schedule.run h rounds p ⟨s, 0, []⟩ = (.text t, r) ∨
      ∃ why, H why ∧ Schedule.run h rounds p ⟨s, 0, []⟩ = (.halted why, r) := by
  obtain ⟨rounds, hends⟩ := Schedule.run_ends h p ⟨s, 0, []⟩
  cases hrun : Schedule.run h rounds p ⟨s, 0, []⟩ with
  | mk outcome r =>
    rw [hrun] at hends
    refine ⟨rounds, r, ?_⟩
    cases outcome with
    | text t' =>
      obtain ⟨cs, hcs, -⟩ := Schedule.yields_of_run hf.keeps hrun
      rw [hrun, hp.text t' cs hcs]
      exact .inl rfl
    | halted why =>
      exact .inr ⟨why, Schedule.halted_of_keeps hf.keeps hrun hp.safe, hrun⟩
    | unfinished => exact absurd rfl hends

open Document

/--
On a host with one answer for every call, whatever a rendering sets in place of an include, at any
depth, is the text to which the file comes by itself, and it does come to one. The documents above a
document never make another text of it: where it comes to a text under some of them, it comes to the
same text under all others, unless it is refused for a cycle.
-/
theorem renders_included {h : Host σ} {f : Oracle} (hf : h.Follows f) (opts : Options) :
    (∀ depth source text s t calls, Renders h opts depth source text s t calls →
      ∀ d, Reached f.only opts source text d → ∃ named values u,
        d.Fills f.only opts named values u ∧ (d.place = [] → u = t) ∧
        ∀ i path, d.Refers f.only opts i path → ∃ included v, f (.read path) = .ok included ∧
          values[i]? = some v ∧
          ∀ s', ∃ calls', Renders h opts depth (.file path) included s' v calls') ∧
    ∀ depth place source chain text s t,
      (∃ rounds r, Schedule.run h rounds (Plan.passes opts depth place source chain text)
        ⟨s, 0, []⟩ = (.text t, r)) →
      ∀ depth' ≥ depth, ∀ place' chain' s', ∃ rounds r,
        Schedule.run h rounds (Plan.passes opts depth' place' source chain' text) ⟨s', 0, []⟩ =
          (.text t, r) ∨
        ∃ cycle, Schedule.run h rounds (Plan.passes opts depth' place' source chain' text)
          ⟨s', 0, []⟩ = (.halted (.failed (.cycle cycle)), r) := by
  refine ⟨fun depth source text s t calls hr d hd => ?_, ?_⟩
  · obtain ⟨below, u, cs, hdepth, htop, hu⟩ := hd.exists_yields (hr.yields hf.keeps)
    obtain ⟨less, named, values, rfl, hfills, hfiles⟩ := fills_of_yields hu
    refine ⟨named, values, u, hfills, htop, fun i path hrefers => ?_⟩
    obtain ⟨longer, included, v, cs', hv, hlonger, hincluded, hyields⟩ := hfiles i path hrefers
    have halone := hyields.render_of_passes hlonger (show less ≤ depth by omega)
    exact ⟨included, v, hincluded, hv, fun s' => (exists_renders_iff hf).2 halone⟩
  · rintro depth place source chain text s t ⟨rounds, r, hrun⟩ depth' hd place' chain' s'
    obtain ⟨cs, hcs, -⟩ := Schedule.yields_of_run hf.keeps hrun
    have hechoes : (Plan.passes opts depth' place' source chain' text).Echoes f
        (fun why => ∃ cycle, why = .failed (.cycle cycle)) t :=
      .passes (fun hless => absurd hd (not_le.2 hless)) (fun _ cycle => ⟨cycle, rfl⟩) hcs
    obtain ⟨rounds, r, hrun | ⟨why, ⟨cycle, rfl⟩, hrun⟩⟩ := hechoes.exists_run hf s'
    · exact ⟨rounds, r, .inl hrun⟩
    · exact ⟨rounds, r, .inr ⟨cycle, hrun⟩⟩

/-- A file that is included first of two comes to its text by itself, however late the answers. -/
theorem renders_included_nest :
    (Oracle.nest.host fun n _ => 10 - n).Follows Oracle.nest ∧
    (∀ s, ∃ calls, Renders (Oracle.nest.host fun n _ => 10 - n) {} 3 (.file ['c'])
      "C$<<b>>".toList s "CBx\n".toList calls) ∧
    ∀ s, ∃ rounds r, Schedule.run (Oracle.nest.host fun n _ => 10 - n) rounds
        (Plan.passes {} 2 [7] (.file ['c']) [['b']] "C$<<b>>".toList) ⟨s, 0, []⟩ =
        (.text "CBx\n".toList, r) ∨
      ∃ cycle, Schedule.run (Oracle.nest.host fun n _ => 10 - n) rounds
        (Plan.passes {} 2 [7] (.file ['c']) [['b']] "C$<<b>>".toList) ⟨s, 0, []⟩ =
        (.halted (.failed (.cycle cycle)), r) := by
  have hf := Oracle.host_follows Oracle.nest fun n _ => 10 - n
  obtain ⟨hfiles, hchains⟩ := renders_included hf {}
  have htop : Renders (Oracle.nest.host fun n _ => 10 - n) {} 3 .stdin "1$<<c>>2$<<b>>3".toList 0
      "1CBx\n2Bx\n3\n".toList _ := ⟨9, _, Prod.ext (by decide +kernel) rfl, rfl⟩
  have halone : Renders (Oracle.nest.host fun n _ => 10 - n) {} 3 (.file ['c']) "C$<<b>>".toList 0
      "CBx\n".toList _ := ⟨9, _, Prod.ext (by decide +kernel) rfl, rfl⟩
  refine ⟨hf, fun s => ?_, hchains 2 [] (.file ['c']) [['c']] _ 0 _
    ⟨9, _, Prod.ext (by decide +kernel) rfl⟩ 2 le_rfl [7] [['b']]⟩
  have hnames : Document.Names Oracle.nest.only {} ⟨[], .stdin, [], "1$<<c>>2$<<b>>3".toList⟩
      "1$<<c>>2$<<b>>3".toList := by
    refine ⟨0, Plan.yields_pass_iff.2 ⟨[], ?_, by decide +kernel⟩⟩
    have hmarkers : Segment.markers (Marker.scan .lookup "1$<<c>>2$<<b>>3".toList) = [] := by
      decide +kernel
    rw [Plan.branches, hmarkers]
    exact .nil
  obtain ⟨_, _, _, -, -, hfiles⟩ := hfiles 3 .stdin _ 0 _ _ htop _ (.stdin rfl)
  obtain ⟨included, v, hincluded, -, hv⟩ :=
    hfiles 0 ['c'] ⟨_, ⟨.inclusion, ['c'], 1⟩, hnames, by decide +kernel, by decide⟩
  obtain rfl : "C$<<b>>".toList = included := Except.ok.inj hincluded
  obtain ⟨_, hv₀⟩ := hv 0
  obtain ⟨rfl, -⟩ := (hv₀.yields hf.keeps).unique (halone.yields hf.keeps)
  exact hv s

end Inlay
