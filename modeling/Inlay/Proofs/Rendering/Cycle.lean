import Inlay.Proofs.Path.Normal
import Inlay.Proofs.Rendering.Outcome
import Mathlib.Data.Nat.Find

namespace Inlay

namespace Oracle

variable (f : Oracle)

/-- A text with the values of its variables in their places. -/
def named (text : Text) : Text :=
  Segment.splice (Marker.scan .lookup text)
    ((Segment.markers (Marker.scan .lookup text)).map fun m => (f (.lookup m.payload)).getD [])

def includes (source : Source) (text : Text) : List Path :=
  (Segment.markers (Marker.scan .inclusion (f.named text))).map fun m => source.resolve m.payload

/-- Every file that the document includes can be read, and so on to the end within a depth. -/
def Expands : (depth : Nat) → Source → Text → Prop
  | 0, _, _ => False
  | depth + 1, source, text =>
    ∀ path ∈ f.includes source text,
      ∃ text, f (.read path) = .ok text ∧ Expands depth (.file path) text

def ExpandsFile (depth : Nat) (path : Path) : Prop :=
  ∃ text, f (.read path) = .ok text ∧ f.Expands depth (.file path) text

/--
The document's includes come to an end within a depth that suffices for none of the documents which
include it, as far as an include can name them.
-/
structure Descends (depth : Nat) (source : Source) (chain : List Path) (text : Text) : Prop where
  expands : f.Expands depth source text
  above : ∀ ancestor ∈ chain, ∀ (s : Source) relative,
    Path.same (s.resolve relative) ancestor = true →
      ∀ less < depth, ¬ f.ExpandsFile less (s.resolve relative)

variable {f}

theorem eq_named {opts : Options} {place : Place} {source : Source} {text t : Text}
    {cs : Multiset Call}
    (h : Plan.Yields f.only (.pass opts place source .lookup text fun _ name =>
      .resolveName opts place source name) t cs) : t = f.named text := by
  obtain ⟨values, hvalues, rfl⟩ := Plan.yields_pass_iff.1 h
  have hmap : Plan.branches .lookup text (fun _ name => Plan.resolveName opts place source name) =
      (Segment.markers (Marker.scan .lookup text)).map fun m =>
        Plan.resolveName opts place source m.payload :=
    List.ext_getElem (by simp [Plan.branches]) (by simp [Plan.branches])
  rw [hmap] at hvalues
  have hlookup : values = (Segment.markers (Marker.scan .lookup text)).map fun m =>
      (f (.lookup m.payload)).getD [] := by
    refine hvalues.eq_map fun m _ t cs ht => ?_
    obtain ⟨value, rfl, rfl, -⟩ := Plan.yields_resolveName_iff.1 ht
    rfl
  rw [named, hlookup]

theorem Expands.congr {source source' : Source}
    (h : ∀ relative, source.resolve relative = source'.resolve relative) {depth : Nat} {text : Text}
    (ht : f.Expands depth source text) : f.Expands depth source' text := by
  cases depth with
  | zero => exact ht
  | succ depth =>
    have hincludes : f.includes source' text = f.includes source text := by
      rw [includes, includes]
      exact List.map_congr_left fun m _ => (h m.payload).symm
    rw [Expands, hincludes]
    exact ht

theorem Descends.file {depth : Nat} {source : Source} {chain : List Path} {text relative : Text}
    (h : f.Descends depth source chain text)
    (hmem : source.resolve relative ∈ f.includes source text) :
    ∃ t less, f (.read (source.resolve relative)) = .ok t ∧
      chain.any (Path.same (source.resolve relative)) = false ∧
      f.Descends less (.file (source.resolve relative)) (chain ++ [source.resolve relative]) t := by
  classical
  obtain _ | depth := depth
  · exact h.expands.elim
  · have hfile : ∃ less, f.ExpandsFile less (source.resolve relative) := ⟨depth, h.expands _ hmem⟩
    have hle : Nat.find hfile ≤ depth := Nat.find_min' hfile (h.expands _ hmem)
    obtain ⟨t, ht, hexpands⟩ := Nat.find_spec hfile
    -- The file's least depth is below the document's, and so below that of every ancestor.
    refine ⟨t, Nat.find hfile, ht, ?_, hexpands, ?_⟩
    · rw [List.any_eq_false]
      intro ancestor hancestor hsame
      exact h.above ancestor hancestor source relative hsame _ (Nat.lt_succ_of_le hle)
        (Nat.find_spec hfile)
    · intro ancestor hancestor s relative' hsame less hless
      rcases List.mem_append.1 hancestor with hancestor | hancestor
      · exact h.above ancestor hancestor s relative' hsame less (by omega)
      · rw [List.mem_singleton.1 hancestor] at hsame
        rw [Path.resolve_eq_of_same hsame]
        exact Nat.find_min hfile hless

theorem expands_of_yields {opts : Options} (hopts : opts.detectCycles = false) {depth : Nat}
    {place : Place} {source : Source} {chain : List Path} {text t : Text} {cs : Multiset Call}
    (h : Plan.Yields f.only (.passes opts depth place source chain text) t cs) :
    f.Expands depth source text := by
  induction depth generalizing place source chain text t cs with
  | zero => cases h
  | succ depth ih =>
    rw [Plan.passes, Plan.yields_bind_iff] at h
    obtain ⟨named, cs₁, cs₂, hnamed, h, -⟩ := h
    obtain rfl := eq_named hnamed
    rw [Plan.yields_bind_iff] at h
    obtain ⟨u, cs₃, cs₄, hpass, -, -⟩ := h
    obtain ⟨values, hvalues, -⟩ := Plan.yields_pass_iff.1 hpass
    intro path hpath
    obtain ⟨m, hm, rfl⟩ := List.mem_map.1 hpath
    obtain ⟨i, hi⟩ := List.getElem?_of_mem hm
    obtain ⟨v, cs, hv⟩ := hvalues.exists_of_mem (Plan.mem_branches.2 ⟨i, m, hi, rfl⟩)
    rw [Plan.resolveFile_unchecked hopts, Plan.yields_readFile_iff] at hv
    obtain ⟨t', cs', ht', hv, -⟩ := hv
    exact ⟨t', ht'.symm, ih hv⟩

theorem expands_of_yields_render {opts : Options} (hopts : opts.detectCycles = false) {depth : Nat}
    {place : Place} {source : Source} {text t : Text} {cs : Multiset Call}
    (h : Plan.Yields f.only (.render opts depth place source text) t cs) :
    f.Expands depth source text := by
  simp only [Plan.render, hopts] at h
  exact expands_of_yields hopts h

theorem exists_descends {source : Source} {text : Text} {depth : Nat}
    (hexpands : f.Expands depth source text)
    (htext : ∀ path, source = .file path → ∀ q, Path.same q path = true → f (.read q) = .ok text) :
    ∃ least, f.Descends least source source.path?.toList text := by
  classical
  have hsome : ∃ depth, f.Expands depth source text := ⟨depth, hexpands⟩
  refine ⟨Nat.find hsome, Nat.find_spec hsome, ?_⟩
  intro ancestor hancestor s relative hsame less hless hfile
  cases source with
  | stdin => simp [Source.path?] at hancestor
  | file path =>
    obtain rfl : ancestor = path := by simpa [Source.path?] using hancestor
    obtain ⟨t, ht, hfile⟩ := hfile
    rw [htext ancestor rfl _ hsame] at ht
    cases ht
    exact Nat.find_min hsome hless (hfile.congr (Path.resolve_congr hsame))

end Oracle

def Call.isIdentify : Call → Bool
  | .identify _ => true
  | _ => false

/-- The same calls, but for those that ask under which name the world knows a file. -/
def sameButNames : AddCon (Multiset Call) where
  r cs cs' := cs.filter (!·.isIdentify) = cs'.filter (!·.isIdentify)
  iseqv := ⟨fun _ => rfl, Eq.symm, Eq.trans⟩
  add' h h' := by rw [Multiset.filter_add, Multiset.filter_add, h, h']

namespace Plan

variable {on off : Options} {A : Answering} {f : Oracle}

theorem sameButNames_identify (path : Path) : sameButNames {.identify path} 0 := rfl

theorem passes_refines_unchecked (hon : on.detectCycles = true) (hoff : off.detectCycles = false)
    (depth : Nat) (place : Place) (source : Source) (chain chain' : List Path) (text : Text) :
    Refines A sameButNames (.passes on depth place source chain text)
      (.passes off depth place source chain' text) := by
  induction depth generalizing place source chain chain' text with
  | zero => exact .halt _ _
  | succ depth ih =>
    refine .passes fun named cs _ i m _ => ?_
    rw [resolveFile_checked hon, resolveFile_unchecked hoff]
    refine .ask_left (sameButNames_identify _) fun identity _ => ?_
    split
    · exact .halt _ _
    · exact .readFile fun text _ => ih _ _ _ _ text

theorem passes_refines_checked (hid : ∀ path, f (.identify path) = path)
    (hon : on.detectCycles = true) (hoff : off.detectCycles = false)
    {least : Nat} {source : Source} {chain : List Path} {text : Text}
    (h : f.Descends least source chain text) (depth : Nat) (place : Place) (chain' : List Path) :
    Refines f.only sameButNames (.passes off depth place source chain' text)
      (.passes on depth place source chain text) := by
  induction depth generalizing least place source chain chain' text with
  | zero => exact .halt _ _
  | succ depth ih =>
    refine .passes fun named cs hnamed i m hm => ?_
    obtain rfl := Oracle.eq_named hnamed
    obtain ⟨t, less, ht, hchain, hdescends⟩ :=
      h.file (List.mem_map.2 ⟨m, List.mem_of_getElem? hm, rfl⟩)
    rw [resolveFile_checked hon, resolveFile_unchecked hoff]
    refine .ask_right (sameButNames_identify _) (hid _).symm ?_
    rw [hchain, if_neg Bool.false_ne_true]
    refine .readFile fun text htext => ?_
    obtain rfl : text = t := Except.ok.inj (htext.trans ht)
    exact ih hdescends _ _

theorem render_refines_unchecked (hon : on.detectCycles = true) (hoff : off.detectCycles = false)
    (depth : Nat) (place : Place) (source : Source) (text : Text) :
    Refines A sameButNames (.render on depth place source text)
      (.render off depth place source text) := by
  simp only [render, hon, hoff]
  cases source with
  | stdin => exact passes_refines_unchecked hon hoff depth place .stdin [] [] text
  | file path =>
    exact .ask_left (sameButNames_identify path) fun identity _ =>
      passes_refines_unchecked hon hoff depth place (.file path) [identity] [] text

theorem render_refines_checked (hid : ∀ path, f (.identify path) = path)
    (hon : on.detectCycles = true) (hoff : off.detectCycles = false)
    {least : Nat} {source : Source} {text : Text}
    (h : f.Descends least source source.path?.toList text) (depth : Nat) (place : Place) :
    Refines f.only sameButNames (.render off depth place source text)
      (.render on depth place source text) := by
  simp only [render, hon, hoff]
  cases source with
  | stdin => exact passes_refines_checked hid hon hoff h depth place []
  | file path =>
    refine .ask_right (sameButNames_identify path) (hid path).symm ?_
    exact passes_refines_checked hid hon hoff h depth place []

end Plan

/--
Where files are known by their paths, detection neither takes a text from a document nor gives it
another one, and asks for nothing more than the names of files. A document that fails with
detection, for a cycle or otherwise, has no text without it.
-/
theorem renders_iff_of_unchecked {σ : Type} {h : Host σ} {f : Oracle} (hf : h.Follows f)
    (hid : ∀ path, f (.identify path) = path) {source : Source} {text : Text}
    (htext : ∀ path, source = .file path → ∀ q, Path.same q path = true → f (.read q) = .ok text)
    {on off : Options} (hon : on.detectCycles = true) (hoff : off.detectCycles = false) (s s' : σ) :
    (∀ depth t, (∃ calls, Renders h on depth source text s t calls) ↔
      ∃ calls, Renders h off depth source text s' t calls) ∧
    (∀ depth depth' t t' calls calls', Renders h on depth source text s t calls →
      Renders h off depth' source text s' t' calls' →
      t = t' ∧ (calls.filter (!·.isIdentify)).Perm (calls'.filter (!·.isIdentify))) ∧
    ∀ depth failure, Refuses h on depth source text s (.failed failure) →
      ∀ depth' t calls, ¬ Renders h off depth' source text s' t calls := by
  -- Without detection a text is a sign that the includes come to an end, so no file is its own
  -- ancestor.
  have hoffon : ∀ depth t, (∃ calls, Renders h off depth source text s' t calls) →
      ∃ calls, Renders h on depth source text s t calls := by
    rintro depth t ⟨calls, hr⟩
    have hy := hr.yields hf.keeps
    obtain ⟨least, hdescends⟩ :=
      Oracle.exists_descends (Oracle.expands_of_yields_render hoff hy) htext
    obtain ⟨cs, hcs, -⟩ := Plan.render_refines_checked hid hon hoff hdescends depth [] t _ hy
    exact (exists_renders_iff hf).2 ⟨cs, hcs⟩
  refine ⟨fun depth t => ⟨?_, hoffon depth t⟩, ?_, ?_⟩
  · rintro ⟨calls, hr⟩
    obtain ⟨cs, hcs, -⟩ :=
      Plan.render_refines_unchecked hon hoff depth [] source text t _ (hr.yields hf.keeps)
    exact (exists_renders_iff hf).2 ⟨cs, hcs⟩
  · intro depth depth' t t' calls calls' hr hr'
    obtain ⟨cs, hcs, hsame⟩ :=
      Plan.render_refines_unchecked hon hoff depth [] source text t _ (hr.yields hf.keeps)
    obtain ⟨rfl, rfl⟩ := (hcs.render_of_le (le_max_left depth depth')).unique
      ((hr'.yields hf.keeps).render_of_le (le_max_right depth depth'))
    refine ⟨rfl, Multiset.coe_eq_coe.1 ?_⟩
    have hfilter : (calls : Multiset Call).filter (!·.isIdentify) =
      (calls' : Multiset Call).filter (!·.isIdentify) := hsame
    simpa using hfilter
  · intro depth failure hrefuses depth' t calls hr
    -- With a text for one depth, a rendering can only fail for want of depth.
    obtain ⟨calls', hr'⟩ := hoffon depth' t ⟨calls, hr⟩
    have hsafe : (Plan.render on depth [] source text).Safe f.only (fun _ => True) (· = .tooDeep) :=
      (hr'.yields hf.keeps).safe_render
    cases hrefuses.of_safe hf.keeps hsafe

theorem Oracle.ofFiles_read_congr (files : List (Path × Text)) {p q : Path}
    (h : Path.same p q = true) : ofFiles files (.read p) = ofFiles files (.read q) := by
  have hpq : Path.components p = Path.components q := by simpa [Path.same] using h
  have hfind : files.find? (Path.same p ·.1) = files.find? (Path.same q ·.1) := by
    simp only [Path.same, hpq]
  rw [ofFiles, ofFiles, hfind]
  rfl

/-- Two documents that include a third, one that includes both, and one that includes itself. -/
def Oracle.tangle : Oracle :=
  ofFiles [("t/top".toList, "$<<l>>$<<r>>".toList), ("t/l".toList, "L$<<b>>".toList),
    ("t/r".toList, "R$<<b>>".toList), ("t/b".toList, "B".toList),
    ("t/c".toList, "C$<<b>>$<<../t/c>>".toList)]

/-- The diamond renders, and the document that includes itself has no text at any depth. -/
theorem renders_tangle :
    (∃ calls, Renders (Oracle.tangle.host fun _ _ => 0) {} 3 (.file "t//top".toList)
      "$<<l>>$<<r>>".toList 0 "LB\nRB\n".toList calls) ∧
    ∀ depth t calls, ¬ Renders (Oracle.tangle.host fun _ _ => 0) ⟨false, false⟩ depth
      (.file "t/./c".toList) "C$<<b>>$<<../t/c>>".toList 0 t calls := by
  have htop : ∀ path, Source.file "t//top".toList = .file path → ∀ q, Path.same q path = true →
      Oracle.tangle (.read q) = .ok "$<<l>>$<<r>>".toList := by
    rintro _ ⟨⟩ q hq
    rw [Oracle.tangle, Oracle.ofFiles_read_congr _ hq]
    rfl
  have hloop : ∀ path, Source.file "t/./c".toList = .file path → ∀ q, Path.same q path = true →
      Oracle.tangle (.read q) = .ok "C$<<b>>$<<../t/c>>".toList := by
    rintro _ ⟨⟩ q hq
    rw [Oracle.tangle, Oracle.ofFiles_read_congr _ hq]
    rfl
  have hunchecked : ∃ calls, Renders (Oracle.tangle.host fun _ _ => 0) ⟨false, false⟩ 3
      (.file "t//top".toList) "$<<l>>$<<r>>".toList 0 "LB\nRB\n".toList calls :=
    ⟨_, 0, _, Prod.ext (by decide +kernel) rfl, rfl⟩
  have hrefused : Refuses (Oracle.tangle.host fun _ _ => 0) {} 2 (.file "t/./c".toList)
      "C$<<b>>$<<../t/c>>".toList 0 (.failed (.cycle ["t/./c".toList, "t/c".toList])) :=
    ⟨0, _, Prod.ext (by decide +kernel) rfl⟩
  have hfollows := Oracle.host_follows Oracle.tangle fun _ _ => 0
  exact ⟨((renders_iff_of_unchecked hfollows (fun _ => rfl) htop rfl rfl 0 0).1 3 _).2 hunchecked,
    (renders_iff_of_unchecked hfollows (fun _ => rfl) hloop rfl rfl 0 0).2.2 2 _ hrefused⟩

end Inlay
