import Inlay.Proofs.Rendering.Parts

namespace Inlay

abbrev Telling := Source → Marker.Kind → Text → List Notice

namespace Telling

def strays (opts : Options) : Telling := fun source kind text =>
  if opts.debug then Plan.strayNotices source kind text (Marker.scan kind text) else []

/-- The whole text of the pass, where a snippet of it would be given. -/
def whole : Telling := fun source kind text => [.stray source kind text]

end Telling

namespace Plan

/-- What the markers of one kind in a text ask for, in their order. -/
def branches (kind : Marker.Kind) (text : Text) (resolve : Nat → Text → Plan) : List Plan :=
  (Segment.markers (Marker.scan kind text)).mapIdx fun i m => resolve i m.payload

theorem getElem?_branches {kind : Marker.Kind} {text : Text} {resolve : Nat → Text → Plan}
    {i : Nat} {m : Marker} (hm : (Segment.markers (Marker.scan kind text))[i]? = some m) :
    (branches kind text resolve)[i]? = some (resolve i m.payload) := by
  simp [branches, hm]

theorem mem_branches {kind : Marker.Kind} {text : Text} {resolve : Nat → Text → Plan} {p : Plan} :
    p ∈ branches kind text resolve ↔
      ∃ i m, (Segment.markers (Marker.scan kind text))[i]? = some m ∧ resolve i m.payload = p := by
  simp only [branches, List.mem_mapIdx, List.getElem?_eq_some_iff]
  constructor
  · rintro ⟨i, hi, rfl⟩
    exact ⟨i, _, ⟨hi, rfl⟩, rfl⟩
  · rintro ⟨i, _, ⟨hi, rfl⟩, rfl⟩
    exact ⟨i, hi, rfl⟩

theorem pass_eq (opts : Options) (place : Place) (source : Source) (kind : Marker.Kind)
    (text : Text) (resolve : Nat → Text → Plan) :
    pass opts place source kind text resolve =
      notes place (if opts.debug then strayNotices source kind text (Marker.scan kind text) else [])
        (join (joinRule (Marker.scan kind text)) (branches kind text resolve) fun values =>
          done (Segment.splice (Marker.scan kind text) values)) := by
  unfold pass
  cases opts.debug <;> rfl

theorem noteIf_eq (opts : Options) (place : Place) (n : Notice) (rest : Plan) :
    noteIf opts place n rest = notes place (if opts.debug then [n] else []) rest := by
  unfold noteIf
  cases opts.debug <;> rfl

/-- How an include goes on once it is not refused. -/
def readFile (opts : Options) (place : Place) (source : Source) (path : Path)
    (nested : Text → Plan) : Plan :=
  noteIf opts place (.resolvingFile source path) <|
    ask place (.read path) fun
      | .ok text => nested text
      | .error cause => halt (.failed (.unreadable path cause))

theorem resolveFile_unchecked {opts : Options} (hopts : opts.detectCycles = false) (place : Place)
    (source : Source) (chain : List Path) (nested : Path → List Path → Text → Plan)
    (relative : Text) :
    resolveFile opts place source chain nested relative =
      readFile opts place source (source.resolve relative)
        (nested (source.resolve relative) chain) := by
  simp only [resolveFile, hopts]
  rfl

theorem resolveFile_checked {opts : Options} (hopts : opts.detectCycles = true) (place : Place)
    (source : Source) (chain : List Path) (nested : Path → List Path → Text → Plan)
    (relative : Text) :
    resolveFile opts place source chain nested relative =
      ask place (.identify (source.resolve relative)) fun (identity : Path) =>
        if chain.any (Path.same identity) then halt (.failed (.cycle (chain ++ [identity])))
        else readFile opts place source (source.resolve relative)
          (nested (source.resolve relative) (chain ++ [identity])) := by
  simp only [resolveFile, hopts]
  rfl

/-- What holds of an include, by what it may ask for and by the document that it goes on with. -/
theorem resolveFile_induct {motive : Plan → Prop} {opts : Options} {place : Place}
    {source : Source} {nested : Path → List Path → Text → Plan} {relative : Text}
    (halt : ∀ why, motive (.halt why))
    (identify : ∀ next, (∀ identity, motive (next identity)) →
      motive (.ask place (.identify (source.resolve relative)) next))
    (read : ∀ next, (∀ answer, motive (next answer)) →
      motive (.noteIf opts place (.resolvingFile source (source.resolve relative))
        (.ask place (.read (source.resolve relative)) next)))
    (inner : ∀ chain text, motive (nested (source.resolve relative) chain text))
    (chain : List Path) :
    motive (.resolveFile opts place source chain nested relative) := by
  have hread : ∀ chain, motive (readFile opts place source (source.resolve relative)
      (nested (source.resolve relative) chain)) := by
    intro chain
    apply read
    intro answer
    cases answer with
    | ok text => exact inner chain text
    | error cause => exact halt _
  cases hcycles : opts.detectCycles with
  | false =>
    rw [resolveFile_unchecked hcycles]
    exact hread chain
  | true =>
    rw [resolveFile_checked hcycles]
    apply identify
    intro identity
    split
    · exact halt _
    · exact hread _

def included (opts : Options) (depth : Nat) (place : Place) (source : Source) (chain : List Path)
    (text : Text) : Plan :=
  (pass opts place source .lookup text fun _ name => resolveName opts place source name).bind
    fun text => pass opts place source .inclusion text fun i relative =>
      resolveFile opts place source chain
        (fun path => passes opts depth (place ++ [i]) (.file path)) relative

theorem passes_succ (opts : Options) (depth : Nat) (place : Place) (source : Source)
    (chain : List Path) (text : Text) :
    passes opts (depth + 1) place source chain text =
      (included opts depth place source chain text).bind fun text =>
        (pass opts place source .command text fun _ command =>
          resolveCommand opts place source command).bind fun text => done text.closeLine := by
  rw [included, bind_assoc]
  rfl

def passWith (tell : Telling) (place : Place) (source : Source) (kind : Marker.Kind) (text : Text)
    (resolve : Nat → Text → Plan) : Plan :=
  notes place (tell source kind text)
    (join (joinRule (Marker.scan kind text)) (branches kind text resolve) fun values =>
      done (Segment.splice (Marker.scan kind text) values))

/-- The passes over a document and over those that it includes, with something said before each. -/
def passesWith (tell : Telling) (opts : Options) :
    (depth : Nat) → Place → Source → List Path → Text → Plan
  | 0, _, _, _, _ => halt .tooDeep
  | depth + 1, place, source, chain, text =>
    (passWith tell place source .lookup text fun _ name =>
      resolveName opts place source name).bind fun text =>
    (passWith tell place source .inclusion text fun i relative =>
      resolveFile opts place source chain
        (fun path chain text => passesWith tell opts depth (place ++ [i]) (.file path) chain text)
        relative).bind fun text =>
    (passWith tell place source .command text fun _ command =>
      resolveCommand opts place source command).bind fun text =>
    done text.closeLine

def renderWith (tell : Telling) (opts : Options) (depth : Nat) (place : Place) (source : Source)
    (text : Text) : Plan :=
  match opts.detectCycles, source.path? with
  | true, some path => ask place (.identify path) fun (identity : Path) =>
      passesWith tell opts depth place source [identity] text
  | _, _ => passesWith tell opts depth place source [] text

theorem pass_eq_passWith (opts : Options) (place : Place) (source : Source) (kind : Marker.Kind)
    (text : Text) (resolve : Nat → Text → Plan) :
    pass opts place source kind text resolve =
      passWith (.strays opts) place source kind text resolve := pass_eq ..

/-- The parts of a rendering that says something before each pass. -/
def parts (tell : Telling) (opts : Options) : Parts Plan where
  done := done
  halt := halt
  bind := bind
  pass := passWith tell
  name := resolveName opts
  command := resolveCommand opts
  identify place path := ask place (.identify path)
  read := readFile opts

theorem resolveFile_eq_parts (tell : Telling) (opts : Options) (place : Place) (source : Source)
    (chain : List Path) (nested : Path → List Path → Text → Plan) (relative : Text) :
    resolveFile opts place source chain nested relative =
      (parts tell opts).file opts.detectCycles place source chain nested relative := by
  cases hcycles : opts.detectCycles with
  | false => rw [resolveFile_unchecked hcycles]; rfl
  | true => rw [resolveFile_checked hcycles]; rfl

theorem passesWith_eq_parts (tell : Telling) (opts : Options) (depth : Nat) (place : Place)
    (source : Source) (chain : List Path) (text : Text) :
    passesWith tell opts depth place source chain text =
      (parts tell opts).passes opts.detectCycles depth place source chain text := by
  induction depth generalizing place source chain text with
  | zero => rfl
  | succ depth ih =>
    simp only [passesWith, ih, resolveFile_eq_parts tell]
    rfl

theorem renderWith_eq_parts (tell : Telling) (opts : Options) (depth : Nat) (place : Place)
    (source : Source) (text : Text) :
    renderWith tell opts depth place source text =
      (parts tell opts).render opts.detectCycles depth place source text := by
  unfold renderWith Parts.render
  simp only [passesWith_eq_parts]
  rfl

theorem passes_eq_parts (opts : Options) (depth : Nat) (place : Place) (source : Source)
    (chain : List Path) (text : Text) :
    passes opts depth place source chain text =
      (parts (.strays opts) opts).passes opts.detectCycles depth place source chain text := by
  rw [← passesWith_eq_parts]
  induction depth generalizing place source chain text with
  | zero => rfl
  | succ depth ih => simp only [passes, passesWith, pass_eq_passWith, ih]

theorem render_eq_parts (opts : Options) (depth : Nat) (place : Place) (source : Source)
    (text : Text) :
    render opts depth place source text =
      (parts (.strays opts) opts).render opts.detectCycles depth place source text := by
  unfold render Parts.render
  simp only [passes_eq_parts]
  rfl

end Plan
end Inlay
