import Inlay.Proofs.Rendering.Passes

/-!
The documents of a rendering. The top document is reached, and so is whatever a document that is
reached includes. Everything that a rendering says or asks for, and every way in which it can fail,
belongs to a document that it reaches.
-/
namespace Inlay

def Notice.source : Notice → Source
  | reading source => source
  | templating source => source
  | stray source .. => source
  | resolvingName source _ => source
  | resolvingFile source _ => source
  | resolvingCommand source _ => source

/-- A document as a rendering meets it, with the names of the files that led to it. -/
structure Document where
  place : Place
  source : Source
  chain : List Path
  text : Text

/--
Going on from a chain to a file closes no cycle, and the chain grows by it if chains are kept.
-/
inductive Lengthens (A : Answering) (opts : Options) (chain : List Path) (path : Path) :
    List Path → Prop
  | unchecked : opts.detectCycles = false → Lengthens A opts chain path chain
  | checked {identity : Path} : opts.detectCycles = true → A (.identify path) identity →
      chain.any (Path.same identity) = false → Lengthens A opts chain path (chain ++ [identity])

theorem Lengthens.exists_identity {A : Answering} {opts : Options} {chain longer : List Path}
    {path : Path} (h : Lengthens A opts chain path longer) (hopts : opts.detectCycles = true) :
    ∃ identity : Path, A (.identify path) identity ∧ chain.any (Path.same identity) = false ∧
      longer = chain ++ [identity] := by
  cases h with
  | unchecked hoff =>
    rw [hopts] at hoff
    cases hoff
  | checked _ hidentity hnew => exact ⟨_, hidentity, hnew, rfl⟩

namespace Document

/-- What may become of the document's text when its variables are in their places. -/
def Names (A : Answering) (opts : Options) (d : Document) (named : Text) : Prop :=
  ∃ cs, Plan.Yields A (.pass opts d.place d.source .lookup d.text fun _ name =>
    .resolveName opts d.place d.source name) named cs

/-- The document in its marker of this number names the file for inclusion. -/
def Refers (A : Answering) (opts : Options) (d : Document) (i : Nat) (path : Path) : Prop :=
  ∃ named m, d.Names A opts named ∧
    (Segment.markers (Marker.scan .inclusion named))[i]? = some m ∧
    d.source.resolve m.payload = path

/-- The documents that the rendering of a text can come to. -/
inductive Reached (A : Answering) (opts : Options) (source : Source) (text : Text) :
    Document → Prop
  | stdin : source = .stdin → Reached A opts source text ⟨[], source, [], text⟩
  | file {path : Path} {chain : List Path} : source = .file path → Lengthens A opts [] path chain →
      Reached A opts source text ⟨[], source, chain, text⟩
  | included {d : Document} {i : Nat} {path : Path} {chain : List Path} {included : Text} :
      Reached A opts source text d → d.Refers A opts i path → Lengthens A opts d.chain path chain →
      A (.read path) (.ok included) →
      Reached A opts source text ⟨d.place ++ [i], .file path, chain, included⟩

inductive Does (A : Answering) (opts : Options) (d : Document) : Event → Prop
  | lookup (name : Text) : Does A opts d (.began d.place (.lookup name))
  | identify {i : Nat} {path : Path} :
      d.Refers A opts i path → Does A opts d (.began d.place (.identify path))
  | read {i : Nat} {path : Path} :
      d.Refers A opts i path → Does A opts d (.began d.place (.read path))
  | execute (command : Text) : Does A opts d (.began d.place (.execute command d.source.directory))
  | note {n : Notice} : n.source = d.source → Does A opts d (.noted d.place n)

inductive Fails (A : Answering) (opts : Options) (d : Document) : Failure → Prop
  | cycle {i : Nat} {path identity : Path} : opts.detectCycles = true → d.Refers A opts i path →
      A (.identify path) identity → d.chain.any (Path.same identity) = true →
      Fails A opts d (.cycle (d.chain ++ [identity]))
  | unreadable {i : Nat} {path : Path} {cause : Fault} : d.Refers A opts i path →
      A (.read path) (.error cause) → Fails A opts d (.unreadable path cause)
  | command {command : Text} {failure : Failure} :
      A (.execute command d.source.directory) (.error failure) → Fails A opts d failure

end Document

namespace Plan

open Document

variable {A : Answering} {E : Event → Prop} {H : Halt → Prop} {opts : Options}

theorem Safe.readFile {place : Place} {source : Source} {path : Path} {nested : Text → Plan}
    (hnote : E (.noted place (.resolvingFile source path))) (hread : E (.began place (.read path)))
    (hfail : ∀ cause, A (.read path) (.error cause) → H (.failed (.unreadable path cause)))
    (hn : ∀ text, A (.read path) (.ok text) → Safe A E H (nested text)) :
    Safe A E H (readFile opts place source path nested) := by
  refine .noteIf hnote (.ask hread fun answer hanswer => ?_)
  rcases answer with cause | text
  · exact .halt (hfail cause hanswer)
  · exact hn text hanswer

theorem Safe.resolveFile {d : Document} (hE : ∀ e, d.Does A opts e → E e)
    (hH : ∀ failure, d.Fails A opts failure → H (.failed failure)) {i : Nat} {relative : Text}
    (hrefers : d.Refers A opts i (d.source.resolve relative))
    {nested : Path → List Path → Text → Plan}
    (hn : ∀ chain text, Lengthens A opts d.chain (d.source.resolve relative) chain →
      A (.read (d.source.resolve relative)) (.ok text) →
      Safe A E H (nested (d.source.resolve relative) chain text)) :
    Safe A E H (resolveFile opts d.place d.source d.chain nested relative) := by
  have hread : ∀ chain, Lengthens A opts d.chain (d.source.resolve relative) chain →
      Safe A E H (Plan.readFile opts d.place d.source (d.source.resolve relative)
        (nested (d.source.resolve relative) chain)) := by
    intro chain hchain
    have hfail : ∀ cause, A (.read (d.source.resolve relative)) (.error cause) →
        H (.failed (.unreadable (d.source.resolve relative) cause)) :=
      fun cause hcause => hH _ (.unreadable hrefers hcause)
    exact .readFile (hE _ (.note rfl)) (hE _ (.read hrefers)) hfail
      fun text htext => hn chain text hchain htext
  cases hopts : opts.detectCycles with
  | false =>
    rw [resolveFile_unchecked hopts]
    exact hread _ (.unchecked hopts)
  | true =>
    rw [resolveFile_checked hopts]
    refine .ask (hE _ (.identify hrefers)) fun identity hidentity => ?_
    split
    · rename_i hcycle
      exact .halt (hH _ (.cycle hopts hrefers hidentity hcycle))
    · rename_i hnew
      exact hread _ (.checked hopts hidentity (Bool.eq_false_iff.2 hnew))

section Reached

variable {source : Source} {text : Text}
  (hE : ∀ d, Reached A opts source text d → ∀ e, d.Does A opts e → E e)
  (hH : ∀ d, Reached A opts source text d → ∀ failure, d.Fails A opts failure →
    H (.failed failure))

include hE hH

/--
The passes over a document are safe if every document that is reached may do what it does and fail
as it fails, and if none is reached too deep or may be.
-/
theorem Safe.passes {limit depth : Nat}
    (hdeep : ∀ d, Reached A opts source text d → d.place.length = limit → H .tooDeep)
    {d : Document} (hd : Reached A opts source text d) (hlimit : d.place.length + depth = limit) :
    Safe A E H (.passes opts depth d.place d.source d.chain d.text) := by
  induction depth generalizing d with
  | zero => exact .halt (hdeep d hd hlimit)
  | succ depth ih =>
    have hnote : ∀ n : Notice, n.source = d.source → E (.noted d.place n) :=
      fun n hn => hE d hd _ (.note hn)
    refine .bind (.pass (fun _ => hnote _ rfl) fun i m _ => ?_) fun named cs hnamed => ?_
    · exact .noteIf (hnote _ rfl) (.ask (hE d hd _ (.lookup _)) fun _ _ => .done _)
    refine .bind (.pass (fun _ => hnote _ rfl) fun i m hm => ?_) fun included _ _ => ?_
    · have hrefers : d.Refers A opts i (d.source.resolve m.payload) :=
        ⟨named, m, ⟨cs, hnamed⟩, hm, rfl⟩
      refine .resolveFile (hE d hd) (hH d hd) hrefers fun chain text hchain htext => ?_
      have hlength : (d.place ++ [i]).length + depth = limit := by
        rw [List.length_append, List.length_singleton]
        omega
      -- The place of the document that is included tells how deep it lies.
      exact ih (.included hd hrefers hchain htext) hlength
    refine .bind (.pass (fun _ => hnote _ rfl) fun i m _ => ?_) fun executed _ _ => .done _
    refine .noteIf (hnote _ rfl) (.ask (hE d hd _ (.execute _)) fun answer hanswer => ?_)
    rcases answer with failure | output
    · exact .halt (hH d hd _ (.command hanswer))
    · exact .done _

theorem Safe.render {depth : Nat}
    (hdeep : ∀ d, Reached A opts source text d → d.place.length = depth → H .tooDeep)
    (hself : ∀ path, source = .file path → opts.detectCycles = true →
      E (.began [] (.identify path))) :
    Safe A E H (.render opts depth [] source text) := by
  rw [Plan.render]
  cases source with
  | stdin =>
    have hd : Reached A opts .stdin text ⟨[], .stdin, [], text⟩ := .stdin rfl
    cases opts.detectCycles <;> exact .passes hE hH hdeep hd (Nat.zero_add depth)
  | file path =>
    cases hopts : opts.detectCycles with
    | false =>
      have hd : Reached A opts (.file path) text ⟨[], .file path, [], text⟩ :=
        .file rfl (.unchecked hopts)
      exact .passes hE hH hdeep hd (Nat.zero_add depth)
    | true =>
      refine .ask (hself path rfl hopts) fun identity hidentity => ?_
      have hd : Reached A opts (.file path) text ⟨[], .file path, [identity], text⟩ :=
        .file rfl (.checked hopts hidentity rfl)
      exact .passes hE hH hdeep hd (Nat.zero_add depth)

end Reached
end Plan
end Inlay
