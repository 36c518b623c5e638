import Inlay.Proofs.Plan.Refinement
import Inlay.Proofs.Rendering.Telling

/-!
What the passes over a document can come to. Each pass yields the document's text with the values of
its branches in place of its markers, and a rendering yields what its three passes make of the text
one after the other. A greater depth takes nothing away.
-/
namespace Inlay.Plan

variable {A : Answering} {E : Event → Prop} {H : Halt → Prop}

theorem yields_passWith_iff {tell : Telling} {place : Place} {source : Source} {kind : Marker.Kind}
    {text : Text} {resolve : Nat → Text → Plan} {t : Text} {cs : Multiset Call} :
    Yields A (passWith tell place source kind text resolve) t cs ↔
      ∃ values, YieldsAll A (branches kind text resolve) values cs ∧
        t = Segment.splice (Marker.scan kind text) values := by
  rw [passWith, yields_notes_iff]
  constructor
  · intro h
    cases h with
    | join hb hn =>
      cases hn
      exact ⟨_, hb.of_eq (add_zero _).symm, rfl⟩
  · rintro ⟨values, hb, rfl⟩
    exact (Yields.join hb (.done _)).of_eq (add_zero cs)

theorem yields_pass_iff {opts : Options} {place : Place} {source : Source} {kind : Marker.Kind}
    {text : Text} {resolve : Nat → Text → Plan} {t : Text} {cs : Multiset Call} :
    Yields A (pass opts place source kind text resolve) t cs ↔
      ∃ values, YieldsAll A (branches kind text resolve) values cs ∧
        t = Segment.splice (Marker.scan kind text) values := by
  rw [pass_eq_passWith, yields_passWith_iff]

theorem Safe.pass {opts : Options} {place : Place} {source : Source} {kind : Marker.Kind}
    {text : Text} {resolve : Nat → Text → Plan}
    (hn : ∀ snippet, E (.noted place (.stray source kind snippet)))
    (hb : ∀ i m, (Segment.markers (Marker.scan kind text))[i]? = some m →
      Safe A E H (resolve i m.payload)) :
    Safe A E H (pass opts place source kind text resolve) := by
  rw [pass_eq]
  refine .notes (fun n hmem => ?_) (.join (fun p hp => ?_) fun ts cs _ => .done _)
  · split at hmem
    · obtain ⟨offset, -, rfl⟩ := List.mem_map.1 hmem
      exact hn _
    · simp at hmem
  · obtain ⟨i, m, hm, rfl⟩ := mem_branches.1 hp
    exact hb i m hm

theorem yields_noteIf_iff {opts : Options} {place : Place} {n : Notice} {rest : Plan} {t : Text}
    {cs : Multiset Call} : Yields A (noteIf opts place n rest) t cs ↔ Yields A rest t cs := by
  rw [noteIf_eq, yields_notes_iff]

theorem Safe.noteIf {opts : Options} {place : Place} {n : Notice} {rest : Plan}
    (hn : E (.noted place n)) (h : Safe A E H rest) : Safe A E H (noteIf opts place n rest) := by
  rw [noteIf_eq]
  refine .notes (fun m hmem => ?_) h
  split at hmem
  · rwa [List.mem_singleton.1 hmem]
  · simp at hmem

theorem yields_ask_iff {place : Place} {c : Call} {next : c.Answer → Plan} {t : Text}
    {cs : Multiset Call} :
    Yields A (ask place c next) t cs ↔
      ∃ a cs', A c a ∧ Yields A (next a) t cs' ∧ cs = {c} + cs' := by
  constructor
  · intro h
    cases h with
    | ask ha h => exact ⟨_, _, ha, h, rfl⟩
  · rintro ⟨a, cs', ha, h, rfl⟩
    exact .ask ha h

theorem yields_resolveName_iff {opts : Options} {place : Place} {source : Source} {name t : Text}
    {cs : Multiset Call} :
    Yields A (resolveName opts place source name) t cs ↔
      ∃ value, A (.lookup name) value ∧ t = value.getD [] ∧ cs = {.lookup name} := by
  rw [resolveName, yields_noteIf_iff, yields_ask_iff]
  constructor
  · rintro ⟨value, cs', ha, h, rfl⟩
    cases h
    exact ⟨value, ha, rfl, rfl⟩
  · rintro ⟨value, ha, rfl, rfl⟩
    exact ⟨value, 0, ha, .done _, rfl⟩

theorem yields_readFile_iff {opts : Options} {place : Place} {source : Source} {path : Path}
    {nested : Text → Plan} {t : Text} {cs : Multiset Call} :
    Yields A (readFile opts place source path nested) t cs ↔
      ∃ text cs', A (.read path) (.ok text) ∧ Yields A (nested text) t cs' ∧
        cs = {.read path} + cs' := by
  rw [readFile, yields_noteIf_iff, yields_ask_iff]
  constructor
  · rintro ⟨answer, cs', ha, h, rfl⟩
    cases answer with
    | ok text => exact ⟨text, cs', ha, h, rfl⟩
    | error cause => cases h
  · rintro ⟨text, cs', ha, h, rfl⟩
    exact ⟨.ok text, cs', ha, h, rfl⟩

namespace Refines

variable {K : AddCon (Multiset Call)} {opts opts' : Options} {place place' : Place}
  {source : Source}

theorem passWith {tell tell' : Telling} {kind : Marker.Kind} {text : Text}
    {resolve resolve' : Nat → Text → Plan}
    (h : ∀ i m, (Segment.markers (Marker.scan kind text))[i]? = some m →
      Refines A K (resolve i m.payload) (resolve' i m.payload)) :
    Refines A K (.passWith tell place source kind text resolve)
      (.passWith tell' place' source kind text resolve') := by
  have hbranches : List.Forall₂ (Refines A K) (branches kind text resolve)
      (branches kind text resolve') := by
    rw [branches, branches, List.forall₂_iff_get]
    refine ⟨by simp, fun i hi _ => ?_⟩
    have hi : i < (Segment.markers (Marker.scan kind text)).length := by simpa using hi
    simpa using h i _ (List.getElem?_eq_getElem hi)
  exact notes (join hbranches fun _ => refl _)

theorem pass {kind : Marker.Kind} {text : Text} {resolve resolve' : Nat → Text → Plan}
    (h : ∀ i m, (Segment.markers (Marker.scan kind text))[i]? = some m →
      Refines A K (resolve i m.payload) (resolve' i m.payload)) :
    Refines A K (.pass opts place source kind text resolve)
      (.pass opts' place' source kind text resolve') := by
  rw [pass_eq_passWith, pass_eq_passWith]
  exact passWith h

theorem noteIf {n : Notice} {p p' : Plan} (hp : Refines A K p p') :
    Refines A K (.noteIf opts place n p) (.noteIf opts' place' n p') := by
  rw [noteIf_eq, noteIf_eq]
  exact notes hp

theorem readFile {path : Path} {nested nested' : Text → Plan}
    (hn : ∀ text, A (.read path) (.ok text) → Refines A K (nested text) (nested' text)) :
    Refines A K (.readFile opts place source path nested)
      (.readFile opts' place' source path nested') := by
  refine noteIf (ask fun answer ha => ?_)
  rcases answer with cause | text
  · exact halt _ _
  · exact hn text ha

theorem resolveName (name : Text) :
    Refines A K (.resolveName opts place source name) (.resolveName opts' place' source name) :=
  noteIf (ask fun _ _ => refl _)

theorem resolveCommand (command : Text) :
    Refines A K (.resolveCommand opts place source command)
      (.resolveCommand opts' place' source command) := by
  refine noteIf (ask fun answer _ => ?_)
  rcases answer with failure | output <;> exact refl _

theorem names {text : Text} :
    Refines A K (.pass opts place source .lookup text fun _ name =>
        Plan.resolveName opts place source name)
      (.pass opts' place' source .lookup text fun _ name =>
        Plan.resolveName opts' place' source name) := pass fun _ _ _ => resolveName _

theorem commands {text : Text} :
    Refines A K (.pass opts place source .command text fun _ command =>
        Plan.resolveCommand opts place source command)
      (.pass opts' place' source .command text fun _ command =>
        Plan.resolveCommand opts' place' source command) := pass fun _ _ _ => resolveCommand _

theorem passes {chain chain' : List Path} {text : Text} {depth depth' : Nat}
    (h : ∀ named cs, Yields A (.pass opts place source .lookup text fun _ name =>
        Plan.resolveName opts place source name) named cs →
      ∀ i m, (Segment.markers (Marker.scan .inclusion named))[i]? = some m →
      Refines A K
        (.resolveFile opts place source chain
          (fun path => passes opts depth (place ++ [i]) (.file path)) m.payload)
        (.resolveFile opts' place' source chain'
          (fun path => passes opts' depth' (place' ++ [i]) (.file path)) m.payload)) :
    Refines A K (.passes opts (depth + 1) place source chain text)
      (.passes opts' (depth' + 1) place' source chain' text) := by
  refine bind names fun named cs hnamed => ?_
  refine bind (pass (h named cs hnamed)) fun text _ _ => ?_
  exact bind commands fun text _ _ => refl _

theorem congruence (A : Answering) (K : AddCon (Multiset Call)) (opts : Options) :
    Parts.Congruence (parts (.strays opts) opts) (parts (.strays opts) opts) (fun _ => True)
      (fun _ => False) fun _ _ p p' => Refines A K p p' where
  done _ := refl _
  stops h := by
    cases h with
    | deep | cycle | left => exact halt _ _
    | right h => exact h.elim
  bind hp hf := bind hp fun text _ _ => hf text
  pass hf := passWith fun i m _ => hf i m.payload
  name _ := resolveName
  command _ := resolveCommand
  identify hnext := ask fun identity _ => hnext identity
  read hnext := readFile fun text _ => hnext text
  inner := id

theorem beside_of_subset {depth depth' : Nat} (hd : depth ≤ depth') {chain chain' : List Path}
    (hchain : chain' ⊆ chain) :
    Parts.Beside (fun _ => True) (fun _ => False) depth depth' chain chain' where
  shallower _ := trivial
  deeper hlt := Nat.not_lt.2 hd hlt
  unlike _ _ := trivial
  longer hsub _ := hsub hchain

/-- A greater depth takes nothing away, nor does it if fewer documents stand above. -/
theorem passes_of_subset {depth depth' : Nat} (hd : depth ≤ depth') {chain chain' : List Path}
    (hchain : chain' ⊆ chain) (text : Text) :
    Refines A K (.passes opts depth place source chain text)
      (.passes opts depth' place' source chain' text) := by
  rw [passes_eq_parts, passes_eq_parts]
  exact (congruence A K opts).related.passes (beside_of_subset hd hchain)

theorem render_of_le {depth depth' : Nat} (hd : depth ≤ depth') (text : Text) :
    Refines A K (.render opts depth place source text)
      (.render opts depth' place' source text) := by
  rw [render_eq_parts, render_eq_parts]
  exact (congruence A K opts).related.render fun chain =>
    beside_of_subset hd (List.Subset.refl chain)

end Refines

/-- The plan comes to no other text, and where it comes to none it halts by the rule. -/
structure Echoes (f : Oracle) (H : Halt → Prop) (p : Plan) (t : Text) : Prop where
  safe : Safe f.only (fun _ => True) H p
  text : ∀ t' cs, Yields f.only p t' cs → t' = t

namespace Echoes

variable {f : Oracle} {p : Plan} {t u : Text} {opts : Options} {place place' : Place}
  {source : Source}

theorem of_yields {cs : Multiset Call} (h : Yields f.only p t cs) : Echoes f H p t :=
  ⟨h.safe fun _ => trivial, fun _ _ h' => (h'.unique h).1⟩

theorem of_refines {K : AddCon (Multiset Call)} {p' : Plan} (hp : Refines f.only K p p')
    {cs : Multiset Call} (h : Yields f.only p t cs) : Echoes f H p' t := by
  obtain ⟨cs', h', -⟩ := hp t cs h
  exact of_yields h'

theorem halt {why : Halt} (h : H why) : Echoes f H (.halt why) t :=
  ⟨.halt h, fun _ _ h' => by cases h'⟩

theorem bind {g : Text → Plan} (hp : Echoes f H p t) (hg : Echoes f H (g t) u) :
    Echoes f H (p.bind g) u where
  safe := .bind hp.safe fun t' cs h => by
    rw [hp.text t' cs h]
    exact hg.safe
  text u' cs h := by
    obtain ⟨t', cs₁, cs₂, ht', hu', -⟩ := yields_bind_iff.1 h
    rw [hp.text t' cs₁ ht'] at hu'
    exact hg.text u' cs₂ hu'

theorem ask {c : Call} {next : c.Answer → Plan} (h : Echoes f H (next (f c)) t) :
    Echoes f H (.ask place c next) t where
  safe := .ask trivial fun a ha => by
    rw [ha]
    exact h.safe
  text t' cs h' := by
    obtain ⟨a, cs', ha, h', -⟩ := yields_ask_iff.1 h'
    rw [ha] at h'
    exact h.text t' cs' h'

theorem notes {ns : List Notice} (h : Echoes f H p t) : Echoes f H (.notes place ns p) t :=
  ⟨.notes (fun _ _ => trivial) h.safe, fun t' cs h' => h.text t' cs (yields_notes_iff.1 h')⟩

theorem yieldsAll {ps ps' : List Plan} {ts ts' : List Text} {cs cs' : Multiset Call}
    (h : List.Forall₂ (fun p p' => ∀ t cs, Yields f.only p t cs → Echoes f H p' t) ps ps')
    (hts : YieldsAll f.only ps ts cs) (hts' : YieldsAll f.only ps' ts' cs') : ts' = ts := by
  induction h generalizing ts ts' cs cs' with
  | nil =>
    cases hts
    cases hts'
    rfl
  | cons hp _ ih =>
    cases hts with
    | cons ht hts => cases hts' with
      | cons ht' hts' => rw [(hp _ _ ht).text _ _ ht', ih hts hts']

theorem passWith {tell tell' : Telling} {kind : Marker.Kind} {text : Text}
    {resolve resolve' : Nat → Text → Plan} {cs : Multiset Call}
    (hr : ∀ i payload t cs, Yields f.only (resolve i payload) t cs →
      Echoes f H (resolve' i payload) t)
    (h : Yields f.only (.passWith tell place source kind text resolve) t cs) :
    Echoes f H (.passWith tell' place' source kind text resolve') t := by
  obtain ⟨values, hvalues, rfl⟩ := yields_passWith_iff.1 h
  refine ⟨.notes (fun _ _ => trivial) (.join (fun p hp => ?_) fun _ _ _ => .done _),
    fun t' cs' h' => ?_⟩
  · obtain ⟨i, m, hm, rfl⟩ := mem_branches.1 hp
    obtain ⟨v, cs, -, hv⟩ := hvalues.exists_getElem? (getElem?_branches hm)
    exact (hr i _ v cs hv).safe
  · obtain ⟨values', hvalues', rfl⟩ := yields_passWith_iff.1 h'
    have hbranches : List.Forall₂ (fun p p' => ∀ t cs, Yields f.only p t cs → Echoes f H p' t)
        (branches kind text resolve) (branches kind text resolve') := by
      rw [branches, branches, List.forall₂_iff_get]
      exact ⟨by simp, fun i _ _ => by simpa using hr i _⟩
    rw [yieldsAll hbranches hvalues hvalues']

theorem readFile {path : Path} {nested nested' : Text → Plan} {cs : Multiset Call}
    (hn : ∀ text t cs, Yields f.only (nested text) t cs → Echoes f H (nested' text) t)
    (h : Yields f.only (.readFile opts place source path nested) t cs) :
    Echoes f H (.readFile opts place' source path nested') t := by
  obtain ⟨text, cs', htext, h, -⟩ := yields_readFile_iff.1 h
  rw [Plan.readFile, noteIf_eq]
  refine .notes (.ask ?_)
  rw [← htext]
  exact hn text t cs' h

/-- Nothing else becomes of a rendering under other documents than that it is halted by the rule. -/
theorem congruence (f : Oracle) (H : Halt → Prop) (opts : Options) :
    Parts.Congruence (parts (.strays opts) opts) (parts (.strays opts) opts) (fun _ => True) H
      fun _ _ p p' => ∀ t cs, Yields f.only p t cs → Echoes f H p' t where
  done _ _ _ h := of_yields h
  stops hstops t cs h := by
    cases hstops with
    | deep | cycle | left => cases h
    | right hwhy => exact halt hwhy
  bind hp hg t cs h := by
    obtain ⟨u, cs₁, cs₂, hu, ht, -⟩ := yields_bind_iff.1 h
    exact .bind (hp u cs₁ hu) (hg u t cs₂ ht)
  pass hr _ _ := passWith hr
  name _ name _ _ := of_refines (K := ⊥) (.resolveName name)
  command _ command _ _ := of_refines (K := ⊥) (.resolveCommand command)
  identify hnext t cs h := by
    obtain ⟨identity, cs', hidentity, h, -⟩ := yields_ask_iff.1 h
    refine .ask ?_
    rw [← hidentity]
    exact hnext identity t cs' h
  read hnext _ _ := readFile hnext
  inner := id

/--
A document that renders comes to the same text at every depth and under any other documents, unless
the depth is smaller and does not suffice, or it is refused as one of the documents above it.
-/
theorem passes {depth depth' : Nat} {chain chain' : List Path}
    (hdeep : depth' < depth → H .tooDeep)
    (hcycle : ¬ chain' ⊆ chain → ∀ cycle, H (.failed (.cycle cycle))) {text : Text}
    {cs : Multiset Call} (h : Yields f.only (.passes opts depth place source chain text) t cs) :
    Echoes f H (.passes opts depth' place' source chain' text) t := by
  rw [passes_eq_parts] at h ⊢
  exact (congruence f H opts).related.passes
    ⟨fun _ => trivial, hdeep, fun _ _ => trivial, hcycle⟩ t cs h

/--
A rendering comes to the same text at every depth, unless this is smaller and does not suffice.
-/
theorem render {depth depth' : Nat} (hdeep : depth' < depth → H .tooDeep) {text : Text}
    {cs : Multiset Call} (h : Yields f.only (.render opts depth place source text) t cs) :
    Echoes f H (.render opts depth' place' source text) t := by
  rw [render_eq_parts] at h ⊢
  exact (congruence f H opts).related.render
    (fun chain => ⟨fun _ => trivial, hdeep, fun _ _ => trivial,
      fun hsub => absurd (List.Subset.refl chain) hsub⟩) t cs h

end Echoes

theorem Yields.render_of_le {opts : Options} {depth depth' : Nat} (hd : depth ≤ depth')
    {place : Place} {source : Source} {text t : Text} {cs : Multiset Call}
    (h : Yields A (render opts depth place source text) t cs) :
    Yields A (render opts depth' place source text) t cs := by
  obtain ⟨cs', h', rfl⟩ := (Refines.render_of_le (K := ⊥) hd text) t cs h
  exact h'

theorem Yields.safe_render {f : Oracle} {opts : Options} {depth depth' : Nat} {place : Place}
    {source : Source} {text t : Text} {cs : Multiset Call}
    (h : Yields f.only (render opts depth' place source text) t cs) :
    Safe f.only (fun _ => True) (· = .tooDeep) (render opts depth place source text) :=
  (Echoes.render (H := (· = .tooDeep)) (fun _ => rfl) h).safe

end Inlay.Plan
