import Inlay.Proofs.Rendering.Document
import Inlay.Proofs.Rendering.Outcome
import Mathlib.Data.Set.Card

namespace Inlay

variable {σ : Type}

namespace Host

def Readable (h : Host σ) (path : Path) : Prop :=
  ∃ s text, (h (.read path) s).1.answer = .ok text

/-- The names of the files that the host may read, as places on paper. -/
def identities (h : Host σ) (canon : Path → Path) : Set (List Path.Component) :=
  (fun path => Path.components (canon path)) '' {path | h.Readable path}

end Host

theorem length_le_ncard {α : Type} {s : Set α} (hs : s.Finite) {as : List α} (hnodup : as.Nodup)
    (has : ∀ a ∈ as, a ∈ s) : as.length ≤ s.ncard := by
  classical
  have hsub : (as.toFinset : Set α) ⊆ s := fun a ha => has a (by simpa using ha)
  calc as.length = as.toFinset.card := (List.toFinset_card_of_nodup hnodup).symm
    _ = (as.toFinset : Set α).ncard := (Set.ncard_coe_finset _).symm
    _ ≤ s.ncard := Set.ncard_le_ncard hsub hs

namespace Document.Reached

variable {A : Answering} {opts : Options} {source : Source} {text : Text} {d : Document}

theorem nodup_chain (hopts : opts.detectCycles = true) (hd : Reached A opts source text d) :
    (d.chain.map Path.components).Nodup := by
  induction hd with
  | stdin => exact List.nodup_nil
  | file _ hchain =>
    obtain ⟨identity, -, -, rfl⟩ := hchain.exists_identity hopts
    exact List.nodup_singleton _
  | @included d i path chain included _ _ hchain _ ih =>
    obtain ⟨identity, -, hnew, rfl⟩ := hchain.exists_identity hopts
    rw [List.map_append, List.nodup_append]
    refine ⟨ih, List.nodup_singleton _, fun cs hcs cs' hcs' heq => ?_⟩
    obtain ⟨ancestor, hancestor, rfl⟩ := List.mem_map.1 hcs
    obtain rfl : cs' = Path.components identity := by simpa using hcs'
    have hsame : Path.same identity ancestor = true := by simp [Path.same, heq]
    exact List.any_eq_false.1 hnew ancestor hancestor hsame

/-- Below the top document, a document is led to by one readable file for every level. -/
theorem exists_files {canon : Path → Path}
    (hcanon : ∀ path identity, A (.identify path) identity → identity = canon path)
    (hopts : opts.detectCycles = true) (hd : Reached A opts source text d) :
    ∃ files, d.chain = (source.path?.map canon).toList ++ files ∧
      files.length = d.place.length ∧
      ∀ file ∈ files, ∃ path included, A (.read path) (.ok included) ∧ file = canon path := by
  induction hd with
  | stdin h => exact ⟨[], by rw [h]; rfl, rfl, by simp⟩
  | @file path _ h hchain =>
    obtain ⟨identity, hidentity, -, rfl⟩ := hchain.exists_identity hopts
    refine ⟨[], ?_, rfl, by simp⟩
    rw [h, hcanon path identity hidentity]
    rfl
  | @included d i path chain included _ _ hchain hread ih =>
    obtain ⟨files, hfiles, hlength, hread'⟩ := ih
    obtain ⟨identity, hidentity, -, rfl⟩ := hchain.exists_identity hopts
    refine ⟨files ++ [identity], ?_, by simp [hlength], fun file hfile => ?_⟩
    · rw [hfiles, List.append_assoc]
    · rcases List.mem_append.1 hfile with hfile | hfile
      · exact hread' file hfile
      · rw [List.mem_singleton.1 hfile]
        exact ⟨path, included, hread, hcanon path identity hidentity⟩

theorem length_place_le {h : Host σ} {canon : Path → Path}
    (hcanon : ∀ path s, (h (.identify path) s).1.answer = canon path)
    (hfinite : (h.identities canon).Finite) (hopts : opts.detectCycles = true)
    (hd : Reached h.Allows opts source text d) :
    ∃ files, d.chain = (source.path?.map canon).toList ++ files ∧
      files.length = d.place.length ∧
      (∀ file ∈ files, ∃ path, h.Readable path ∧ file = canon path) ∧
      d.place.length ≤ (h.identities canon).ncard := by
  have hallows : ∀ path identity, h.Allows (.identify path) identity → identity = canon path := by
    rintro path identity ⟨s, rfl⟩
    exact hcanon path s
  obtain ⟨files, hchain, hlength, hread⟩ := hd.exists_files hallows hopts
  have hreadable : ∀ file ∈ files, ∃ path, h.Readable path ∧ file = canon path := by
    intro file hfile
    obtain ⟨path, included, ⟨s, hs⟩, hname⟩ := hread file hfile
    exact ⟨path, ⟨s, included, hs⟩, hname⟩
  have hnodup := hd.nodup_chain hopts
  rw [hchain, List.map_append] at hnodup
  have hle : (files.map Path.components).length ≤ (h.identities canon).ncard := by
    refine length_le_ncard hfinite (List.nodup_append.1 hnodup).2.1 fun cs hcs => ?_
    obtain ⟨file, hfile, rfl⟩ := List.mem_map.1 hcs
    obtain ⟨path, hpath, rfl⟩ := hreadable file hfile
    exact ⟨path, hpath, rfl⟩
  rw [List.length_map, hlength] at hle
  exact ⟨files, hchain, hlength, hreadable, hle⟩

end Document.Reached

open Document

/--
With detection, on a host that gives every file one name and can read files of finitely many names
only, the files that led to a document have names of their own, each the name of a readable file, so
that there are no more of them than such names. Nothing happens in a run but what such documents do,
and a rendering ends with a text or a failure once documents may lie one level deeper.
-/
theorem ends_of_finite_identities {h : Host σ} {canon : Path → Path}
    (hcanon : ∀ path s, (h (.identify path) s).1.answer = canon path)
    (hfinite : (h.identities canon).Finite) {opts : Options} (hopts : opts.detectCycles = true)
    (source : Source) (text : Text) :
    (∀ d, Reached h.Allows opts source text d →
      (d.chain.map Path.components).Nodup ∧
      ∃ files, d.chain = (source.path?.map canon).toList ++ files ∧
        files.length = d.place.length ∧
        (∀ file ∈ files, ∃ path, h.Readable path ∧ file = canon path) ∧
        d.place.length ≤ (h.identities canon).ncard) ∧
    (∀ depth rounds s place call, .began place call ∈
        (Schedule.run h rounds (Plan.render opts depth [] source text) ⟨s, 0, []⟩).2.events →
      (∃ path, source = .file path ∧ place = [] ∧ call = .identify path) ∨
        ∃ d, Reached h.Allows opts source text d ∧ d.Does h.Allows opts (.began place call)) ∧
    ∀ depth > (h.identities canon).ncard, ∀ s,
      ((∃ t calls, Renders h opts depth source text s t calls) ∨
        ∃ failure, Refuses h opts depth source text s (.failed failure)) ∧
      ¬ Refuses h opts depth source text s .tooDeep := by
  refine ⟨fun d hd => ⟨hd.nodup_chain hopts, hd.length_place_le hcanon hfinite hopts⟩,
    fun depth rounds s place call hbegan => ?_, fun depth hdepth s => ?_⟩
  · have hsafe : (Plan.render opts depth [] source text).Safe h.Allows
        (fun e => (∃ path, source = .file path ∧ e = .began [] (.identify path)) ∨
          ∃ d, Reached h.Allows opts source text d ∧ d.Does h.Allows opts e) (fun _ => True) :=
      .render (fun d hd e he => .inr ⟨d, hd, he⟩) (fun _ _ _ _ => trivial) (fun _ _ _ => trivial)
        fun path hpath _ => .inl ⟨path, hpath, rfl⟩
    rcases Event.of_safe h.keeps_allows hsafe hbegan rfl with ⟨path, hpath, heq⟩ | hdoes
    · cases heq
      exact .inl ⟨path, hpath, rfl, rfl⟩
    · exact .inr hdoes
  · -- No document is reached that lies deeper than there are names.
    have hsafe : (Plan.render opts depth [] source text).Safe h.Allows (fun _ => True)
        (fun why => ∃ failure, why = .failed failure) := by
      refine .render (fun _ _ _ _ => trivial) (fun _ _ failure _ => ⟨failure, rfl⟩)
        (fun d hd hlength => ?_) fun _ _ _ => trivial
      obtain ⟨files, -, -, -, hle⟩ := hd.length_place_le hcanon hfinite hopts
      omega
    refine ⟨?_, fun hdeep => ?_⟩
    · rcases renders_or_refuses h opts depth source text s with hrenders | ⟨why, hwhy⟩
      · exact .inl hrenders
      · obtain ⟨failure, rfl⟩ := hwhy.of_safe h.keeps_allows hsafe
        exact .inr ⟨failure, hwhy⟩
    · obtain ⟨failure, hfailure⟩ := hdeep.of_safe h.keeps_allows hsafe
      cases hfailure

def Path.unmarked (path : Path) : Path := path.filter (· ≠ '@')

/--
One file, which can be read under its name with any marks in it, and which includes itself under one
more of these names every time that it is read.
-/
def Host.marked : Host Nat
  | .lookup _, n => (⟨none, 0, []⟩, n)
  | .identify path, n => (⟨path.unmarked, n, []⟩, n)
  | .read path, n =>
    (⟨if path.unmarked = ['a'] then .ok ("$<<".toList ++ List.replicate n '@' ++ "a>>".toList)
      else .error .invalidText, 0, []⟩, n + 1)
  | .readStdin, n => (⟨.error .invalidText, 0, []⟩, n)
  | .execute command _, n => (⟨.ok command, 0, []⟩, n)

/-- The file has endlessly many spellings but one name, so that two levels suffice. -/
theorem ends_marked :
    (Host.marked.identities Path.unmarked).Finite ∧
    ∀ depth ≥ 2, ∀ s,
      ((∃ t calls, Renders Host.marked {} depth .stdin "$<<@a>>".toList s t calls) ∨
        ∃ failure, Refuses Host.marked {} depth .stdin "$<<@a>>".toList s (.failed failure)) ∧
      ¬ Refuses Host.marked {} depth .stdin "$<<@a>>".toList s .tooDeep := by
  have hsub : Host.marked.identities Path.unmarked ⊆ {[.name ['a']]} := by
    rintro _ ⟨path, ⟨s, text, htext⟩, rfl⟩
    have hname : path.unmarked = ['a'] := by
      by_contra hname
      have herror : (Host.marked (.read path) s).1.answer = Except.error .invalidText :=
        if_neg hname
      rw [herror] at htext
      cases htext
    change path.unmarked.components = [.name ['a']]
    rw [hname]
    decide
  have hfinite := (Set.finite_singleton [Path.Component.name ['a']]).subset hsub
  have hcard := Set.ncard_le_ncard hsub (Set.finite_singleton _)
  rw [Set.ncard_singleton] at hcard
  refine ⟨hfinite, fun depth hdepth => ?_⟩
  have hcanon : ∀ path s, (Host.marked (.identify path) s).1.answer = Path.unmarked path :=
    fun _ _ => rfl
  have hopts : ({} : Options).detectCycles = true := rfl
  exact (ends_of_finite_identities hcanon hfinite hopts .stdin "$<<@a>>".toList).2.2 depth
    (by omega)

end Inlay
