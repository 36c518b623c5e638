import Mathlib.Tactic.SplitIfs
import Inlay.Plan.Render

namespace Inlay

/--
The parts that a way to render is made of, whatever it renders to. What they make up is said here
once, and so is what has to hold of the parts for it to hold of the whole.
-/
structure Parts (M : Type) where
  done : Text → M
  halt : Halt → M
  bind : M → (Text → M) → M
  /-- One pass over a text, by what is done about each of its markers. -/
  pass : Place → Source → Marker.Kind → Text → (Nat → Text → M) → M
  name : Place → Source → Text → M
  command : Place → Source → Text → M
  identify : Place → Path → (Path → M) → M
  /-- Goes on with the text of a file, or fails because it cannot be read. -/
  read : Place → Source → Path → (Text → M) → M

namespace Parts

variable {M N : Type}

section Whole

variable (P : Parts M) (checked : Bool)

/-- An include, which is refused if the file is one of those around it. -/
def file (place : Place) (source : Source) (chain : List Path)
    (nested : Path → List Path → Text → M) (relative : Text) : M :=
  let path := source.resolve relative
  if checked then P.identify place path fun identity =>
    if chain.any (Path.same identity) then P.halt (.failed (.cycle (chain ++ [identity])))
    else P.read place source path (nested path (chain ++ [identity]))
  else P.read place source path (nested path chain)

/-- The three passes over a text, by what is done about the files that it includes. -/
def document (place : Place) (source : Source) (text : Text) (files : Nat → Text → M) : M :=
  P.bind (P.pass place source .lookup text fun _ => P.name place source) fun text =>
  P.bind (P.pass place source .inclusion text files) fun text =>
  P.bind (P.pass place source .command text fun _ => P.command place source) fun text =>
  P.done text.closeLine

def passes : (depth : Nat) → Place → Source → List Path → Text → M
  | 0, _, _, _, _ => P.halt .tooDeep
  | depth + 1, place, source, chain, text =>
    P.document place source text fun i =>
      P.file checked place source chain fun path => passes depth (place ++ [i]) (.file path)

def render (depth : Nat) (place : Place) (source : Source) (text : Text) : M :=
  match checked, source.path? with
  | true, some path => P.identify place path fun identity =>
      P.passes checked depth place source [identity] text
  | _, _ => P.passes checked depth place source [] text

end Whole

/-- Makes nothing of a text, so that a relation to it is a property of the other side. -/
def unit : Parts Unit where
  done _ := ()
  halt _ := ()
  bind _ _ := ()
  pass _ _ _ _ _ := ()
  name _ _ _ := ()
  command _ _ _ := ()
  identify _ _ _ := ()
  read _ _ _ _ := ()

/--
How two ways to render can stop in one place: both because of the depth or because of a cycle, or
only one of them, where its reason is one that counts for nothing.
-/
inductive Stops (P : Parts M) (Q : Parts N) (left right : Halt → Prop) : M → N → Prop
  | deep : Stops P Q left right (P.halt .tooDeep) (Q.halt .tooDeep)
  | cycle (chain : List Path) : Stops P Q left right (P.halt (.failed (.cycle chain)))
    (Q.halt (.failed (.cycle chain)))
  | left {why : Halt} (hwhy : left why) (n : N) : Stops P Q left right (P.halt why) n
  | right {why : Halt} (hwhy : right why) (m : M) : Stops P Q left right m (Q.halt why)

/-- Different depths and chains make for no other stops on one side alone. -/
structure Beside (left right : Halt → Prop) (depth depth' : Nat) (chain chain' : List Path) :
    Prop where
  shallower : depth < depth' → left .tooDeep
  deeper : depth' < depth → right .tooDeep
  unlike : chain ≠ chain' → ∀ cycle, left (.failed (.cycle cycle))
  longer : ¬ chain' ⊆ chain → ∀ cycle, right (.failed (.cycle cycle))

namespace Beside

variable {left right : Halt → Prop} {depth depth' : Nat} {chain chain' : List Path}

theorem refl (left right : Halt → Prop) (depth : Nat) (chain : List Path) :
    Beside left right depth depth chain chain :=
  ⟨fun h => absurd h (Nat.lt_irrefl _), fun h => absurd h (Nat.lt_irrefl _),
    fun h => absurd rfl h, fun h => absurd (List.Subset.refl _) h⟩

theorem pred (h : Beside left right (depth + 1) (depth' + 1) chain chain') :
    Beside left right depth depth' chain chain' :=
  { h with
    shallower := fun hd => h.shallower (Nat.succ_lt_succ hd)
    deeper := fun hd => h.deeper (Nat.succ_lt_succ hd) }

theorem append (h : Beside left right depth depth' chain chain') (identity : Path) :
    Beside left right depth depth' (chain ++ [identity]) (chain' ++ [identity]) :=
  { h with
    unlike := fun hne => h.unlike fun heq => hne (by rw [heq])
    longer := fun hsub => h.longer fun hsub' => hsub <|
      List.append_subset.2
        ⟨fun _ hmem => List.mem_append_left _ (hsub' hmem), List.subset_append_right ..⟩ }

end Beside

/--
What has to hold of the parts, so that the renderings are related as wholes: by one relation as
documents, and by another one as the files that a document at this place includes.
-/
structure Related (P : Parts M) (Q : Parts N) (left right : Halt → Prop)
    (F W : Place → Place → M → N → Prop) : Prop where
  document : ∀ {place place' source text files files'},
    (∀ i relative, F place place' (files i relative) (files' i relative)) →
      W place place' (P.document place source text files) (Q.document place' source text files')
  inner : ∀ {place place' i m n}, W (place ++ [i]) (place' ++ [i]) m n → F place place' m n
  identify : ∀ {place place' path next next'},
    (∀ identity, F place place' (next identity) (next' identity)) →
      F place place' (P.identify place path next) (Q.identify place' path next')
  opening : ∀ {place place' path next next'},
    (∀ identity, W place place' (next identity) (next' identity)) →
      W place place' (P.identify place path next) (Q.identify place' path next')
  read : ∀ {place place' source path next next'},
    (∀ text, F place place' (next text) (next' text)) →
      F place place' (P.read place source path next) (Q.read place' source path next')
  refused : ∀ {place place' m n}, Stops P Q left right m n → F place place' m n
  deep : ∀ {place place' m n}, Stops P Q left right m n → W place place' m n

namespace Related

variable {P : Parts M} {Q : Parts N} {left right : Halt → Prop}
  {F W : Place → Place → M → N → Prop} {depth depth' : Nat} {chain chain' : List Path}
  {place place' : Place}

theorem file (h : Related P Q left right F W) (hb : Beside left right depth depth' chain chain')
    {nested : Path → List Path → Text → M} {nested' : Path → List Path → Text → N}
    (hnested : ∀ path longer longer' text, Beside left right depth depth' longer longer' →
      F place place' (nested path longer text) (nested' path longer' text))
    (checked : Bool) (source : Source) (relative : Text) :
    F place place' (P.file checked place source chain nested relative)
      (Q.file checked place' source chain' nested' relative) := by
  cases checked with
  | false => exact h.read fun text => hnested _ _ _ text hb
  | true =>
    refine h.identify fun identity => ?_
    split_ifs with hold hold' hold'
    · by_cases hchain : chain = chain'
      · subst hchain
        exact h.refused (.cycle _)
      · exact h.refused (.left (hb.unlike hchain _) _)
    · exact h.refused (.left (hb.unlike (fun hchain => hold' (hchain ▸ hold)) _) _)
    · refine h.refused (.right (hb.longer (fun hsub => hold ?_) _) _)
      obtain ⟨earlier, hearlier, hsame⟩ := List.any_eq_true.1 hold'
      exact List.any_eq_true.2 ⟨earlier, hsub hearlier, hsame⟩
    · exact h.read fun text => hnested _ _ _ text (hb.append identity)

theorem passes (h : Related P Q left right F W) (hb : Beside left right depth depth' chain chain')
    {checked : Bool} {place place' : Place} {source : Source} {text : Text} :
    W place place' (P.passes checked depth place source chain text)
      (Q.passes checked depth' place' source chain' text) := by
  induction depth generalizing depth' place place' source chain chain' text with
  | zero =>
    cases depth' with
    | zero => exact h.deep .deep
    | succ depth' => exact h.deep (.left (hb.shallower (Nat.succ_pos _)) _)
  | succ depth ih =>
    cases depth' with
    | zero => exact h.deep (.right (hb.deeper (Nat.succ_pos _)) _)
    | succ depth' =>
      refine h.document fun i relative => h.file hb.pred ?_ checked source relative
      intro path longer longer' text hlonger
      exact h.inner (ih hlonger)

theorem render (h : Related P Q left right F W)
    (hb : ∀ chain, Beside left right depth depth' chain chain) {checked : Bool}
    {place place' : Place} {source : Source} {text : Text} :
    W place place' (P.render checked depth place source text)
      (Q.render checked depth' place' source text) := by
  unfold Parts.render
  split
  · exact h.opening fun identity => h.passes (hb _)
  · exact h.passes (hb _)

end Related

/-- What has to hold of the parts one by one, where one relation is kept by them all. -/
structure Congruence (P : Parts M) (Q : Parts N) (left right : Halt → Prop)
    (R : Place → Place → M → N → Prop) : Prop where
  done : ∀ {place place'} text, R place place' (P.done text) (Q.done text)
  stops : ∀ {place place' m n}, Stops P Q left right m n → R place place' m n
  bind : ∀ {place place' m n f g}, R place place' m n →
    (∀ text, R place place' (f text) (g text)) → R place place' (P.bind m f) (Q.bind n g)
  pass : ∀ {place place' source kind text f g},
    (∀ i payload, R place place' (f i payload) (g i payload)) →
      R place place' (P.pass place source kind text f) (Q.pass place' source kind text g)
  name : ∀ {place place'} source name,
    R place place' (P.name place source name) (Q.name place' source name)
  command : ∀ {place place'} source command,
    R place place' (P.command place source command) (Q.command place' source command)
  identify : ∀ {place place' path next next'},
    (∀ identity, R place place' (next identity) (next' identity)) →
      R place place' (P.identify place path next) (Q.identify place' path next')
  read : ∀ {place place' source path next next'},
    (∀ text, R place place' (next text) (next' text)) →
      R place place' (P.read place source path next) (Q.read place' source path next')
  inner : ∀ {place place' i m n}, R (place ++ [i]) (place' ++ [i]) m n → R place place' m n

theorem Congruence.related {P : Parts M} {Q : Parts N} {left right : Halt → Prop}
    {R : Place → Place → M → N → Prop} (h : Congruence P Q left right R) :
    Related P Q left right R R where
  document hfiles := by
    refine h.bind (h.pass fun _ => h.name _) fun _ => ?_
    refine h.bind (h.pass hfiles) fun _ => ?_
    exact h.bind (h.pass fun _ => h.command _) fun _ => h.done _
  inner := h.inner
  identify := h.identify
  opening := h.identify
  read := h.read
  refused := h.stops
  deep := h.stops

end Parts
end Inlay
