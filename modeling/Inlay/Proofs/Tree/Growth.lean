import Inlay.Tree.Files
import Mathlib.Tactic.SplitIfs

namespace Inlay

/-- What a node is, whatever a file holds. -/
def Node.shape : Node → Node
  | .file _ => .file []
  | n => n

theorem Node.eq_of_shape_directory {n : Node} (h : n.shape = .directory) : n = .directory := by
  cases n <;> cases h
  rfl

theorem Node.eq_of_shape_link {n : Node} {target : Path} (h : n.shape = .link target) :
    n = .link target := by
  cases n <;> cases h
  rfl

namespace Tree

/-- The content of the file at a location, if there is a file. -/
def content? (t : Tree) (l : Location) : Option Bytes :=
  match t.node? l with
  | some (.file content) => some content
  | _ => none

/-- Whatever stands in the first tree stands in the second, but a file may hold something else. -/
def Grows (t t' : Tree) : Prop :=
  ∀ l n, t.node? l = some n → (t'.node? l).map Node.shape = some n.shape

@[refl] theorem Grows.refl (t : Tree) : Grows t t := fun l n h => by rw [h, Option.map_some]

theorem Grows.trans {t t' t'' : Tree} (h : Grows t t') (h' : Grows t' t'') : Grows t t'' := by
  intro l n hn
  obtain ⟨n', hn', hshape⟩ := Option.map_eq_some_iff.1 (h l n hn)
  rw [h' l n' hn', hshape]

theorem Grows.directory {t t' : Tree} (h : Grows t t') {l : Location}
    (hl : t.node? l = some .directory) : t'.node? l = some .directory := by
  obtain ⟨n, hn, hshape⟩ := Option.map_eq_some_iff.1 (h l _ hl)
  rwa [Node.eq_of_shape_directory hshape] at hn

theorem Grows.link {t t' : Tree} (h : Grows t t') {l : Location} {target : Path}
    (hl : t.node? l = some (.link target)) : t'.node? l = some (.link target) := by
  obtain ⟨n, hn, hshape⟩ := Option.map_eq_some_iff.1 (h l _ hl)
  rwa [Node.eq_of_shape_link hshape] at hn

variable {t t' : Tree} {last : Bool} {links : Nat} {here : Location} {names : List Text}
  {l : Location} {n : Node}

theorem node?_of_content? {content : Bytes} (h : t.content? l = some content) :
    t.node? l = some (.file content) := by
  rw [content?] at h
  split at h
  · rename_i hnode
    cases h
    exact hnode
  · cases h

theorem node?_of_walk (h : walk t last links here names = .ok (.node l n)) :
    t.node? l = some n := by
  fun_induction walk t last links here names <;> simp_all

theorem node?_of_walk_free {slashed : Bool}
    (h : walk t last links here names = .ok (.free l slashed)) : l ≠ [] ∧ t.node? l = none := by
  fun_induction walk t last links here names with
  | case6 links here name rest hname hup hlimit there hnone =>
    obtain ⟨rfl, -⟩ : there = l ∧ _ := by simpa using h
    exact ⟨by simp [there], hnone⟩
  | _ => simp_all

/-- A proper name is looked up where it stands, and the node there says how to go on. -/
theorem walk_entry {name : Text} {node : Option Node} (hname : ¬(name = [] || name = ['.']) = true)
    (hup : name ≠ ['.', '.']) (hlimit : ¬nameLimit < Text.size name) :
    t.node? (here ++ [name]) = node →
      walk t last links here (name :: names) =
        match node with
        | none =>
          if names.all (· = []) then .ok (.free (here ++ [name]) (names ≠ []))
          else .error .noEntry
        | some .directory => walk t last links (here ++ [name]) names
        | some (.link target) =>
          if names = [] && !last then .ok (.node (here ++ [name]) (.link target))
          else match links with
            | 0 => .error .linkLoop
            | links + 1 => walk t last links (origin here target) (Tree.names target ++ names)
        | some n =>
          if names = [] then .ok (.node (here ++ [name]) n) else .error .notDirectory := by
  intro hnode
  rw [walk, if_neg hname, if_neg hup, if_neg hlimit]
  cases links <;> rcases node with _ | _ | _ <;> simp only [hnode]

/--
Where a path has led to a node, it leads to what stands there now; where it has led to a free place,
it leads to the file that stands there now.
-/
theorem Grows.walk {n' : Node} (hg : Grows t t') (hl : t'.node? l = some n')
    (h : walk t last links here names = .ok (.node l n) ∨
      walk t last links here names = .ok (.free l false) ∧ ∃ content, n' = .file content) :
    Tree.walk t' last links here names = .ok (.node l n') := by
  fun_induction Tree.walk t last links here names with
  | case1 links here n hn =>
    obtain ⟨rfl, rfl⟩ : here = l ∧ _ := by simpa using h
    rw [Tree.walk, hl]
  | case2 => simp at h
  | case3 links here name rest hname ih =>
    rw [Tree.walk, if_pos hname]
    exact ih h
  | case4 links here rest hname ih =>
    rw [Tree.walk, if_neg hname, if_pos rfl]
    exact ih h
  | case5 => simp at h
  | case6 links here name rest hname hup hlimit there hnone hrest =>
    -- The free place at the end of the walk is where the file stands now.
    obtain ⟨⟨rfl, rfl⟩, content, rfl⟩ :
        (there = l ∧ rest = []) ∧ ∃ content, n' = .file content := by
      simpa using h
    rw [walk_entry hname hup hlimit hl]
    rfl
  | case7 => simp at h
  | case8 links here name rest hname hup hlimit there hdir ih =>
    rw [walk_entry hname hup hlimit (hg.directory hdir)]
    exact ih h
  | case9 links here name rest hname hup hlimit there target hlink hlast =>
    obtain ⟨rfl, -⟩ : there = l ∧ _ := by simpa using h
    rw [hg.link hlink] at hl
    cases hl
    rw [walk_entry hname hup hlimit (hg.link hlink)]
    exact if_pos hlast
  | case10 => simp at h
  | case11 here name rest hname hup hlimit there target hlink hlast links ih =>
    rw [walk_entry hname hup hlimit (hg.link hlink)]
    dsimp only
    rw [if_neg hlast]
    exact ih h
  | case12 links here name hname hup hlimit there old hdir hlink hold =>
    obtain ⟨rfl, -⟩ : there = l ∧ _ := by simpa using h
    -- A tree that grows keeps what each of its nodes is.
    have hshape : n'.shape = old.shape := by
      have hold' := hg _ _ hold
      rwa [hl, Option.map_some, Option.some.injEq] at hold'
    rw [walk_entry hname hup hlimit hl]
    cases n' with
    | directory => exact absurd (Node.eq_of_shape_directory hshape.symm) hdir
    | link target => exact absurd (Node.eq_of_shape_link hshape.symm) (hlink target)
    | file | device | program => rfl
  | case13 => simp at h

theorem locate_eq_ok_iff {cwd : Location} {p : Path} {spot : Spot} :
    t.locate cwd p last = .ok spot ↔ ('\x00' ∉ p ∧ p ≠ [] ∧ Text.size p < pathLimit) ∧
      Tree.walk t last linkLimit (origin cwd p) (Tree.names p) = .ok spot := by
  rw [locate]
  split_ifs with hnul hempty hsize
  · simp [hnul]
  · simp [hempty]
  · simp [hsize, Nat.not_lt.2]
  · rw [and_iff_right ⟨hnul, hempty, by omega⟩]
    cases Tree.walk t last linkLimit (origin cwd p) (Tree.names p) <;> simp [Except.mapError]

theorem find_eq_ok_iff {cwd : Location} {p : Path} :
    t.find cwd p = .ok (l, n) ↔ t.locate cwd p true = .ok (.node l n) := by
  rw [Tree.find]
  rcases t.locate cwd p true with _ | ⟨l', n'⟩ | _
  · exact ⟨fun h => (by cases h), fun h => (by cases h)⟩
  · exact ⟨fun h => (by cases h; rfl), fun h => (by cases h; rfl)⟩
  · exact ⟨fun h => (by cases h), fun h => (by cases h)⟩

/-- The path leads to a node at the location, or to the location as a free place for a file. -/
def LeadsTo (t : Tree) (cwd : Location) (p : Path) (l : Location) : Prop :=
  (∃ n, t.find cwd p = .ok (l, n)) ∨ t.locate cwd p true = .ok (.free l false)

theorem Grows.find {n' : Node} (hg : Grows t t') (hl : t'.node? l = some n') {cwd : Location}
    {p : Path} (h : t.find cwd p = .ok (l, n)) : t'.find cwd p = .ok (l, n') := by
  obtain ⟨hp, hwalk⟩ := locate_eq_ok_iff.1 (find_eq_ok_iff.1 h)
  exact find_eq_ok_iff.2 (locate_eq_ok_iff.2 ⟨hp, hg.walk hl (.inl hwalk)⟩)

theorem Grows.find_device (hg : Grows t t') {cwd : Location} {p : Path} {d : Device}
    (h : t.find cwd p = .ok (l, .device d)) : t'.find cwd p = .ok (l, .device d) := by
  have hnode := node?_of_walk (locate_eq_ok_iff.1 (find_eq_ok_iff.1 h)).2
  obtain ⟨n, hn, hshape⟩ := Option.map_eq_some_iff.1 (hg l _ hnode)
  cases n <;> cases hshape
  exact hg.find hn h

theorem Grows.exists_file (hg : Grows t t') {cwd : Location} {p : Path} {content : Bytes}
    (h : t.find cwd p = .ok (l, .file content)) :
    ∃ content', t'.find cwd p = .ok (l, .file content') := by
  have hnode := node?_of_walk (locate_eq_ok_iff.1 (find_eq_ok_iff.1 h)).2
  obtain ⟨n, hn, hshape⟩ := Option.map_eq_some_iff.1 (hg l _ hnode)
  cases n <;> cases hshape
  exact ⟨_, hg.find hn h⟩

theorem Grows.find_file (hg : Grows t t') {cwd : Location} {p : Path} {content : Bytes}
    (hl : t'.content? l = some content) (h : t.LeadsTo cwd p l) :
    t'.find cwd p = .ok (l, .file content) := by
  have hnode := node?_of_content? hl
  rcases h with ⟨n, h⟩ | h
  · exact hg.find hnode h
  · obtain ⟨hp, hwalk⟩ := locate_eq_ok_iff.1 h
    have hwalk' := hg.walk (n := .directory) hnode (.inr ⟨hwalk, content, rfl⟩)
    exact find_eq_ok_iff.2 (locate_eq_ok_iff.2 ⟨hp, hwalk'⟩)

/-- The second tree differs from the first by directories that stand where nothing stood. -/
def Furnishes (t t' : Tree) : Prop :=
  ∀ l, t'.node? l = t.node? l ∨ t.node? l = none ∧ t'.node? l = some .directory

namespace Furnishes

@[refl] theorem refl (t : Tree) : Furnishes t t := fun _ => .inl rfl

theorem trans {t'' : Tree} (h : Furnishes t t') (h' : Furnishes t' t'') : Furnishes t t'' := by
  intro l
  rcases h' l with heq | ⟨hnone, hdir⟩
  · rw [heq]
    exact h l
  · refine .inr ⟨?_, hdir⟩
    rcases h l with heq | ⟨hfree, -⟩
    · rw [← heq, hnone]
    · exact hfree

theorem grows (h : Furnishes t t') : Grows t t' := by
  intro l n hn
  rcases h l with heq | ⟨hnone, -⟩
  · rw [heq, hn, Option.map_some]
  · rw [hn] at hnone
    cases hnone

theorem content?_eq (h : Furnishes t t') (l : Location) : t'.content? l = t.content? l := by
  rcases h l with heq | ⟨hnone, hdir⟩
  · rw [content?, heq, content?]
  · rw [content?, hdir, content?, hnone]

end Furnishes

theorem makeDirectory_furnishes (cwd : Location) (p : Path) (t : Tree) :
    Furnishes t (makeDirectory cwd p t).2 := by
  rw [makeDirectory]
  split
  · exact .refl t
  · exact .refl t
  · rename_i l slashed hfree
    obtain ⟨hl, hnone⟩ := node?_of_walk_free (locate_eq_ok_iff.1 hfree).2
    intro l'
    by_cases heq : l' = l
    · subst heq
      exact .inr ⟨hnone, node?_put_self hl _⟩
    · exact .inl (node?_put_of_ne heq _)

theorem makeFirst_furnishes (cwd : Location) (ps : List Path) (t : Tree) :
    Furnishes t (makeFirst cwd ps t).2 := by
  induction ps generalizing t with
  | nil => exact .refl t
  | cons p parents ih =>
    have hmade := makeDirectory_furnishes cwd p
    have hsettle : ∀ fault t, (if isDirectory t cwd p then (Except.ok (), t)
        else (Except.error fault, t) : Except Fault Unit × Tree).2 = t := by
      intro fault t
      split <;> rfl
    rw [makeFirst]
    by_cases hp : p = []
    · rw [if_pos hp]
    · rw [if_neg hp]
      have hfirst := hmade t
      rcases hmake : makeDirectory cwd p t with ⟨fault | _, t₁⟩
      · rw [hmake] at hfirst
        by_cases hfault : fault = .system .noEntry
        · subst hfault
          -- Only where a parent is missing does it go up, and then it tries once more.
          have hparents := ih t₁
          rcases habove : makeFirst cwd parents t₁ with ⟨fault | _, t₂⟩
          · rw [habove] at hparents
            simp only [habove]
            exact hfirst.trans hparents
          · rw [habove] at hparents
            have hsecond := hmade t₂
            rcases hagain : makeDirectory cwd p t₂ with ⟨fault | _, t₃⟩
            · rw [hagain] at hsecond
              simp only [habove, hagain, hsettle]
              exact (hfirst.trans hparents).trans hsecond
            · rw [hagain] at hsecond
              simp only [habove, hagain]
              exact (hfirst.trans hparents).trans hsecond
        · simp only [hsettle]
          exact hfirst
      · rw [hmake] at hfirst
        exact hfirst

theorem makeDirectories_furnishes (cwd : Location) (p : Path) (t : Tree) :
    Furnishes t (makeDirectories cwd p t).2 := makeFirst_furnishes cwd _ t

/-- Nothing but a file stands at the location. -/
def Writable (t : Tree) (l : Location) : Prop :=
  l ≠ [] ∧ ∀ n, t.node? l = some n → ∃ content, n = .file content

namespace Writable

variable {content : Bytes}

theorem content?_put_self (h : Writable t l) (content : Bytes) :
    (t.put l (.file content)).content? l = some content := by
  rw [content?, node?_put_self h.1]

theorem grows (h : Writable t l) (content : Bytes) : Grows t (t.put l (.file content)) := by
  intro m n hn
  by_cases hm : m = l
  · subst hm
    obtain ⟨old, rfl⟩ := h.2 n hn
    rw [node?_put_self h.1]
    rfl
  · rw [node?_put_of_ne hm, hn]
    rfl

end Writable

theorem content?_put_of_ne {m : Location} (h : m ≠ l) (n : Node) :
    (t.put l n).content? m = t.content? m := by
  rw [content?, node?_put_of_ne h, content?]

theorem writable_of_content? {content : Bytes} (h : t.content? l = some content) :
    Writable t l := by
  have hnode := node?_of_content? h
  refine ⟨?_, fun n hn => ⟨content, ?_⟩⟩
  · rintro rfl
    cases hnode
  · rw [hn] at hnode
    exact Option.some.inj hnode

theorem openOutlet_cases (cwd : Location) (p : Path) (t : Tree) :
    (∃ fault, openOutlet cwd p true t = (.error fault, t)) ∨
    (∃ d l, openOutlet cwd p true t = (.ok (.device d), t) ∧
      t.find cwd p = .ok (l, .device d)) ∨
    ∃ l, openOutlet cwd p true t = (.ok (.file l), t.put l (.file [])) ∧ t.Writable l ∧
      t.LeadsTo cwd p l := by
  rw [openOutlet]
  by_cases hslash : endsInSlash p = true
  · rw [if_pos hslash]
    left
    -- A file whose name ends in a slash is refused wherever it would stand.
    cases locate t cwd (Text.trimEnd (· = '/') p) false with
    | error fault => exact ⟨_, rfl⟩
    | ok spot => exact ⟨_, rfl⟩
  · rw [if_neg hslash]
    cases hlocate : locate t cwd p true with
    | error fault => exact .inl ⟨fault, rfl⟩
    | ok spot =>
      obtain ⟨-, hwalk⟩ := locate_eq_ok_iff.1 hlocate
      cases spot with
      | free l slashed =>
        obtain ⟨hl, hnone⟩ := node?_of_walk_free hwalk
        cases slashed with
        | true => exact .inl ⟨_, rfl⟩
        | false => exact .inr (.inr ⟨l, rfl, ⟨hl, by simp [hnone]⟩, .inr hlocate⟩)
      | node l n =>
        have hfind := find_eq_ok_iff.2 hlocate
        cases n with
        | file content =>
          have hcontent : t.content? l = some content := by rw [content?, node?_of_walk hwalk]
          exact .inr (.inr ⟨l, rfl, writable_of_content? hcontent, .inl ⟨_, hfind⟩⟩)
        | device d => exact .inr (.inl ⟨d, l, rfl, hfind⟩)
        | directory | link | program => exact .inl ⟨_, rfl⟩

theorem overlay_length (content new : Bytes) :
    overlay content new content.length = content ++ new := by
  simp [overlay]

theorem writeAt_content? {content : Bytes} (h : t.content? l = some content) (new : Bytes) :
    ∃ t', writeAt (.file l) new content.length t = (.ok (), t') ∧
      t'.content? l = some (content ++ new) ∧ Grows t t' ∧
      ∀ m, m ≠ l → t'.content? m = t.content? m := by
  by_cases hnew : new = []
  · exact ⟨t, by rw [writeAt, if_pos hnew], by simpa [hnew] using h, .refl t, fun _ _ => rfl⟩
  · have hat : t.contentAt l = content := by rw [contentAt, node?_of_content? h]
    have hwritable := writable_of_content? h
    refine ⟨t.put l (.file (content ++ new)), ?_, hwritable.content?_put_self _,
      hwritable.grows _, fun m hm => content?_put_of_ne hm _⟩
    rw [writeAt, if_neg hnew, hat, overlay_length]

theorem writeAt_device (d : Device) (new : Bytes) (position : Nat) :
    (writeAt (.device d) new position t).2 = t := by
  cases d <;> rfl

end Tree
end Inlay
