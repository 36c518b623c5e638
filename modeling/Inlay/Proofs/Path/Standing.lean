import Inlay.Proofs.Path.Moves
import Inlay.Proofs.Path.Normal

/-!
Where a path stands once it is settled: at the root or some steps up, and then down by names. A step
up takes the last name back, and only where there is none it counts for itself, so no step up stands
behind a name. Settling components leaves the components of such a standing, and the file that an
include names is spelled from it.
-/
namespace Inlay.Path

/-- Where a settled path begins: at the root, or some steps up from where it is read. -/
inductive Base where
  | root
  | up (count : Nat)
  deriving DecidableEq, Repr

def Base.components : Base → List Component
  | .root => [.root]
  | .up count => List.replicate count .up

/-- A settled path: where it begins, and the names from there, the last one first. -/
structure Standing where
  base : Base
  names : List Text
  deriving DecidableEq, Repr

namespace Standing

variable {x : Standing} {cs : List Component} {p : Path}

/-- The root, or the place from which a path without a root is read. -/
def origin (rooted : Bool) : Standing := ⟨if rooted then .root else .up 0, []⟩

def components (x : Standing) : List Component :=
  x.base.components ++ x.names.reverse.map .name

/-- Without names, a step up stays at the root and leads further up elsewhere. -/
def move : Standing → Component → Standing
  | ⟨base, names⟩, .name n => ⟨base, n :: names⟩
  | ⟨base, _ :: names⟩, .up => ⟨base, names⟩
  | ⟨.root, []⟩, .up => ⟨.root, []⟩
  | ⟨.up count, []⟩, .up => ⟨.up (count + 1), []⟩
  | x, .root => x
  | x, .here => x

def walk (x : Standing) (cs : List Component) : Standing := cs.foldl move x

def ofPath (p : Path) : Standing := (origin (isRooted p)).walk (Path.components p)

def path (x : Standing) : Path := ofComponents x.components

theorem walk_cons (x : Standing) (c : Component) (cs : List Component) :
    x.walk (c :: cs) = (x.move c).walk cs := rfl

theorem walk_append (x : Standing) (cs ds : List Component) :
    x.walk (cs ++ ds) = (x.walk cs).walk ds := List.foldl_append

theorem move_root (x : Standing) : x.move .root = x := by
  rcases x with ⟨_ | _, _ | _⟩ <;> rfl

theorem move_here (x : Standing) : x.move .here = x := by
  rcases x with ⟨_ | _, _ | _⟩ <;> rfl

theorem move_name (x : Standing) (n : Text) : x.move (.name n) = ⟨x.base, n :: x.names⟩ := by
  rcases x with ⟨_ | _, _ | _⟩ <;> rfl

theorem move_up_cons (base : Base) (n : Text) (names : List Text) :
    move ⟨base, n :: names⟩ .up = ⟨base, names⟩ := by
  cases base <;> rfl

theorem components_append (base : Base) (down names : List Text) :
    components ⟨base, down ++ names⟩ = components ⟨base, names⟩ ++ down.reverse.map .name := by
  simp [components]

theorem reverse_components (x : Standing) :
    x.components.reverse = x.names.map .name ++ x.base.components := by
  have hbase : x.base.components.reverse = x.base.components := by
    cases x.base with
    | root => rfl
    | up count => exact List.reverse_replicate
  rw [components, List.reverse_append, hbase, ← List.map_reverse, List.reverse_reverse]

theorem settle_components (x : Standing) {c : Component} (hc : c ≠ .root) :
    settle x.components.reverse c = (x.move c).components.reverse := by
  rw [reverse_components, reverse_components]
  cases c with
  | root => exact absurd rfl hc
  | here => rw [move_here]; rfl
  | name n => rw [move_name]; rfl
  | up =>
    rcases x with ⟨base, _ | ⟨n, names⟩⟩
    · cases base with
      | root => rfl
      | up count => cases count <;> rfl
    · rw [move_up_cons]
      rfl

theorem foldl_settle (x : Standing) (hcs : .root ∉ cs) :
    cs.foldl settle x.components.reverse = (x.walk cs).components.reverse := by
  induction cs generalizing x with
  | nil => rfl
  | cons c cs ih =>
    rw [List.mem_cons, not_or] at hcs
    rw [List.foldl_cons, settle_components x (Ne.symm hcs.1), ih (x.move c) hcs.2, walk_cons]

theorem walk_filter {keeps : Component → Bool} (hkeeps : ∀ c, keeps c = false → c.isMove = false)
    (x : Standing) (cs : List Component) : x.walk (cs.filter keeps) = x.walk cs := by
  induction cs generalizing x with
  | nil => rfl
  | cons c cs ih =>
    cases hc : keeps c with
    | true => rw [List.filter_cons_of_pos hc, walk_cons, walk_cons, ih]
    | false =>
      have hstay : x.move c = x := by
        cases c with
        | root => exact move_root x
        | here => exact move_here x
        | up | name => cases hkeeps _ hc
      rw [List.filter_cons_of_neg (by simp [hc]), walk_cons, hstay, ih]

theorem walk_filter_ne_root (x : Standing) (cs : List Component) :
    x.walk (cs.filter (· ≠ .root)) = x.walk cs := by
  refine walk_filter (fun c hc => ?_) x cs
  obtain rfl : c = .root := by simpa using hc
  rfl

theorem walk_moves (x : Standing) (p : Path) : x.walk (moves p) = x.walk (Path.components p) :=
  walk_filter (fun _ => id) x _

end Standing

theorem exists_components_eq (p : Path) :
    ∃ cs, components p = (if isRooted p then [.root] else []) ++ cs ∧ .root ∉ cs := by
  refine ⟨_, rfl, fun h => ?_⟩
  obtain ⟨s, -, hs⟩ := List.mem_map.1 h
  unfold componentOf at hs
  split at hs
  · cases hs
  · split at hs <;> cases hs

theorem isRooted_eq (p : Path) : isRooted p = decide (.root ∈ components p) := by
  obtain ⟨cs, hp, hcs⟩ := exists_components_eq p
  rw [hp]
  cases isRooted p <;> simp [hcs]

namespace Standing

variable {x : Standing} {cs : List Component} {p : Path}

theorem foldl_settle_components (p : Path) :
    (Path.components p).foldl settle [] = (ofPath p).components.reverse := by
  obtain ⟨cs, hp, hcs⟩ := exists_components_eq p
  have horigin : (if isRooted p then [Component.root] else []).foldl settle [] =
      (origin (isRooted p)).components.reverse := by
    cases isRooted p <;> rfl
  have hwalk : ofPath p = (origin (isRooted p)).walk cs := by
    rw [ofPath, hp, walk_append]
    cases isRooted p <;> rfl
  rw [hwalk, hp, List.foldl_append, horigin, foldl_settle _ hcs]

theorem normalize_components (p : Path) :
    normalize (Path.components p) = (ofPath p).components := by
  rw [normalize, foldl_settle_components, List.reverse_reverse]

theorem below_eq (dir p : Path) : below dir p = ((ofPath dir).walk (Path.components p)).path := by
  have hroot : Component.root ∉ (Path.components p).filter (· ≠ .root) := by simp
  rw [below, normalize, List.foldl_append, foldl_settle_components, foldl_settle _ hroot,
    List.reverse_reverse, walk_filter_ne_root, path]

theorem resolve_eq (s : Source) (relative : Text) :
    s.resolve relative = ((ofPath s.directory).walk (Path.components relative)).path :=
  below_eq s.directory relative

/-- Every name is one that a path can be spelled with. -/
def Sound (x : Standing) : Prop := ∀ n ∈ x.names, (Component.name n).IsStep

theorem sound_origin (rooted : Bool) : (origin rooted).Sound := by
  intro n hn
  cases hn

theorem Sound.move (h : x.Sound) {c : Component} (hc : c = .root ∨ c = .here ∨ c.IsStep) :
    (x.move c).Sound := by
  cases c with
  | root => rwa [move_root]
  | here => rwa [move_here]
  | name n =>
    rw [move_name]
    intro m hm
    rcases List.mem_cons.1 hm with rfl | hm
    · simpa using hc
    · exact h m hm
  | up =>
    rcases x with ⟨base, _ | ⟨n, names⟩⟩
    · cases base <;> exact h
    · rw [move_up_cons]
      exact fun m hm => h m (List.mem_cons_of_mem n hm)

theorem Sound.walk (h : x.Sound) (p : Path) : (x.walk (Path.components p)).Sound := by
  have hcs : ∀ c ∈ Path.components p, c = .root ∨ c = .here ∨ c.IsStep := fun c => mem_components
  generalize Path.components p = cs at hcs
  induction cs generalizing x with
  | nil => exact h
  | cons c cs ih =>
    exact ih (h.move (hcs c List.mem_cons_self)) fun d hd => hcs d (List.mem_cons_of_mem c hd)

theorem sound_ofPath (p : Path) : (ofPath p).Sound := (sound_origin _).walk p

theorem sound_walk (dir p : Path) : ((ofPath dir).walk (Path.components p)).Sound :=
  (sound_ofPath dir).walk p

theorem Sound.settled (h : x.Sound) : Settled x.components.reverse := by
  rw [reverse_components]
  have hbase : Settled x.base.components := by
    cases x.base with
    | root => exact .root
    | up count =>
      induction count with
      | zero => exact .nil
      | succ count ih => exact .step trivial ih
  rcases x with ⟨base, names⟩
  induction names with
  | nil => exact hbase
  | cons n names ih =>
    refine .step (h n List.mem_cons_self) (ih (fun m hm => h m ?_) hbase)
    exact List.mem_cons_of_mem n hm

theorem components_eq_nil_iff : x.components = [] ↔ x = origin false := by
  rcases x with ⟨_ | _ | count, names⟩ <;> simp [components, Base.components, origin]

theorem Sound.components_path (h : x.Sound) :
    Path.components x.path = if x = origin false then [.here] else x.components := by
  split
  · rename_i hx
    subst hx
    decide
  · rename_i hx
    rw [← components_eq_nil_iff] at hx
    have hne : x.components.reverse ≠ [] := by simpa using hx
    rw [path, ← List.reverse_reverse x.components, components_ofComponents h.settled hne]

theorem walk_names (base : Base) (names ns : List Text) :
    walk ⟨base, names⟩ (ns.map .name) = ⟨base, ns.reverse ++ names⟩ := by
  induction ns generalizing names with
  | nil => rfl
  | cons n ns ih =>
    rw [List.map_cons, walk_cons, move_name, ih, List.reverse_cons, List.append_assoc]
    rfl

theorem walk_ups (count more : Nat) :
    walk ⟨.up count, []⟩ (List.replicate more .up) = ⟨.up (count + more), []⟩ := by
  induction more generalizing count with
  | zero => rfl
  | succ more ih =>
    have hup : move ⟨.up count, []⟩ .up = ⟨.up (count + 1), []⟩ := rfl
    rw [List.replicate_succ, walk_cons, hup, ih, Nat.add_assoc, Nat.add_comm 1]

theorem root_mem_components : .root ∈ x.components ↔ x.base = .root := by
  rcases x with ⟨_ | _, names⟩ <;> simp [components, Base.components]

theorem ofPath_eq_of_components (h : Path.components p = x.components) : ofPath p = x := by
  rcases x with ⟨base, names⟩
  have hbase : (origin (isRooted p)).walk base.components = ⟨base, []⟩ := by
    cases hr : isRooted p with
    | true =>
      rw [isRooted_eq, h, decide_eq_true_iff, root_mem_components] at hr
      obtain rfl : base = .root := hr
      rfl
    | false =>
      rw [isRooted_eq, h, decide_eq_false_iff_not, root_mem_components] at hr
      cases base with
      | root => exact absurd rfl hr
      | up count =>
        have hups := walk_ups 0 count
        rwa [Nat.zero_add] at hups
  rw [ofPath, h, components, walk_append, hbase, walk_names, List.reverse_reverse, List.append_nil]

end Standing
end Inlay.Path
