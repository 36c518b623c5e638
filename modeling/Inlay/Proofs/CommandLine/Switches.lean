import Inlay.CommandLine.Reading

namespace Inlay.CommandLine

def Switch.word (s : Switch) : Bytes := Text.encode ("--".toList ++ s.long.toList)

def Switch.repetition (s : Switch) : Stop := .rejected (.repeated (.switch s))

namespace Arguments

def on (a : Arguments) : Switch → Arguments
  | .debug => { a with debug := true }
  | .noColor => { a with noColor := true }

def plain (a : Arguments) : Arguments := { a with debug := false, noColor := false }

@[simp] theorem plain_on (a : Arguments) (s : Switch) : (a.on s).plain = a.plain := by
  cases s <;> rfl

theorem assign_on (a : Arguments) (s : Switch) (p : Parameter) (value : Bytes) :
    (a.on s).assign p value = (a.assign p value).map (·.on s) := by
  have hset : (a.on s).isSet p = a.isSet p := by cases s <;> cases p <;> rfl
  rw [assign.eq_def, assign.eq_def, hset]
  split
  · rfl
  · cases p with
    | output => cases pathValue .output value <;> cases s <;> rfl
    | directory => cases pathValue .directory value <;> cases s <;> rfl
    | suffix => cases textValue value <;> cases s <;> rfl
    | config => cases pathValue .config value <;> cases s <;> rfl
    | maxConcurrent => cases numberValue .maxConcurrent value <;> cases s <;> rfl

theorem turnOn_on (a : Arguments) (s s' : Switch) :
    (a.on s).turnOn s' = .error s.repetition ∨
      (a.on s).turnOn s' = (a.turnOn s').map (·.on s) := by
  cases s <;> cases s'
  · exact .inl rfl
  · right
    cases hcolor : a.noColor <;> simp [turnOn, on, hcolor, Except.map, reject]
  · right
    cases hdebug : a.debug <;> simp [turnOn, on, hdebug, Except.map, reject]
  · exact .inl rfl

end Arguments

namespace Reading

variable {s : Switch}

def on (r : Reading) (s : Switch) : Reading := { r with arguments := r.arguments.on s }

/-- What is read after a switch: the same with the switch, unless it is given once more. -/
def After (s : Switch) (x y : Except Stop Reading) : Prop :=
  y = .error s.repetition ∨ y = x.map (·.on s)

theorem After.bind {x y : Except Stop Reading} {f : Reading → Except Stop Reading}
    (hxy : After s x y) (hf : ∀ r, After s (f r) (f (r.on s))) : After s (x.bind f) (y.bind f) := by
  rcases hxy with rfl | rfl
  · exact .inl rfl
  · cases x with
    | error why => exact .inr rfl
    | ok r => exact hf r

theorem settle_on (r : Reading) (s : Switch) : (r.on s).settle = r.settle.map (·.on s) := by
  obtain ⟨a, pending, onlyFiles⟩ := r
  cases pending with
  | nothing => rfl
  | parameter p value =>
    cases value with
    | none => rfl
    | some value =>
      simp only [settle, on, Arguments.assign_on]
      cases a.assign p value <;> rfl
  | files words =>
    simp only [settle, on]
    cases words.mapM Arguments.textValue <;> cases s <;> rfl

theorem after_settle (r : Reading) : After s r.settle (r.on s).settle := .inr (settle_on r s)

theorem after_addFile (r : Reading) (word : Bytes) :
    After s (r.addFile word) ((r.on s).addFile word) := by
  have hsettled := (after_settle (s := s) r).bind
    (f := fun r => .ok { r with pending := .files [word] }) fun _ => .inr rfl
  obtain ⟨a, pending, onlyFiles⟩ := r
  cases pending with
  | files words => exact .inr rfl
  | nothing | parameter p value => exact hsettled

theorem after_option (r : Reading) (n : Name) (attached : Option Bytes) :
    After s (r.option n attached) ((r.on s).option n attached) := by
  cases n with
  | parameter p =>
    cases attached with
    | none => exact (after_settle r).bind fun _ => .inr rfl
    | some value =>
      refine (after_settle r).bind fun r => .inr ?_
      dsimp only [on]
      rw [Arguments.assign_on]
      cases r.arguments.assign p value <;> rfl
  | switch s' =>
    cases attached with
    | none =>
      refine (after_settle r).bind fun r => ?_
      -- A switch that is on is not taken twice.
      rcases r.arguments.turnOn_on s s' with hagain | hon
      · left
        dsimp only [on]
        rw [hagain]
        rfl
      · right
        dsimp only [on]
        rw [hon]
        cases r.arguments.turnOn s' <;> rfl
    | some value => exact .inr rfl
  | inquiry i =>
    cases attached with
    | none => exact (after_settle r).bind fun _ => .inr rfl
    | some value => exact .inr rfl

theorem after_long (r : Reading) (name : Bytes) (value : Option Bytes) :
    After s (r.long name value) ((r.on s).long name value) := by
  rw [long, long]
  split
  · exact after_option r _ value
  · exact .inr rfl

theorem after_short (r : Reading) (letters : Bytes) :
    After s (r.short letters) ((r.on s).short letters) := by
  rw [short.eq_def, short.eq_def]
  cases firstChar? letters with
  | none => exact .inr rfl
  | some c =>
    dsimp only
    split
    · exact .inr rfl
    · exact after_option r _ _
    · exact after_option r _ _

theorem after_step (r : Reading) (word : Bytes) : After s (r.step word) ((r.on s).step word) := by
  rw [step.eq_def, step.eq_def]
  have honly : (r.on s).onlyFiles = r.onlyFiles := rfl
  have hpending : (r.on s).pending = r.pending := rfl
  rw [honly, hpending]
  split
  · exact after_addFile r word
  · split
    · exact .inr rfl
    · exact after_long r _ _
    · exact after_short r _
    · split
      · exact .inr rfl
      · exact after_addFile r _

theorem after_foldlM (words : List Bytes) (r : Reading) :
    After s (words.foldlM step r) (words.foldlM step (r.on s)) := by
  induction words generalizing r with
  | nil => exact .inr rfl
  | cons word words ih =>
    rw [List.foldlM_cons, List.foldlM_cons]
    exact (after_step r word).bind ih

end Reading

theorem ofBytes_word (s : Switch) :
    Word.ofBytes s.word = .long (Text.encode s.long.toList) none := by
  cases s <;> decide

theorem decode?_long (s : Switch) :
    Text.decode? (Text.encode s.long.toList) = some s.long.toList := by
  cases s <;> simp [Text.decode?, Switch.long, Text.encode, String.utf8EncodeChar,
    Text.decodeParts, Text.decodePart]

theorem ofLong?_long (s : Switch) : Name.ofLong? s.long.toList = some (.switch s) := by
  cases s <;> decide

theorem step_word (s : Switch) : Reading.step {} s.word = .ok (Reading.on {} s) := by
  have hlong : Reading.step {} s.word = Reading.long {} (Text.encode s.long.toList) none := by
    rw [Reading.step.eq_def, ofBytes_word]
    rfl
  rw [hlong, Reading.long, decode?_long, Option.bind_some, ofLong?_long]
  cases s <;> rfl

theorem read_cons_word (s : Switch) (words : List Bytes) :
    Arguments.read (s.word :: words) = .error s.repetition ∨
      Arguments.read (s.word :: words) = (Arguments.read words).map (·.on s) := by
  have hread : ∀ ws, Arguments.read ws =
      ((ws.foldlM Reading.step {}).bind Reading.settle).map Reading.arguments := by
    intro ws
    rw [Arguments.read]
    cases ws.foldlM Reading.step {} with
    | error why => rfl
    | ok r =>
      change (do return (← r.settle).arguments) = r.settle.map Reading.arguments
      cases r.settle <;> rfl
  have hfirst : (s.word :: words).foldlM Reading.step {} =
      words.foldlM Reading.step (Reading.on {} s) := by
    rw [List.foldlM_cons, step_word]
    rfl
  rw [hread, hread, hfirst]
  rcases (Reading.after_foldlM (s := s) words {}).bind Reading.after_settle with hagain | hon
  · left
    rw [hagain]
    rfl
  · right
    rw [hon]
    cases (words.foldlM Reading.step {}).bind Reading.settle <;> rfl

end Inlay.CommandLine
