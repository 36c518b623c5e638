import Mathlib.Data.List.Nodup
import Inlay.Proofs.CommandLine.Switches
import Inlay.Proofs.Text.Decoding
import Inlay.Proofs.Text.Number

namespace Inlay.CommandLine

structure WrittenPath where
  bytes : Bytes
  bytes_ne : bytes ≠ []

structure Numeral where
  written : Text
  value : Nat
  spells : written.Spells value
  value_lt : value < 2 ^ 64

inductive Value where
  | output (path : WrittenPath)
  | directory (path : WrittenPath)
  | suffix (t : Text)
  | config (path : WrittenPath)
  | maxConcurrent (n : Numeral)

def Value.parameter : Value → Parameter
  | output _ => .output
  | directory _ => .directory
  | suffix _ => .suffix
  | config _ => .config
  | maxConcurrent _ => .maxConcurrent

def Value.bytes : Value → Bytes
  | output path => path.bytes
  | directory path => path.bytes
  | suffix t => Text.encode t
  | config path => path.bytes
  | maxConcurrent n => Text.encode n.written

inductive Given where
  | switch (s : Switch)
  | value (v : Value)

def Given.name : Given → Name
  | switch s => .switch s
  | value v => .parameter v.parameter

/-- The word of an option: two dashes and its long name, and its value after an equals sign. -/
def Given.word : Given → Bytes
  | switch s => s.word
  | value v => dash :: dash :: (Text.encode v.parameter.long.toList ++ equals :: v.bytes)

/-- The value that is attached to the name, if the option takes one. -/
def Given.attached : Given → Option Bytes
  | switch _ => none
  | value v => some v.bytes

structure Choice where
  debug : Bool := false
  noColor : Bool := false
  output : Option WrittenPath := none
  directory : Option WrittenPath := none
  suffix : Option Text := none
  config : Option WrittenPath := none
  maxConcurrent : Option Numeral := none

namespace Choice

/-- The options that say it, each once, in one of their orders. -/
def given (c : Choice) : List Given :=
  (if c.debug then [.switch .debug] else []) ++ (if c.noColor then [.switch .noColor] else []) ++
    c.output.toList.map (fun path => .value (.output path)) ++
    c.directory.toList.map (fun path => .value (.directory path)) ++
    c.suffix.toList.map (fun t => .value (.suffix t)) ++
    c.config.toList.map (fun path => .value (.config path)) ++
    c.maxConcurrent.toList.map (fun n => .value (.maxConcurrent n))

def arguments (c : Choice) (files : List Text) : Arguments :=
  { files := files
    debug := c.debug
    noColor := c.noColor
    output := c.output.map WrittenPath.bytes
    directory := c.directory.map WrittenPath.bytes
    suffix := c.suffix
    config := c.config.map WrittenPath.bytes
    maxConcurrent := c.maxConcurrent.map Numeral.value }

end Choice

/-- Options and files in one row of words, each of the two in its own order. -/
inductive Arranged : List Given → List Text → List Bytes → Prop where
  | nil : Arranged [] [] []
  | given {gs files words} (g : Given) (rest : Arranged gs files words) :
      Arranged (g :: gs) files (g.word :: words)
  /-- A file does not look like an option; a single dash does not. -/
  | file {gs files words} (f : Text) (plain : f = ['-'] ∨ f.head? ≠ some '-')
      (rest : Arranged gs files words) : Arranged gs (f :: files) (Text.encode f :: words)

def divider : Bytes := [dash, dash]

namespace Arguments

def set (a : Arguments) : Value → Arguments
  | .output path => { a with output := some path.bytes }
  | .directory path => { a with directory := some path.bytes }
  | .suffix t => { a with suffix := some t }
  | .config path => { a with config := some path.bytes }
  | .maxConcurrent n => { a with maxConcurrent := some n.value }

def give (a : Arguments) : Given → Arguments
  | .switch s => a.on s
  | .value v => a.set v

def Has (a : Arguments) : Given → Prop
  | .switch .debug => a.debug = true
  | .switch .noColor => a.noColor = true
  | .value v => a.isSet v.parameter = true

theorem textValue_encode (t : Text) : textValue (Text.encode t) = .ok t := by
  rw [textValue, Text.decode?_eq_some_iff.2 rfl]

theorem pathValue_of_ne {p : Parameter} (path : WrittenPath) :
    pathValue p path.bytes = .ok path.bytes := if_neg path.bytes_ne

theorem numberValue_encode {p : Parameter} (n : Numeral) :
    numberValue p (Text.encode n.written) = .ok n.value := by
  have hword : Text.readWord n.written = .ok n.value :=
    Text.readWord_eq_ok_iff.2 ⟨n.spells, n.value_lt⟩
  simp only [numberValue, textValue_encode, bind, Except.bind, hword]
  rfl

theorem assign_eq_set {a : Arguments} {v : Value} (h : ¬ a.Has (.value v)) :
    a.assign v.parameter v.bytes = .ok (a.set v) := by
  have hset : ¬ a.isSet v.parameter = true := h
  rw [assign.eq_def, if_neg hset]
  cases v with
  | output path => simp only [Value.parameter, Value.bytes, pathValue_of_ne]; rfl
  | directory path => simp only [Value.parameter, Value.bytes, pathValue_of_ne]; rfl
  | suffix t => simp only [Value.parameter, Value.bytes, textValue_encode]; rfl
  | config path => simp only [Value.parameter, Value.bytes, pathValue_of_ne]; rfl
  | maxConcurrent n => simp only [Value.parameter, Value.bytes, numberValue_encode]; rfl

theorem turnOn_eq_on {a : Arguments} {s : Switch} (h : ¬ a.Has (.switch s)) :
    a.turnOn s = .ok (a.on s) := by
  cases s with
  | debug => exact if_neg h
  | noColor => exact if_neg h

theorem has_give_iff {a : Arguments} {g g' : Given} (h : g.name ≠ g'.name) :
    (a.give g).Has g' ↔ a.Has g' := by
  rcases g with s | v <;> rcases g' with s' | v'
  · cases s <;> cases s' <;> first | rfl | exact absurd rfl h
  · cases s <;> cases v' <;> rfl
  · cases s' <;> cases v <;> rfl
  · cases v <;> cases v' <;> first | rfl | exact absurd rfl h

theorem give_comm {g g' : Given} (h : g.name ≠ g'.name) (a : Arguments) :
    (a.give g).give g' = (a.give g').give g := by
  rcases g with s | v <;> rcases g' with s' | v'
  · cases s <;> cases s' <;> rfl
  · cases s <;> cases v' <;> rfl
  · cases s' <;> cases v <;> rfl
  · cases v <;> cases v' <;> first | rfl | exact absurd rfl h

end Arguments

namespace Reading

/-- The reading has come to these arguments, once the files that are pending are counted in. -/
def Holds (r : Reading) (a : Arguments) : Prop :=
  (r.pending = .nothing ∧ r.arguments = a) ∨
    ∃ files : List Text, r.pending = .files (files.map Text.encode) ∧
      { r.arguments with files := r.arguments.files ++ files } = a

variable {r : Reading} {a : Arguments}

theorem mapM_textValue_encode (files : List Text) :
    (files.map Text.encode).mapM Arguments.textValue = .ok files := by
  induction files with
  | nil => rfl
  | cons f files ih =>
    rw [List.map_cons, List.mapM_cons, Arguments.textValue_encode, ih]
    rfl

theorem Holds.settle_eq (h : r.Holds a) :
    r.settle = .ok { r with arguments := a, pending := .nothing } := by
  obtain ⟨arguments, pending, onlyFiles⟩ := r
  rcases h with ⟨hpending, harguments⟩ | ⟨files, hpending, harguments⟩
  · dsimp only at hpending harguments
    rw [hpending, harguments]
    rfl
  · dsimp only at hpending harguments
    rw [hpending, settle.eq_def]
    dsimp only
    rw [mapM_textValue_encode, ← harguments]
    rfl

theorem Holds.addFile (h : r.Holds a) (f : Text) :
    ∃ r', r.addFile (Text.encode f) = .ok r' ∧ r'.onlyFiles = r.onlyFiles ∧
      r'.Holds { a with files := a.files ++ [f] } := by
  have hsettle := h.settle_eq
  obtain ⟨arguments, pending, onlyFiles⟩ := r
  rcases h with ⟨hpending, harguments⟩ | ⟨files, hpending, harguments⟩
  · dsimp only at hpending harguments
    subst hpending harguments
    exact ⟨_, rfl, rfl, Or.inr ⟨[f], rfl, rfl⟩⟩
  · dsimp only at hpending harguments
    subst hpending harguments
    refine ⟨_, rfl, rfl, Or.inr ⟨files ++ [f], ?_, ?_⟩⟩
    · simp
    · simp

theorem Holds.option (h : r.Holds a) {g : Given} (hnew : ¬ a.Has g) :
    ∃ r', r.option g.name g.attached = .ok r' ∧ r'.onlyFiles = r.onlyFiles ∧
      r'.Holds (a.give g) := by
  cases g with
  | switch s =>
    refine ⟨⟨a.on s, .nothing, r.onlyFiles⟩, ?_, rfl, Or.inl ⟨rfl, rfl⟩⟩
    simp only [Given.name, Given.attached, Reading.option, h.settle_eq]
    change (do return { r with arguments := ← a.turnOn s, pending := Pending.nothing }) = _
    rw [Arguments.turnOn_eq_on hnew]
    rfl
  | value v =>
    refine ⟨⟨a.set v, .nothing, r.onlyFiles⟩, ?_, rfl, Or.inl ⟨rfl, rfl⟩⟩
    simp only [Given.name, Given.attached, Reading.option, h.settle_eq]
    change (do return { r with
      arguments := ← a.assign v.parameter v.bytes, pending := Pending.nothing }) = _
    rw [Arguments.assign_eq_set hnew]
    rfl

end Reading

theorem ofName_eq {name : Bytes} (h : equals ∉ name) (value : Bytes) :
    Word.ofName (name ++ equals :: value) = .long name (some value) := by
  have hname : ∀ b ∈ name, decide (b ≠ equals) = true := by
    intro b hb
    refine decide_eq_true ?_
    rintro rfl
    exact h hb
  rw [Word.ofName, List.dropWhile_append_of_pos hname, List.takeWhile_append_of_pos hname]
  simp

theorem ofBytes_given (g : Given) :
    Word.ofBytes g.word = .long (Text.encode g.name.long.toList) g.attached := by
  cases g with
  | switch s => exact ofBytes_word s
  | value v =>
    have hname : ∀ p : Parameter, equals ∉ Text.encode p.long.toList := by
      intro p
      cases p <;> decide
    rw [Given.word, Word.ofBytes, if_pos rfl, if_pos rfl, if_neg (by simp), ofName_eq (hname _)]
    rfl

theorem ofBytes_file {f : Text} (h : f = ['-'] ∨ f.head? ≠ some '-') :
    Word.ofBytes (Text.encode f) = .plain (Text.encode f) := by
  rcases h with rfl | hhead
  · rfl
  · have hdash : ∀ rest, Text.encode f ≠ dash :: rest := by
      rintro rest hrest
      have hprefix : Text.encode ['-'] <+: Text.encode f := ⟨rest, hrest.symm⟩
      obtain ⟨_, rfl⟩ := Text.encode_prefix_encode_iff.1 hprefix
      exact hhead rfl
    rw [Word.ofBytes.eq_def]
    split
    · rename_i hword
      rw [if_neg (fun hfirst => hdash _ (hfirst ▸ hword)), hword]
    · rfl

theorem ofLong?_name (g : Given) :
    Name.ofLong? g.name.long.toList = some g.name := by
  rcases g with s | v
  · exact ofLong?_long s
  · have hfound : ∀ p : Parameter, Name.ofLong? p.long.toList = some (.parameter p) := by
      intro p
      cases p <;> decide
    exact hfound v.parameter

namespace Reading

variable {r : Reading} {a : Arguments}

theorem step_given (hopen : r.onlyFiles = false) (g : Given) :
    r.step g.word = r.option g.name g.attached := by
  rw [step.eq_def, if_neg (by simp [hopen]), ofBytes_given]
  dsimp only
  rw [long, Text.decode?_eq_some_iff.2 rfl, Option.bind_some, ofLong?_name]

theorem Holds.step_file (h : r.Holds a) {f : Text} (hf : f = ['-'] ∨ f.head? ≠ some '-') :
    r.step (Text.encode f) = r.addFile (Text.encode f) := by
  rw [step.eq_def, ofBytes_file hf]
  dsimp only
  split
  · rfl
  · split
    · rename_i hpending
      rcases h with ⟨hnothing, -⟩ | ⟨files, hfiles, -⟩
      · rw [hpending] at hnothing
        cases hnothing
      · rw [hpending] at hfiles
        cases hfiles
    · rfl

end Reading

namespace Arguments

def addFiles (a : Arguments) (files : List Text) : Arguments := { a with files := a.files ++ files }

@[simp] theorem addFiles_nil (a : Arguments) : a.addFiles [] = a := by
  rw [addFiles, List.append_nil]

@[simp] theorem addFiles_addFiles (a : Arguments) (files files' : List Text) :
    (a.addFiles files).addFiles files' = a.addFiles (files ++ files') := by
  simp [addFiles]

theorem has_addFiles_iff {a : Arguments} {files : List Text} {g : Given} :
    (a.addFiles files).Has g ↔ a.Has g := by
  rcases g with s | v
  · cases s <;> rfl
  · cases v <;> rfl

theorem addFiles_give (a : Arguments) (files : List Text) (g : Given) :
    (a.give g).addFiles files = (a.addFiles files).give g := by
  rcases g with s | v
  · cases s <;> rfl
  · cases v <;> rfl

theorem addFiles_foldl_give (a : Arguments) (files : List Text) (gs : List Given) :
    (gs.foldl give a).addFiles files = gs.foldl give (a.addFiles files) := by
  induction gs generalizing a with
  | nil => rfl
  | cons g gs ih => rw [List.foldl_cons, List.foldl_cons, ih, addFiles_give]

end Arguments

namespace Reading

variable {r : Reading} {a : Arguments}

theorem Holds.foldlM_arranged {gs : List Given} {files : List Text} {words : List Bytes}
    (hwords : Arranged gs files words) (h : r.Holds a) (hopen : r.onlyFiles = false)
    (hnew : ∀ g ∈ gs, ¬ a.Has g) (hnames : (gs.map Given.name).Nodup) :
    ∃ r', words.foldlM step r = .ok r' ∧ r'.onlyFiles = false ∧
      r'.Holds ((gs.foldl Arguments.give a).addFiles files) := by
  -- Files go behind all that has been read: they can be added before the options still to come.
  induction hwords generalizing r a with
  | nil =>
    refine ⟨r, rfl, hopen, ?_⟩
    rwa [List.foldl_nil, Arguments.addFiles_nil]
  | @given gs files words g rest ih =>
    rw [List.map_cons, List.nodup_cons] at hnames
    obtain ⟨r₁, hstep, hopen₁, h₁⟩ := h.option (hnew g List.mem_cons_self)
    have hnew₁ : ∀ g' ∈ gs, ¬ (a.give g).Has g' := by
      intro g' hg'
      have hne : g.name ≠ g'.name := fun heq => hnames.1 (heq ▸ List.mem_map_of_mem hg')
      rw [Arguments.has_give_iff hne]
      exact hnew g' (List.mem_cons_of_mem g hg')
    obtain ⟨r', hrun, hopen', h'⟩ := ih h₁ (hopen₁.trans hopen) hnew₁ hnames.2
    refine ⟨r', ?_, hopen', h'⟩
    rw [List.foldlM_cons, step_given hopen, hstep]
    exact hrun
  | @file gs files words f hf rest ih =>
    obtain ⟨r₁, hstep, hopen₁, h₁⟩ := h.addFile f
    have hnew₁ : ∀ g ∈ gs, ¬ (a.addFiles [f]).Has g := fun g hg =>
      Arguments.has_addFiles_iff.not.2 (hnew g hg)
    obtain ⟨r', hrun, hopen', h'⟩ := ih h₁ (hopen₁.trans hopen) hnew₁ hnames
    refine ⟨r', ?_, hopen', ?_⟩
    · rw [List.foldlM_cons, h.step_file hf, hstep]
      exact hrun
    · have hfiles := Arguments.addFiles_foldl_give a [f] gs
      change r'.Holds ((gs.foldl Arguments.give (a.addFiles [f])).addFiles files) at h'
      rwa [← hfiles, Arguments.addFiles_addFiles] at h'

theorem Holds.foldlM_files (h : r.Holds a) (hclosed : r.onlyFiles = true) (files : List Text) :
    ∃ r', (files.map Text.encode).foldlM step r = .ok r' ∧ r'.Holds (a.addFiles files) := by
  induction files generalizing r a with
  | nil =>
    refine ⟨r, rfl, ?_⟩
    rwa [Arguments.addFiles_nil]
  | cons f files ih =>
    obtain ⟨r₁, hstep, hclosed₁, h₁⟩ := h.addFile f
    obtain ⟨r', hrun, h'⟩ := ih h₁ (hclosed₁.trans hclosed)
    refine ⟨r', ?_, ?_⟩
    · rw [List.map_cons, List.foldlM_cons, step.eq_def, if_pos hclosed, hstep]
      exact hrun
    · change r'.Holds ((a.addFiles [f]).addFiles files) at h'
      rwa [Arguments.addFiles_addFiles] at h'

theorem Holds.step_divider (h : r.Holds a) (hopen : r.onlyFiles = false) :
    ∃ r', r.step divider = .ok r' ∧ r'.onlyFiles = true ∧ r'.Holds a := by
  refine ⟨{ r with onlyFiles := true }, ?_, rfl, h⟩
  rw [step.eq_def, if_neg (by simp [hopen])]
  rfl

end Reading

theorem read_of_holds {words : List Bytes} {r : Reading} {a : Arguments}
    (hrun : words.foldlM Reading.step {} = .ok r) (h : r.Holds a) :
    Arguments.read words = .ok a := by
  rw [Arguments.read, hrun]
  change (do return (← r.settle).arguments) = _
  rw [h.settle_eq]
  rfl

namespace Choice

theorem nodup_names (c : Choice) : (c.given.map Given.name).Nodup := by
  have hflag : ∀ (b : Bool) (s : Switch),
      ((if b then [Given.switch s] else []).map Given.name).Sublist [.switch s] := by
    intro b s
    cases b <;> simp [Given.name]
  have hvalue : ∀ {α : Type} (o : Option α) (f : α → Value) (p : Parameter),
      (∀ x, (f x).parameter = p) →
      ((o.toList.map fun x => Given.value (f x)).map Given.name).Sublist [.parameter p] := by
    intro α o f p hp
    cases o <;> simp [Given.name, hp]
  have hsub : (c.given.map Given.name).Sublist
      [.switch .debug, .switch .noColor, .parameter .output, .parameter .directory,
        .parameter .suffix, .parameter .config, .parameter .maxConcurrent] := by
    simp only [given, List.map_append]
    exact ((((((hflag c.debug .debug).append (hflag c.noColor .noColor)).append
      (hvalue c.output _ .output fun _ => rfl)).append
      (hvalue c.directory _ .directory fun _ => rfl)).append
      (hvalue c.suffix _ .suffix fun _ => rfl)).append
      (hvalue c.config _ .config fun _ => rfl)).append
      (hvalue c.maxConcurrent _ .maxConcurrent fun _ => rfl)
  exact hsub.nodup (by decide)

theorem foldl_give_given (c : Choice) : c.given.foldl Arguments.give {} = c.arguments [] := by
  obtain ⟨debug, noColor, output, directory, suffix, config, maxConcurrent⟩ := c
  cases debug <;> cases noColor <;> cases output <;> cases directory <;> cases suffix <;>
    cases config <;> cases maxConcurrent <;> rfl

theorem foldl_give_perm {c : Choice} {gs : List Given} (h : gs.Perm c.given) :
    gs.foldl Arguments.give {} = c.arguments [] := by
  rw [← foldl_give_given]
  have hnames : (gs.map Given.name).Nodup := (h.map Given.name).nodup_iff.2 c.nodup_names
  refine h.foldl_eq' ?_ _
  intro g hg g' hg' a
  by_cases heq : g.name = g'.name
  · rw [List.inj_on_of_nodup_map hnames hg hg' heq]
  · exact Arguments.give_comm heq a

theorem sources_arguments (c : Choice) (files : List Text) :
    (c.arguments files).sources =
      files.map fun f => if f = "-".toList ∨ f = "/dev/stdin".toList then .stdin else .file f := by
  refine List.map_congr_left fun f _ => ?_
  simp only [Source.ofArgument, Bool.or_eq_true, decide_eq_true_eq]
  rfl

theorem target_arguments (c : Choice) (files : List Text) :
    (c.arguments files).target =
      match c.output, c.directory with
      | some path, _ => .combined (.ofBytes path.bytes)
      | none, some path => .directory (.ofBytes path.bytes) c.suffix
      | none, none => .stdout := by
  obtain ⟨debug, noColor, output, directory, suffix, config, maxConcurrent⟩ := c
  cases output <;> cases directory <;> rfl

end Choice

/--
A command line with each option of a choice once and the files among them, and perhaps more files
behind a divider, is read as just that choice and these files. From them the sources follow file by
file; the target is the output if there is one, else the directory, with the suffix, else standard
output.
-/
theorem read_arranged (c : Choice) {gs : List Given} (hgs : gs.Perm c.given) {files : List Text}
    {words : List Bytes} (hwords : Arranged gs files words) (more : List Text) :
    (Arguments.read words = .ok (c.arguments files) ∧
      Arguments.read (words ++ divider :: more.map Text.encode) =
        .ok (c.arguments (files ++ more))) ∧
    ∀ fs : List Text,
      (c.arguments fs).sources =
        fs.map (fun f => if f = "-".toList ∨ f = "/dev/stdin".toList then .stdin else .file f) ∧
      (c.arguments fs).target =
        (match c.output, c.directory with
          | some path, _ => .combined (.ofBytes path.bytes)
          | none, some path => .directory (.ofBytes path.bytes) c.suffix
          | none, none => .stdout) := by
  have hnames : (gs.map Given.name).Nodup := (hgs.map Given.name).nodup_iff.2 c.nodup_names
  have hnew : ∀ g ∈ gs, ¬ ({} : Arguments).Has g := by
    rintro (s | v) -
    · cases s <;> exact Bool.false_ne_true
    · cases v <;> exact Bool.false_ne_true
  have hempty : Reading.Holds {} {} := Or.inl ⟨rfl, rfl⟩
  obtain ⟨r, hrun, hopen, hr⟩ := hempty.foldlM_arranged hwords rfl hnew hnames
  rw [Choice.foldl_give_perm hgs] at hr
  refine ⟨⟨read_of_holds hrun hr, ?_⟩, fun fs => ⟨c.sources_arguments fs, c.target_arguments fs⟩⟩
  obtain ⟨r₁, hstep, hclosed, h₁⟩ := hr.step_divider hopen
  obtain ⟨r₂, hrest, h₂⟩ := h₁.foldlM_files hclosed more
  rw [Arguments.addFiles_addFiles] at h₂
  refine read_of_holds ?_ h₂
  rw [List.foldlM_append, hrun]
  change (do (divider :: more.map Text.encode).foldlM Reading.step r) = _
  rw [List.foldlM_cons, hstep]
  exact hrest

/-- Options of which the output looks like a switch and the suffix has equals signs in it. -/
def masquerade : Choice :=
  { debug := true
    output := some { bytes := Text.encode "--debug".toList, bytes_ne := by decide }
    suffix := some "=a=".toList
    maxConcurrent := some
      { written := "+007".toList
        value := 7
        spells := ⟨"007".toList, by decide, .inr rfl, List.all_eq_true.1 rfl, rfl⟩
        value_lt := by decide } }

theorem read_arranged_masquerade :
    masquerade.given.reverse.Perm masquerade.given ∧
    Arranged masquerade.given.reverse ["-".toList, "x".toList]
      (["-", "--max-concurrent=+007", "--suffix==a=", "x", "--output=--debug", "--debug"].map
        fun word => Text.encode word.toList) ∧
    Arguments.read
      (["-", "--max-concurrent=+007", "--suffix==a=", "x", "--output=--debug", "--debug",
        "--", "--config", "--"].map fun word => Text.encode word.toList) =
      .ok { files := ["-".toList, "x".toList, "--config".toList, "--".toList]
            debug := true
            output := some (Text.encode "--debug".toList)
            suffix := some "=a=".toList
            maxConcurrent := some 7 } ∧
    (masquerade.arguments ["x".toList]).target = .combined "--debug".toList := by
  have hperm := masquerade.given.reverse_perm
  have hwords : Arranged masquerade.given.reverse ["-".toList, "x".toList]
      (["-", "--max-concurrent=+007", "--suffix==a=", "x", "--output=--debug", "--debug"].map
        fun word => Text.encode word.toList) :=
    .file _ (.inl rfl) (.given _ (.given _ (.file _ (.inr (by decide)) (.given _ (.given _ .nil)))))
  obtain ⟨⟨-, hread⟩, htarget⟩ :=
    read_arranged masquerade hperm hwords ["--config".toList, "--".toList]
  refine ⟨hperm, hwords, hread, (htarget ["x".toList]).2.trans ?_⟩
  exact congrArg Output.Target.combined (Text.decodeLossy_encode "--debug".toList)

end Inlay.CommandLine
