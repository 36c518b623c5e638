import Inlay.Output.Target

namespace Inlay.CommandLine

inductive Parameter where
  | output
  | directory
  | suffix
  | config
  | maxConcurrent
  deriving DecidableEq, Repr

inductive Switch where
  | debug
  | noColor
  deriving DecidableEq, Repr

inductive Inquiry where
  | help
  | version
  deriving DecidableEq, Repr

inductive Name where
  | parameter (p : Parameter)
  | switch (s : Switch)
  | inquiry (i : Inquiry)
  deriving DecidableEq, Repr

def Parameter.long : Parameter → String
  | output => "output"
  | directory => "directory"
  | suffix => "suffix"
  | config => "config"
  | maxConcurrent => "max-concurrent"

/-- The word that stands for the value where the option is shown. -/
def Parameter.placeholder : Parameter → String
  | output => "OUTPUT"
  | directory => "DIRECTORY"
  | suffix => "SUFFIX"
  | config => "CONFIG"
  | maxConcurrent => "MAX_CONCURRENT"

def Switch.long : Switch → String
  | debug => "debug"
  | noColor => "no-color"

def Inquiry.long : Inquiry → String
  | help => "help"
  | version => "version"

namespace Name

def long : Name → String
  | parameter p => p.long
  | switch s => s.long
  | inquiry i => i.long

def letter? : Name → Option Char
  | parameter .output => some 'o'
  | parameter .directory => some 'd'
  | parameter .suffix => some 's'
  | parameter .config => some 'c'
  | inquiry .help => some 'h'
  | inquiry .version => some 'V'
  | _ => none

def all : List Name :=
  [parameter .output, parameter .directory, parameter .suffix, parameter .config,
    parameter .maxConcurrent, switch .debug, switch .noColor, inquiry .help, inquiry .version]

/-- The option with a long name, which has to be spelt out. -/
def ofLong? (t : Text) : Option Name := all.find? fun n => n.long.toList = t

def ofLetter? (c : Char) : Option Name := all.find? fun n => n.letter? = some c

/-- The option as it is shown, with what stands for its value. -/
def shown : Name → Text
  | parameter p => s!"--{p.long} <{p.placeholder}>".toList
  | n => s!"--{n.long}".toList

end Name

/-- What is asked for. The path of an option may be any bytes. -/
structure Arguments where
  files : List Text := []
  debug : Bool := false
  noColor : Bool := false
  output : Option Bytes := none
  directory : Option Bytes := none
  suffix : Option Text := none
  config : Option Bytes := none
  maxConcurrent : Option Nat := none
  deriving DecidableEq, Repr

namespace Arguments

def sources (a : Arguments) : List Source := a.files.map Source.ofArgument

def target (a : Arguments) : Output.Target :=
  .ofOptions (a.output.map Path.ofBytes) (a.directory.map Path.ofBytes) a.suffix

end Arguments
end Inlay.CommandLine
