import Inlay.Shell.Field
import Inlay.Shell.State
import Inlay.Tool.Condition
import Inlay.Tool.Echo

namespace Inlay.Shell

def decimalBytes (n : Nat) : Bytes := Text.encode (toString n).toList

def processNumber : Nat := 1000

def separators (s : State) : Bytes := (s.lookup "IFS".toList).getD [32, 9, 10]

def parameterValue (s : State) : Text → Option Bytes
  | ['?'] => some (decimalBytes s.status)
  | ['$'] => some (decimalBytes processNumber)
  | ['#'] => some (decimalBytes s.arguments.length)
  | ['@'] => some (Tool.spaced s.arguments)
  | ['*'] => some ((s.arguments.intersperse ((separators s).take 1)).flatten)
  | ['-'] => some []
  | ['!'] => none
  | ['0'] => some (Text.encode s.name.toList)
  | name =>
    match Tool.decimal? (String.ofList name) with
    | some n => s.arguments[n - 1]?
    | none => s.lookup name

def valueItems (s : State) (whole : Bool) (value : Bytes) : List Item :=
  if whole then quotedItems value else splitItems (separators s) value

/-- The items of a word that stands in for a value: in quotes it is whole, else it is split. -/
def standInItems (s : State) (quoted whole : Bool) (items : List Item) : List Item :=
  if quoted then .mark :: items
  else if whole then items
  else items.flatMap fun
    | .byte b false => splitItems (separators s) [b]
    | i => [i]

def markedBytes (items : List Item) : Pattern.Marked :=
  items.filterMap fun
    | .byte b quoted => some (b, quoted)
    | _ => none

/-- The words of `"$@"`, each a field of its own. -/
def argumentItems (args : List Bytes) : List Item :=
  ((args.map quotedItems).intersperse [.cut]).flatten

def arithmeticValue (s : State) (name : Text) : Int :=
  ((s.lookup name).bind Tool.signed?).getD 0

/-- A word with the home directory in place of a tilde at its head. -/
def withHome (s : State) : Word → Word
  | .literal ('~' :: t) false :: rest =>
    if t = [] && rest.isEmpty || t.head? = some '/' then
      match s.lookup "HOME".toList with
      | some home => .literal (Text.decodeLossy home) true :: .literal t false :: rest
      | none => .literal ('~' :: t) false :: rest
    else .literal ('~' :: t) false :: rest
  | w => w

end Inlay.Shell
