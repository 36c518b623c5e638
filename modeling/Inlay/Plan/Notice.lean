import Inlay.Log
import Inlay.Plan.Basic
import Inlay.Plan.Host
import Inlay.Text.Quoted

namespace Inlay

namespace Notice

/-- A line about the markers of a document begins with the document's name. -/
def about (source : Source) (words : Text) : Text := source.display ++ ": ".toList ++ words

def message : Notice → Text
  | reading source => "reading ".toList ++ source.display ++ "...".toList
  | templating source => "templating ".toList ++ source.display ++ "...".toList
  | stray source kind snippet =>
    about source (s!"unterminated {kind.label} marker left as text: ".toList ++
      Text.Quoted.encode snippet)
  | resolvingName source name =>
    about source ("evaluating ".toList ++ name ++ " for replacement...".toList)
  | resolvingFile source path =>
    about source ("reading ".toList ++ path ++ " for replacement...".toList)
  | resolvingCommand source command =>
    about source ("executing ".toList ++ command ++ " for replacement...".toList)

end Notice

def Event.line? : Event → Option Log.Line
  | noted _ notice => some ⟨.debug, notice.message⟩
  | said line => some line
  | _ => none

def Run.log {σ : Type} (r : Run σ) : List Log.Line := r.journal.filterMap (·.event.line?)

end Inlay
