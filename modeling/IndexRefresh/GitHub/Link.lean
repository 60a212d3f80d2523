import IndexRefresh.Text.Blank
import IndexRefresh.Text.Cut

namespace IndexRefresh.GitHub

def isNextParameter (parameter : List Char) : Bool :=
  ["rel=\"next\"", "rel=next"].contains (String.ofList (Text.trim parameter))

def bracketed? (cs : List Char) : Option (List Char) :=
  match cs with
  | '<' :: rest => Text.withoutEnd? ['>'] rest
  | _ => none

def nextTarget? (entry : List Char) : Option (List Char) :=
  match Text.split ';' entry with
  | [] => none
  | target :: parameters =>
      if parameters.any isNextParameter then bracketed? (Text.trim target) else none

def nextPage? (links : String) : Option String :=
  ((Text.split ',' links.toList).findSome? nextTarget?).map String.ofList

end IndexRefresh.GitHub
