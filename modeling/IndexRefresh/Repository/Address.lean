import IndexRefresh.Text.Blank
import IndexRefresh.Text.Cut

namespace IndexRefresh

structure Address where
  owner : String
  repo : String
  deriving DecidableEq, Repr

namespace Address

def text (a : Address) : String :=
  a.owner ++ "/" ++ a.repo

def path? (url : List Char) : Option (List Char) :=
  match Text.cut [':', '/', '/'] url with
  | some (_, rest) => (Text.cutAt '/' rest).map Prod.snd
  | none =>
      match Text.cutAt ':' url with
      | some (host, path) => if host.contains '@' || host.contains '.' then some path else none
      | none => none

def ofPath? (path : List Char) : Option Address :=
  match (Text.split '/' path).filter (fun segment => !segment.isEmpty) with
  | owner :: repo :: _ =>
      let repo := Text.withoutEnd ['.', 'g', 'i', 't'] repo
      if repo.isEmpty then none else some ⟨String.ofList owner, String.ofList repo⟩
  | _ => none

def ofUrl? (url : String) : Option Address :=
  (path? (Text.trim url.toList)).bind ofPath?

end Address

end IndexRefresh
