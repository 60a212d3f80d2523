import IndexRefresh.Settings.Tree
import IndexRefresh.Text.Cut

namespace IndexRefresh

inductive Step where
  | child (key : String)
  | item (index : Int)
  deriving DecidableEq, Repr

structure Place where
  key : String
  steps : List Step
  deriving DecidableEq, Repr

namespace Step

def isKeyChar (c : Char) : Bool :=
  c.isAlphanum || c == ' ' || c == '_' || c == '-'

def isGap (c : Char) : Bool :=
  c == ' ' || c == '\t'

def index? (cs : List Char) : Option Int :=
  if cs.head? = some '+' then none else Text.signed? cs

theorem length_dropWhile_le {α : Type} (p : α → Bool) (cs : List α) :
    (cs.dropWhile p).length ≤ cs.length :=
  (List.dropWhile_suffix p).length_le

def ofText? (cs : List Char) : Option (List Step) :=
  match cs with
  | [] => some []
  | '.' :: rest =>
      let key := rest.takeWhile isKeyChar
      if key.isEmpty then none
      else (ofText? (rest.dropWhile isKeyChar)).map (.child (String.ofList key) :: ·)
  | '[' :: rest =>
      let after := rest.dropWhile (· != ']')
      if after.isEmpty then none
      else do
        let i ← index? (Text.strip isGap (rest.takeWhile (· != ']')))
        let steps ← ofText? (after.drop 1)
        return .item i :: steps
  | _ => none
termination_by cs.length
decreasing_by
  · exact Nat.lt_succ_of_le (length_dropWhile_le _ _)
  · have h := length_dropWhile_le (· != ']') rest
    simp only [List.length_drop, List.length_cons]
    omega

end Step

namespace Place

def ofText? (cs : List Char) : Option Place :=
  let key := cs.takeWhile Step.isKeyChar
  if key.isEmpty then none
  else (Step.ofText? (cs.dropWhile Step.isKeyChar)).map (⟨String.ofList key, ·⟩)

def ofText (s : String) : Place :=
  (ofText? s.toList).getD ⟨s, []⟩

end Place

namespace Setting

def position? (index : Int) (size : Nat) : Option Nat :=
  if 0 ≤ index then some index.toNat
  else if (-index).toNat ≤ size then some (size - (-index).toNat)
  else none

/-- Puts a value below another one. Branches and lists are made where they are missing, and lists
are filled up with nulls; an item of a list is replaced as a whole. -/
def assign (value : Setting) : List Step → Option Setting → Setting
  | [], old => overlay old value
  | .child k :: steps, old =>
      let es := (old.getD .null).entries
      .branch (Entries.put k (assign value steps (es.lookup k)) es)
  | .item i :: steps, old =>
      let vs := (old.getD .null).items
      match position? i vs.length with
      | none => .list vs
      | some n =>
          let vs := vs ++ List.replicate (n + 1 - vs.length) .null
          .list (vs.set n (if steps.isEmpty then value else assign value steps vs[n]?))

end Setting

abbrev Layer := List (Place × Setting)

namespace Layer

def apply (root : Setting) (layer : Layer) : Setting :=
  layer.foldl (fun root e => Setting.assign e.2 (.child e.1.key :: e.1.steps) root) root

def effective (layers : List Layer) : Setting :=
  layers.foldl apply (.branch [])

end Layer

end IndexRefresh
