import IndexRefresh.Toml.Node
import IndexRefresh.Toml.Scalar

namespace IndexRefresh.Toml

def items? (read : Reader Setting) (cs : List Char) : Option (List Setting × List Char) :=
  match skipComments cs with
  | ']' :: rest => some ([], rest)
  | start =>
      match read start with
      | none => none
      | some (v, rest) =>
          match skipComments rest with
          | ']' :: rest => some ([v], rest)
          | ',' :: rest =>
              if rest.length < cs.length then (items? read rest).map fun r => (v :: r.1, r.2)
              else none
          | _ => none
termination_by cs.length

def pairs? (read : Reader Setting) (cs : List Char) :
    Option (List (List String × Setting) × List Char) :=
  match path? cs with
  | some (path, '=' :: start) =>
      match read (skipGap start) with
      | none => none
      | some (v, rest) =>
          match skipGap rest with
          | '\x7d' :: rest => some ([(path, v)], rest)
          | ',' :: rest =>
              if rest.length < cs.length then
                (pairs? read rest).map fun r => ((path, v) :: r.1, r.2)
              else none
          | _ => none
  | _ => none
termination_by cs.length

def inline? (read : Reader Setting) : Reader Setting := fun cs =>
  match skipGap cs with
  | '\x7d' :: rest => some (.branch [], rest)
  | start => do
      let (pairs, rest) ← pairs? read start
      let es ← pairs.foldlM (fun es p => Node.assign [] p.1 p.2 es) []
      return (.branch (Node.toEntries es), rest)

def value? : Nat → Reader Setting
  | 0, cs => scalar? cs
  | _ + 1, [] => none
  | depth + 1, c :: rest =>
      if c = '[' then (items? (value? depth) rest).map fun r => (.list r.1, r.2)
      else if c = '\x7b' then inline? (value? depth) rest
      else scalar? (c :: rest)

inductive Statement where
  | assign (path : List String) (v : Setting)
  | table (path : List String)
  | item (path : List String)

namespace Statement

def read? : Reader Statement
  | '[' :: '[' :: start =>
      match path? start with
      | some (path, ']' :: ']' :: rest) => (endOfLine? rest).map fun rest => (.item path, rest)
      | _ => none
  | '[' :: start =>
      match path? start with
      | some (path, ']' :: rest) => (endOfLine? rest).map fun rest => (.table path, rest)
      | _ => none
  | start =>
      match path? start with
      | some (path, '=' :: start) => do
          let (v, rest) ← value? (depthLimit - 1) (skipGap start)
          let rest ← endOfLine? rest
          return (.assign path v, rest)
      | _ => none

def all? (cs : List Char) : Option (List Statement) :=
  match skipComments cs with
  | [] => some []
  | start =>
      match read? start with
      | none => none
      | some (s, rest) =>
          if rest.length < cs.length then (all? rest).map (s :: ·) else none
termination_by cs.length

end Statement

structure Draft where
  root : Entries Node
  current : List String

namespace Draft

def step (d : Draft) : Statement → Option Draft
  | .assign path v => (Node.assign d.current path v d.root).map fun root => { d with root := root }
  | .table path => (Node.openTable path d.root).map fun root => ⟨root, path⟩
  | .item path => (Node.openItem path d.root).map fun root => ⟨root, path⟩

end Draft

def ofText? (cs : List Char) : Option (Entries Setting) := do
  let cs := if cs.head? = some '\uFEFF' then cs.drop 1 else cs
  let statements ← Statement.all? cs
  let draft ← statements.foldlM Draft.step ⟨[], []⟩
  return Node.toEntries draft.root

end IndexRefresh.Toml
