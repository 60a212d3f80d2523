import IndexRefresh.Settings.Tree

namespace IndexRefresh.Toml

inductive Origin where
  | header
  | implied
  | dotted
  deriving DecidableEq, Repr

/-- A value, a table that may still grow, or a list of tables of which the last may grow. -/
inductive Node where
  | value (v : Setting)
  | table (origin : Origin) (entries : List (String × Node))
  | tables (earlier : List (List (String × Node))) (last : List (String × Node))

namespace Node

mutual

def toSetting : Node → Setting
  | .value v => v
  | .table _ es => .branch (toEntries es)
  | .tables earlier last => .list (toBranches earlier ++ [.branch (toEntries last)])

def toEntries : Entries Node → Entries Setting
  | [] => []
  | (k, n) :: es => (k, n.toSetting) :: toEntries es

def toBranches : List (List (String × Node)) → List Setting
  | [] => []
  | es :: rest => .branch (toEntries es) :: toBranches rest

end

/-- Changes the table at the end of a path, which the change knows with its origin. Missing tables
are made on the way. A dotted key may not enter a table that has a header. -/
def descend (byDots : Bool) (change : Origin → Entries Node → Option (Entries Node)) :
    List String → Origin → Entries Node → Option (Entries Node)
  | [], origin, es => change origin es
  | k :: path, _, es =>
      match es.lookup k with
      | none =>
          let origin := if byDots then Origin.dotted else .implied
          (descend byDots change path origin []).map fun sub => Entries.put k (.table origin sub) es
      | some (.table origin sub) =>
          if byDots && origin == .header then none
          else (descend byDots change path origin sub).map fun sub =>
            Entries.put k (.table origin sub) es
      | some (.tables earlier last) =>
          (descend byDots change path .header last).map fun last =>
            Entries.put k (.tables earlier last) es
      | some (.value _) => none

def addKey (dots : Bool) (key : String) (v : Setting) (origin : Origin) (es : Entries Node) :
    Option (Entries Node) :=
  if (origin == .dotted) != dots || (es.lookup key).isSome then none
  else some (Entries.put key (.value v) es)

def assign (current path : List String) (v : Setting) (root : Entries Node) :
    Option (Entries Node) := do
  let key ← path.getLast?
  let above := path.dropLast
  descend false (descend true (addKey (!above.isEmpty) key v) above) current .header root

def openTable (path : List String) (root : Entries Node) : Option (Entries Node) := do
  let key ← path.getLast?
  let start (_ : Origin) (es : Entries Node) : Option (Entries Node) :=
    match es.lookup key with
    | none => some (Entries.put key (.table .header []) es)
    | some (.table .implied sub) => some (Entries.put key (.table .header sub) es)
    | _ => none
  descend false start path.dropLast .header root

def openItem (path : List String) (root : Entries Node) : Option (Entries Node) := do
  let key ← path.getLast?
  let start (_ : Origin) (es : Entries Node) : Option (Entries Node) :=
    match es.lookup key with
    | none => some (Entries.put key (.tables [] []) es)
    | some (.tables earlier last) =>
        some (Entries.put key (.tables (earlier ++ [last]) []) es)
    | _ => none
  descend false start path.dropLast .header root

end Node

end IndexRefresh.Toml
