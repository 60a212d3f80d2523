import IndexRefresh.Json.Printer
import IndexRefresh.Repository.Change
import IndexRefresh.Repository.Snapshot
import IndexRefresh.Text.Numeral

namespace IndexRefresh.CommandLine

def padEnd (width : Nat) (cs : List Char) : List Char :=
  cs ++ List.replicate (width - cs.length) ' '

def padStart (width : Nat) (cs : List Char) : List Char :=
  List.replicate (width - cs.length) ' ' ++ cs

def commitColumn (s : Snapshot) : String :=
  match s.indexedSha with
  | some sha => shortSha sha
  | none => "-"

def line (s : Snapshot) : String :=
  let columns : List (List Char) :=
    [padEnd 24 s.name.toList, padEnd 10 s.status.name.toList, padEnd 8 (commitColumn s).toList,
     padStart 6 (Text.digits s.fileCount.toNat) ++ " files".toList,
     padStart 8 (Text.digits s.chunkCount.toNat) ++ " chunks ".toList, s.branch.toList]
  String.ofList ((columns.intersperse [' ']).flatten)

def listing (path : String) (snapshots : List Snapshot) : List String :=
  if snapshots.isEmpty then [s!"No repositories in {path}"] else snapshots.map line

end IndexRefresh.CommandLine
