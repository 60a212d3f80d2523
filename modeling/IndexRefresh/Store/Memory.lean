import IndexRefresh.Repository.Snapshot
import IndexRefresh.Table

namespace IndexRefresh

abbrev MemoryStore := Table Snapshot

namespace MemoryStore

def put (s : MemoryStore) (snapshot : Snapshot) : MemoryStore :=
  s.insert snapshot.name snapshot

def ofSnapshots (snapshots : List Snapshot) : MemoryStore :=
  snapshots.foldl put Table.empty

end MemoryStore

end IndexRefresh
