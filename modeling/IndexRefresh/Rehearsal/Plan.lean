import IndexRefresh.Duration
import IndexRefresh.Store.Memory
import IndexRefresh.Update.Stage

namespace IndexRefresh.Rehearsal

structure Script (α : Type) where
  delay : Duration
  cancels : Bool
  crash : Option String
  fault : Option Fault
  success : α

def Script.smooth {α : Type} (a : α) : Script α :=
  ⟨0, false, none, none, a⟩

def Script.course {α : Type} (s : Script α) : Script Unit :=
  { s with success := () }

structure Listing where
  files : List ChangedFile
  totalCommits : UInt32
  truncated : Bool

structure Plan where
  load : Script Unit
  head : Script HeadCommit
  compare : Script Listing
  pull : Script Unit
  process : Script PipelineOutput
  save : Script Unit

namespace Plan

def smooth : Plan where
  load := .smooth ()
  head := .smooth ⟨"", ""⟩
  compare := .smooth ⟨[], 1, false⟩
  pull := .smooth ()
  process := .smooth ⟨.zero, []⟩
  save := .smooth ()

def course (p : Plan) : Stage → Script Unit
  | .loading => p.load.course
  | .resolving _ => p.head.course
  | .comparing _ _ => p.compare.course
  | .pulling _ _ _ => p.pull.course
  | .processing _ _ _ => p.process.course
  | .saving _ _ _ _ => p.save.course

def success (p : Plan) (store : MemoryStore) (repository : String) : (s : Stage) → s.Reply
  | .loading => .ok (store.get? repository)
  | .resolving _ => .ok p.head.success
  | .comparing o head =>
      let listing := p.compare.success
      .ok ⟨o.base, head.sha, listing.totalCommits, listing.files, listing.truncated⟩
  | .pulling _ _ _ => .ok ()
  | .processing _ _ _ => .ok p.process.success
  | .saving _ _ _ _ => .ok ()

def storeAfter (store : MemoryStore) : Stage → MemoryStore
  | .saving _ _ _ updated => MemoryStore.put store updated
  | _ => store

end Plan

end IndexRefresh.Rehearsal
