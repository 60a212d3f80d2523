import IndexRefresh.Update.Stage

namespace IndexRefresh

structure Collaborators (m : Type → Type) where
  load : String → ExceptT Fault m (Option Snapshot)
  head : String → String → String → ExceptT Fault m HeadCommit
  compare : String → String → String → String → ExceptT Fault m Comparison
  pull : String → String → ExceptT Fault m Unit
  process : PipelineOptions → List ChangedFile → ExceptT Fault m PipelineOutput
  save : Snapshot → ExceptT Fault m Unit

namespace Collaborators

variable {m : Type → Type}

def reply (c : Collaborators m) (repository : String) : (s : Stage) → m s.Reply
  | .loading => (c.load repository).run
  | .resolving o => (c.head o.address.owner o.address.repo o.snapshot.branch).run
  | .comparing o head => (c.compare o.address.owner o.address.repo o.base head.sha).run
  | .pulling o _ _ => (c.pull o.snapshot.localPath o.snapshot.branch).run
  | .processing o head changes =>
      (c.process ⟨repository, o.snapshot.localPath, o.base, head.sha⟩ changes.files).run
  | .saving _ _ _ updated => (c.save updated).run

end Collaborators

end IndexRefresh
