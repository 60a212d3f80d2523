import IndexRefresh.Repository.Address
import IndexRefresh.Repository.Snapshot
import IndexRefresh.Update.Failure
import IndexRefresh.Update.Report

namespace IndexRefresh

/-- What a run has settled before it asks for changes: the snapshot it works on, the commit that is
indexed and where the repository is hosted. -/
structure Origin where
  snapshot : Snapshot
  base : String
  address : Address
  deriving DecidableEq, Repr

inductive Stage where
  | loading
  | resolving (o : Origin)
  | comparing (o : Origin) (head : HeadCommit)
  | pulling (o : Origin) (head : HeadCommit) (changes : Comparison)
  | processing (o : Origin) (head : HeadCommit) (changes : Comparison)
  | saving (o : Origin) (head : HeadCommit) (output : PipelineOutput) (updated : Snapshot)
  deriving DecidableEq, Repr

inductive Call where
  | load (name : String)
  | head (owner repo branch : String)
  | compare (owner repo base head : String)
  | pull (path branch : String)
  | process (options : PipelineOptions) (files : List ChangedFile)
  | save (snapshot : Snapshot)
  deriving DecidableEq, Repr

namespace Stage

def call (repository : String) : Stage → Call
  | .loading => .load repository
  | .resolving o => .head o.address.owner o.address.repo o.snapshot.branch
  | .comparing o head => .compare o.address.owner o.address.repo o.base head.sha
  | .pulling o _ _ => .pull o.snapshot.localPath o.snapshot.branch
  | .processing o head changes =>
      .process ⟨repository, o.snapshot.localPath, o.base, head.sha⟩ changes.files
  | .saving _ _ _ updated => .save updated

def Reply : Stage → Type
  | .loading => Except Fault (Option Snapshot)
  | .resolving _ => Except Fault HeadCommit
  | .comparing _ _ => Except Fault Comparison
  | .pulling _ _ _ => Except Fault Unit
  | .processing _ _ _ => Except Fault PipelineOutput
  | .saving _ _ _ _ => Except Fault Unit

def failed (f : Fault) : (s : Stage) → s.Reply
  | .loading => .error f
  | .resolving _ => .error f
  | .comparing _ _ => .error f
  | .pulling _ _ _ => .error f
  | .processing _ _ _ => .error f
  | .saving _ _ _ _ => .error f

/-- The reply to one stage; every other one is told that its collaborator failed. -/
def replyTo (s : Stage) (reply : s.Reply) : (t : Stage) → t.Reply := fun t =>
  if h : s = t then h ▸ reply else t.failed (.other "the run waits for another call")

theorem replyTo_self (s : Stage) (reply : s.Reply) : s.replyTo reply s = reply := by
  simp [replyTo]

def isInterruptible : Stage → Bool
  | .resolving _ => true
  | .comparing _ _ => true
  | _ => false

def rank : Stage → Nat
  | .loading => 0
  | .resolving _ => 1
  | .comparing _ _ => 2
  | .pulling _ _ _ => 3
  | .processing _ _ _ => 4
  | .saving _ _ _ _ => 5

end Stage

end IndexRefresh
