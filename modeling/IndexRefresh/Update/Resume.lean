import IndexRefresh.Event
import IndexRefresh.Update.Stage

namespace IndexRefresh

inductive Ending where
  | reported (r : Report)
  | failed (f : Failure)
  | crashed (detail : String)
  deriving DecidableEq, Repr

inductive Progress where
  | waits (s : Stage)
  | ended (e : Ending)
  deriving DecidableEq, Repr

structure UpdateTask where
  repository : String
  threshold : UInt64
  listener : Listener

structure Surroundings where
  cancelled : Bool
  stamp : Timestamp
  elapsedMs : UInt64
  deriving DecidableEq, Repr

namespace UpdateTask

def event (t : UpdateTask) (level : Level) (message : String) (fields : List (String × FieldValue)) :
    Event :=
  ⟨level, .coordinator, message, ("repository", .text t.repository) :: fields⟩

def failed (f : Failure) : Traced Progress :=
  .quiet (.ended (.failed f))

def enterRemote (t : UpdateTask) (w : Surroundings) (s : Stage) : Traced Progress :=
  if w.cancelled then
    ⟨.ended (.failed .cancelled),
     [t.event .debug "Update cancelled while waiting on diff source" []]⟩
  else .quiet (.waits s)

def enterLocal (t : UpdateTask) (w : Surroundings) (s : Stage) : Traced Progress :=
  if w.cancelled then
    ⟨.ended (.failed .cancelled), [t.event .debug "Update cancelled before next step" []]⟩
  else .quiet (.waits s)

def afterLoad (t : UpdateTask) (w : Surroundings) : Except Fault (Option Snapshot) → Traced Progress
  | .error f => failed (.metadata f)
  | .ok none => failed .repositoryNotFound
  | .ok (some s) =>
      match s.baseSha? with
      | none => failed .missingCommitSha
      | some base =>
          match Address.ofUrl? s.url with
          | none => failed (.invalidSourceUrl s.url)
          | some address => t.enterRemote w (.resolving ⟨s, base, address⟩)

def afterHead (t : UpdateTask) (w : Surroundings) (o : Origin) : Except Fault HeadCommit → Traced Progress
  | .error f => failed (.headLookup o.snapshot.branch f)
  | .ok head =>
      if head.sha = o.base then
        ⟨.ended (.reported (.noChanges t.repository head.sha head.message)),
         [t.event .info "Already up to date" [("commit", .text head.shortSha)]]⟩
      else t.enterRemote w (.comparing o head)

def fetched (t : UpdateTask) (o : Origin) (head : HeadCommit) (c : Comparison) : Event :=
  t.event .debug "Comparison fetched"
    [("base", .text (shortSha o.base)), ("head", .text head.shortSha),
     ("commits", .number c.totalCommits.toNat), ("added", .number (c.count .added)),
     ("modified", .number (c.count .modified)), ("deleted", .number (c.count .deleted)),
     ("renamed", .number (c.count .renamed))]

def afterCompare (t : UpdateTask) (w : Surroundings) (o : Origin) (head : HeadCommit) :
    Except Fault Comparison → Traced Progress
  | .error f =>
      if f.isNotFound then
        ⟨.ended (.failed (.forcePush o.base head.sha)),
         [t.event .warn "Indexed commit missing from remote history"
          [("last_indexed", .text (shortSha o.base)), ("head", .text head.shortSha)]]⟩
      else failed (.comparison f)
  | .ok c =>
      let listed := c.files.length
      if t.threshold.toNat < listed then
        ⟨.ended (.failed (.tooManyChanges listed t.threshold.toNat)),
         [t.event .warn "Too many changes for an incremental update"
          [("changed_files", .number listed), ("threshold", .number t.threshold.toNat)]]⟩
      else if c.truncated then
        ⟨.ended (.failed (.truncated listed)),
         [t.event .warn "Diff source returned an incomplete file list"
          [("listed_files", .number listed)]]⟩
      else (t.enterLocal w (.pulling o head c)).after [t.fetched o head c]

def afterPull (t : UpdateTask) (w : Surroundings) (o : Origin) (head : HeadCommit) (c : Comparison) :
    Except Fault Unit → Traced Progress
  | .error f => failed (.gitPull f)
  | .ok () => t.enterLocal w (.processing o head c)

def applied? (s : Snapshot) (headSha : String) (output : PipelineOutput) (stamp : Timestamp) :
    Option Snapshot := do
  let updates ← addCounter? s.updateCount 1
  let files ← addCounter? s.fileCount output.stats.filesAdded
  let chunks ← addCounter? s.chunkCount output.stats.chunksUpserted
  return { s with
    indexedSha := some headSha
    updateCount := updates
    updatedAt := some stamp
    fileCount := cutSub files output.stats.filesDeleted
    chunkCount := cutSub chunks output.stats.chunksDeleted
    status := if output.errors.isEmpty then .ready else .error }

def afterProcess (w : Surroundings) (o : Origin) (head : HeadCommit) :
    Except Fault PipelineOutput → Traced Progress
  | .error f => failed (.pipeline f)
  | .ok output =>
      match applied? o.snapshot head.sha output w.stamp with
      | none => .quiet (.ended (.crashed overflowText))
      | some updated => .quiet (.waits (.saving o head output updated))

def report (t : UpdateTask) (w : Surroundings) (head : HeadCommit) (output : PipelineOutput) : Report where
  repository := t.repository
  outcome := if output.errors.isEmpty then .updated else .failed
  commitSha := head.sha
  commitMessage := head.message
  stats := output.stats
  errors := output.errors
  durationMs := w.elapsedMs

def completed (t : UpdateTask) (w : Surroundings) (head : HeadCommit) (output : PipelineOutput)
    (files : UInt64) : Event :=
  if output.errors.isEmpty then
    t.event .info "Incremental update complete"
      [("commit", .text head.shortSha), ("files", .number files.toNat),
       ("chunks_upserted", .number output.stats.chunksUpserted.toNat),
       ("chunks_deleted", .number output.stats.chunksDeleted.toNat),
       ("duration_ms", .number w.elapsedMs.toNat)]
  else
    t.event .warn "Incremental update completed with file errors"
      [("commit", .text head.shortSha), ("files", .number files.toNat),
       ("file_errors", .number output.errors.length),
       ("duration_ms", .number w.elapsedMs.toNat)]

/-- The files are counted only for somebody who listens to the event that ends the update. -/
def afterSave (t : UpdateTask) (w : Surroundings) (head : HeadCommit) (output : PipelineOutput) :
    Except Fault Unit → Traced Progress
  | .error f => failed (.metadata f)
  | .ok () =>
      let ended := Progress.ended (.reported (t.report w head output))
      if t.listener (if output.errors.isEmpty then .info else .warn) .coordinator then
        match output.stats.filesProcessed? with
        | none => .quiet (.ended (.crashed overflowText))
        | some files => ⟨ended, [t.completed w head output files]⟩
      else .quiet ended

def resume (t : UpdateTask) (w : Surroundings) : (s : Stage) → s.Reply → Traced Progress
  | .loading, reply => t.afterLoad w reply
  | .resolving o, reply => t.afterHead w o reply
  | .comparing o head, reply => t.afterCompare w o head reply
  | .pulling o head changes, reply => t.afterPull w o head changes reply
  | .processing o head _, reply => afterProcess w o head reply
  | .saving _ head output _, reply => t.afterSave w head output reply

def interrupted (t : UpdateTask) : Traced Progress :=
  ⟨.ended (.failed .cancelled),
   [t.event .debug "Update cancelled while waiting on diff source" []]⟩

end UpdateTask

end IndexRefresh
