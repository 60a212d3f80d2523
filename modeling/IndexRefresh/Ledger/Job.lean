import IndexRefresh.Calendar.Timestamp
import IndexRefresh.Duration
import IndexRefresh.Update.Report

namespace IndexRefresh

inductive JobStatus where
  | pending
  | running
  | completed
  | failed
  | timedOut
  deriving DecidableEq, Repr

namespace JobStatus

def all : List JobStatus :=
  [.pending, .running, .completed, .failed, .timedOut]

def name : JobStatus → String
  | .pending => "pending"
  | .running => "running"
  | .completed => "completed"
  | .failed => "failed"
  | .timedOut => "timed_out"

def isTerminal : JobStatus → Bool
  | .pending => false
  | .running => false
  | _ => true

end JobStatus

instance : JsonForm JobStatus where
  toJson s := Json.ofString s.name
  ofJson? := Json.choice? (JobStatus.all.map fun s => (s.name, s))

structure Moment where
  instant : Duration
  stamp : Timestamp
  deriving DecidableEq, Repr

structure Job where
  id : String
  repository : String
  status : JobStatus
  createdAt : Timestamp
  startedAt : Option Timestamp
  finishedAt : Option Timestamp
  result : Option Report
  error : Option String
  created : Duration
  deriving DecidableEq, Repr

namespace Job

def new (id repository : String) (m : Moment) : Job where
  id := id
  repository := repository
  status := .pending
  createdAt := m.stamp
  startedAt := none
  finishedAt := none
  result := none
  error := none
  created := m.instant

def age (j : Job) (now : Duration) : Duration :=
  now - j.created

def isOutstanding (j : Job) (repository : String) : Bool :=
  j.repository == repository && !j.status.isTerminal

def isExpired (j : Job) (now maxAge : Duration) : Bool :=
  j.status.isTerminal && maxAge < j.age now

end Job

structure JobView where
  jobId : String
  repository : String
  status : JobStatus
  createdAt : Timestamp
  startedAt : Option Timestamp
  finishedAt : Option Timestamp
  result : Option Report
  error : Option String
  deriving DecidableEq, Repr

def Job.view (j : Job) : JobView :=
  ⟨j.id, j.repository, j.status, j.createdAt, j.startedAt, j.finishedAt, j.result, j.error⟩

instance : JsonForm JobView where
  toJson j := Json.record
    ([("job_id", toJson j.jobId), ("repository", toJson j.repository),
      ("status", toJson j.status), ("created_at", toJson j.createdAt)] ++
      Json.whenSome "started_at" j.startedAt ++ Json.whenSome "finished_at" j.finishedAt ++
      Json.whenSome "result" j.result ++ Json.whenSome "error" j.error)
  ofJson? v := do
    let fields ← Json.fields? ["job_id", "repository", "status", "created_at", "started_at",
      "finished_at", "result", "error"] v
    return {
      jobId := ← Json.required fields "job_id"
      repository := ← Json.required fields "repository"
      status := ← Json.required fields "status"
      createdAt := ← Json.required fields "created_at"
      startedAt := ← Json.optional fields "started_at"
      finishedAt := ← Json.optional fields "finished_at"
      result := ← Json.optional fields "result"
      error := ← Json.optional fields "error" }

end IndexRefresh
