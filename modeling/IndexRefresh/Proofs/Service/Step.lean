import IndexRefresh.Service

namespace IndexRefresh

inductive Work where
  | begin
  | answer (stage : Stage)
  | interrupt
  | crash (stage : Stage)
  | drop
  deriving DecidableEq, Repr

inductive Deed where
  | decline (repository : String)
  | accept (repository : String) (run : Nat)
  | enter (repository job : String)
  | launch (job : String) (run : Nat)
  | work (run : Nat) (work : Work)
  | expire (run : Nat)
  | settle (run : Nat) (answer : Option SyncAnswer)
  | abandon (run : Nat)
  | sweep

namespace Deed

def entered? : Deed → Option String
  | .enter _ job => some job
  | _ => none

def launched? : Deed → Option String
  | .launch job _ => some job
  | _ => none

def started? : Deed → Option Nat
  | .accept _ run => some run
  | .launch _ run => some run
  | _ => none

end Deed

namespace Service

/-- One step of a service, at whatever time. The clock may show any time at every step, so that
its advances need no step of their own. -/
inductive Step (s : Service) : Deed → Service → Prop where
  | accept {m : Moment} {repository : String} {t : Service} {i : Nat}
      (h : (s.triggerSync m repository).value = (t, .admitted i)) :
      Step s (.accept repository i) t
  | declineSync {m : Moment} {repository : String} {t : Service} {a : Admission Nat}
      (h : (s.triggerSync m repository).value = (t, a)) (ha : ∀ i, a ≠ .admitted i) :
      Step s (.decline repository) t
  | enter {m : Moment} {draws : List String} {repository : String}
      {x : Traced (Service × Admission JobAnswer)} {t : Service} {a : JobAnswer}
      (hnone : s.ledger.outstanding? repository = none)
      (h : s.triggerAsync? m draws repository = some x) (hx : x.value = (t, .admitted a)) :
      Step s (.enter repository a.jobId) t
  | declineAsync {m : Moment} {draws : List String} {repository : String}
      {x : Traced (Service × Admission JobAnswer)} {t : Service} {a : Admission JobAnswer}
      (h : s.triggerAsync? m draws repository = some x) (hx : x.value = (t, a))
      (ha : (s.ledger.outstanding? repository).isSome ∨ ∀ b, a ≠ .admitted b) :
      Step s (.decline repository) t
  | launch {m : Moment} {job : String} {x : Traced (Service × Nat)}
      (h : s.launch? m job = some x) :
      Step s (.launch job x.value.2) x.value.1
  | begin {i : Nat} {t : Service} (h : s.beginRun? i = some t) :
      Step s (.work i .begin) t
  | answer {m : Moment} {listener : Listener} {elapsedMs : UInt64} {i : Nat}
      {reply : (st : Stage) → st.Reply} {x : Traced Service} {stage : Stage}
      (hstage : s.runs[i]?.bind Run.stage? = some stage)
      (h : s.answerRun? m listener elapsedMs i reply = some x) :
      Step s (.work i (.answer stage)) x.value
  | interrupt {m : Moment} {i : Nat} {x : Traced Service}
      (h : s.interruptRun? m i = some x) : Step s (.work i .interrupt) x.value
  | crash {m : Moment} {i : Nat} {detail : String} {x : Traced Service} {stage : Stage}
      (hstage : s.runs[i]?.bind Run.stage? = some stage)
      (h : s.crashRun? m i detail = some x) : Step s (.work i (.crash stage)) x.value
  | drop {m : Moment} {i : Nat} {x : Traced Service} (h : s.dropRun? m i = some x) :
      Step s (.work i .drop) x.value
  | expire {m : Moment} {i : Nat} {x : Traced Service} (h : s.expire? m i = some x) :
      Step s (.expire i) x.value
  | settle {m : Moment} {i : Nat} {x : Traced (Service × Option SyncAnswer)}
      (h : s.settle? m i = some x) : Step s (.settle i x.value.2) x.value.1
  | abandon {i : Nat} : Step s (.abandon i) (s.abandon i)
  | sweep {now : Duration} : Step s .sweep (s.sweep now).value.1

inductive Reached (limits : Limits) (threshold : UInt64) : List Deed → Service → Prop where
  | new : Reached limits threshold [] (.new limits threshold)
  | step {history : List Deed} {s t : Service} {d : Deed}
      (h : Reached limits threshold history s) (hs : Step s d t) :
      Reached limits threshold (history ++ [d]) t

end Service

end IndexRefresh
