import IndexRefresh.CommandLine.Program
import IndexRefresh.Proofs.CommandLine.Vigil
import IndexRefresh.Proofs.Service.Jobs

namespace IndexRefresh.CommandLine

section Yields

variable {ω α β : Type} {x : StateM ω α} {f : α → StateM ω β} {P : α → Prop} {Q : β → Prop}

def Yields (x : StateM ω α) (P : α → Prop) : Prop :=
  ∀ w, P (x.run w).1

theorem Yields.bind (hx : Yields x P) (hf : ∀ a, P a → Yields (f a) Q) : Yields (x >>= f) Q :=
  fun w => hf _ (hx w) (x.run w).2

theorem yields_bind (hf : ∀ a, Yields (f a) Q) : Yields (x >>= f) Q :=
  fun w => hf (x.run w).1 (x.run w).2

theorem yields_pure {a : α} (h : P a) : Yields (pure a : StateM ω α) P :=
  fun _ => h

theorem run_bind (x : StateM ω α) (f : α → StateM ω β) (w : ω) :
    (x >>= f).run w = (f (x.run w).1).run (x.run w).2 :=
  rfl

end Yields

structure Posting where
  job : Job
  sweep : Sweep
  maxAge : Duration
  since : Duration
  deadline : Duration

def Posting.watch (p : Posting) : Watch :=
  ⟨0, p.job.repository, .job p.job.id, p.deadline, false⟩

namespace Vigil

variable {v : Vigil} {p : Posting} {r : Run} {st : Stage} {q : Option Inquiry} {m : Moment}

structure Oversees (p : Posting) (r : Run) (v : Vigil) : Prop where
  awaits : v.Awaits p.sweep v.now.instant p.job
  runs : v.service.runs = [r]
  watches : v.service.watches = [p.watch]
  since : p.since ≤ v.now.instant
  inTime : v.now.instant ≤ p.deadline
  maxAge : v.service.ledger.maxAge = p.maxAge

theorem Oversees.upTo (h : v.Oversees p r) (hs : 0 < p.sweep.interval)
    (hq : ∀ i ∈ q, i.job = p.job.id) (hm : m.instant ≤ p.deadline) :
    (v.upTo q m).value.Oversees p r ∧
      (v.upTo q m).value.now.instant < (v.upTo q m).value.sweep.due := by
  obtain ⟨hawaits, hdue⟩ := h.awaits.upTo hs hq m
  obtain ⟨l, hl, hage⟩ := v.service_upTo q m
  refine ⟨?_, hdue⟩
  exact {
    awaits := hawaits
    runs := by rw [hl]; exact h.runs
    watches := by rw [hl]; exact h.watches
    since := Nat.le_trans h.since (v.now.le_later m)
    inTime := Moment.later_le h.inTime hm
    maxAge := by rw [hl]; exact hage.trans h.maxAge }

theorem Oversees.answer (h : v.Oversees p r) (hst : r.state = .waits st) (listener : Listener)
    (elapsedMs : UInt64) (reply : (st : Stage) → st.Reply) :
    ∃ t r', v.service.answerRun? v.now listener elapsedMs 0 reply = some t ∧
      ({ v with service := t.value } : Vigil).Oversees p r' ∧
      ((∃ e, r'.state = .ended e) ∨ ∃ next, r'.state = .waits next ∧ next.rank = st.rank + 1) := by
  obtain ⟨t, ht⟩ : ∃ t, (r.task v.service.threshold listener).resume
    ⟨r.cancelled, v.now.stamp, elapsedMs⟩ st (reply st) = t := ⟨_, rfl⟩
  have hanswer : v.service.answerRun? v.now listener elapsedMs 0 reply =
      some ((v.service.putRun v.now 0 (r.goTo t.value)).after t.events) := by
    simp [Service.answerRun?, h.runs, Run.answer?, hst, ht, Traced.map]
  obtain ⟨permit, hruns⟩ := Service.runs_putRun v.service v.now 0 (r.goTo t.value)
  rw [h.runs] at hruns
  refine ⟨_, { r.goTo t.value with permit := permit }, hanswer, ?_, ?_⟩
  · exact {
      awaits := {
        entered := by rw [Traced.value_after, Service.ledger_putRun]; exact h.awaits.entered
        isOpen := h.awaits.isOpen
        answer := h.awaits.answer
        sweep := h.awaits.sweep }
      runs := hruns
      watches := by rw [Traced.value_after, Service.watches_putRun]; exact h.watches
      since := h.since
      inTime := h.inTime
      maxAge := by rw [Traced.value_after, Service.ledger_putRun]; exact h.maxAge }
  · cases hv : t.value with
    | ended e => exact .inl ⟨e, rfl⟩
    | waits next =>
        have hfollows := UpdateTask.follows_of_resume (ht ▸ hv)
        exact .inr ⟨next, rfl, hfollows.rank_eq⟩

def IsOver (p : Posting) (r : Run) (v : Vigil) : Prop :=
  (∃ e, r.state = .ended e) ∨ (r.isLive = true ∧ p.deadline ≤ v.now.instant)

theorem Oversees.tend? (h : v.Oversees p r) (hover : v.IsOver p r) :
    ∃ t verdict, v.service.tend? v.now 0 = some t ∧
      t.value.1.ledger = (v.service.ledger.finish v.now p.job.id verdict).value.1 := by
  rcases hover with ⟨e, he⟩ | ⟨hlive, hdeadline⟩
  · refine ⟨v.service.conclude v.now p.watch (Service.conclusionOf 0 e), _, ?_,
      Service.ledger_conclude_job rfl⟩
    simp [Service.tend?, Service.settle?, Service.watchOf?, h.watches, h.runs,
      Service.conclusion?, Run.ending?, he, Posting.watch]
  · have hgoing : r.ending? = none := by
      cases hstate : r.state <;> simp_all [Run.isLive, Run.ending?]
    have hsettle : v.service.settle? v.now 0 = none := by
      simp [Service.settle?, Service.watchOf?, h.watches, h.runs, Service.conclusion?, hgoing,
        Posting.watch]
    have hexpire : ∃ x, v.service.expire? v.now 0 = some x ∧ x.value = { v.service with
        runs := [r.cancel]
        watches := [{ p.watch with gaveUp := true }] } := by
      simp [Service.expire?, Service.watchOf?, h.watches, h.runs, hlive, hdeadline, Posting.watch]
    obtain ⟨x, hx, hvalue⟩ := hexpire
    have hgaveUp : x.value.settle? v.now 0 =
        some (x.value.conclude v.now { p.watch with gaveUp := true } .timedOut) := by
      simp [hvalue, Service.settle?, Service.watchOf?, Service.conclusion?, Posting.watch]
    have htend : v.service.tend? v.now 0 =
        some ((x.value.conclude v.now { p.watch with gaveUp := true } .timedOut).after
          x.events) := by
      simp only [Service.tend?, hsettle, hx, hgaveUp, Option.none_or, Option.bind_eq_bind,
        Option.bind_some, Option.pure_def]
    refine ⟨_, .timedOut, htend, ?_⟩
    rw [Traced.value_after, Service.ledger_conclude_job rfl, hvalue]
    rfl

structure Concludes (p : Posting) (job : Job) (v : Vigil) : Prop where
  entered : v.service.ledger.get? job.id = some job
  finished : job.status.isTerminal = true
  finishedAt : job.finishedAt = some v.now.stamp
  same : job.id = p.job.id ∧ job.repository = p.job.repository ∧ job.created = p.job.created ∧
    job.createdAt = p.job.createdAt
  answer : v.answer = none
  sweep : p.sweep.InStep v.now.instant v.sweep
  due : v.now.instant < v.sweep.due
  since : p.since ≤ v.now.instant
  inTime : v.now.instant ≤ p.deadline
  maxAge : v.service.ledger.maxAge = p.maxAge

end Vigil

namespace Session

variable {ω : Type} {x : Session (StateM ω)} {v : Vigil} {p : Posting} {r : Run} {st : Stage}
  {q : Option Inquiry}

theorem yields_publish {α : Type} (t : Traced α) : Yields (x.publish t) fun a => a = t.value :=
  fun _ => rfl

theorem drive_of_ended {e : Ending} (hruns : v.service.runs = [r]) (he : r.state = .ended e)
    (began : Duration) (calls : Nat) : x.drive q began 0 calls v = pure v := by
  cases calls with
  | zero => rfl
  | succ calls => simp [drive, hruns, Run.stage?, he]

theorem yields_drive (hs : 0 < p.sweep.interval) (hq : ∀ i ∈ q, i.job = p.job.id)
    (began : Duration) (calls : Nat) (h : v.Oversees p r) (hst : r.state = .waits st)
    (hcalls : callLimit ≤ st.rank + calls) :
    Yields (x.drive q began 0 calls v) fun u =>
      ∃ r, u.Oversees p r ∧ u.IsOver p r ∧ u.now.instant < u.sweep.due := by
  induction calls generalizing v r st with
  | zero => cases st <;> simp [callLimit, Stage.rank] at hcalls
  | succ calls ih =>
      have hstage : v.service.runs[0]?.bind Run.stage? = some st := by
        simp [h.runs, Run.stage?, hst]
      have hwatch : v.service.watchOf? 0 = some p.watch := by
        simp [Service.watchOf?, h.watches, Posting.watch]
      simp only [drive, hstage, hwatch]
      refine yields_bind fun reply => yields_bind fun now => ?_
      cases hlate : (some p.watch).filter fun w => w.deadline ≤ now.instant with
      | some w =>
          obtain ⟨hw, hdeadline⟩ := Option.filter_eq_some_iff.1 hlate
          cases hw
          intro u
          obtain ⟨hover, hdue⟩ := h.upTo (m := { now with instant := p.deadline }) hs hq
            (Nat.le_refl _)
          refine ⟨r, hover, .inr ⟨Run.isLive_of_waits hst, ?_⟩, hdue⟩
          exact v.now.le_later_right { now with instant := p.deadline }
      | none =>
          have hearly : now.instant ≤ p.deadline := by
            simp [Option.filter_some, Posting.watch] at hlate
            exact Nat.le_of_lt hlate
          obtain ⟨hover, hdue⟩ := h.upTo (m := now) hs hq hearly
          refine (yields_publish _).bind fun u hu => ?_
          subst hu
          obtain ⟨t, r', ht, hanswered, hnext⟩ := hover.answer hst x.listener
            (Duration.millis ((v.upTo q now).value.now.instant - began)).toUInt64
            (st.replyTo reply)
          simp only [ht]
          refine (yields_publish t).bind fun s hs => ?_
          subst hs
          rcases hnext with ⟨e, he⟩ | ⟨next, hnext, hrank⟩
          · rw [drive_of_ended hanswered.runs he]
            exact yields_pure ⟨r', hanswered, .inl ⟨e, he⟩, hdue⟩
          · exact ih hanswered hnext (by omega)

theorem yields_finish (hs : 0 < p.sweep.interval) (hq : ∀ i ∈ q, i.job = p.job.id)
    (h : v.Oversees p r) (hst : r.state = .admitted) :
    Yields (x.finish q 0 v) fun u => ∃ job, u.1.Concludes p job := by
  have hbegun : (v.service.beginRun? 0).getD v.service =
      { v.service with runs := [{ r with state := .waits .loading }] } := by
    simp [Service.beginRun?, h.runs, Run.begin?, hst]
  unfold finish
  rw [hbegun]
  have hbegins : ({ v with service := { v.service with
      runs := [{ r with state := .waits .loading }] } } : Vigil).Oversees p
      { r with state := .waits .loading } := {
    awaits := ⟨h.awaits.entered, h.awaits.isOpen, h.awaits.answer, h.awaits.sweep⟩
    runs := rfl
    watches := h.watches
    since := h.since
    inTime := h.inTime
    maxAge := h.maxAge }
  refine (yields_drive hs hq _ _ hbegins rfl (Nat.le_refl _)).bind ?_
  rintro u ⟨r', hoversees, hover, hdue⟩
  obtain ⟨t, verdict, ht, hledger⟩ := hoversees.tend? hover
  simp only [ht]
  refine (yields_publish t).bind fun s hs => yields_pure ?_
  subst hs
  refine ⟨p.job.finished u.now verdict, ?_⟩
  exact {
    entered := by
      change t.value.1.ledger.get? _ = _
      rw [hledger, Ledger.get?_finish, if_pos (Job.id_finished ..), hoversees.awaits.entered,
        Option.map_some]
    finished := Job.isTerminal_finished ..
    finishedAt := Job.finishedAt_finished hoversees.awaits.isOpen ..
    same := ⟨Job.id_finished .., Job.repository_finished .., Job.created_finished ..,
      Job.createdAt_finished ..⟩
    answer := hoversees.awaits.answer
    sweep := hoversees.awaits.sweep
    due := hdue
    since := hoversees.since
    inTime := hoversees.inTime
    maxAge := by
      change t.value.1.ledger.maxAge = _
      rw [hledger, Ledger.maxAge_finish, hoversees.maxAge] }

theorem await_of_concludes {q : Inquiry} {job : Job} (hs : 0 < p.sweep.interval)
    (h : v.Concludes p job) (hq : q.job = job.id) (w : ω) :
    ∃ answer w', (x.await q v).run w = (x.report answer).run w' ∧
      (answer = .ok job.view ∧
          ¬p.sweep.Evicts p.maxAge v.now.instant (q.next v.now.instant) job ∨
        answer = .error (.jobNotFound job.id p.maxAge) ∧
          p.sweep.Evicts p.maxAge v.now.instant (q.next v.now.instant) job) := by
  have hinterval : 0 < v.sweep.interval := h.sweep.interval ▸ hs
  have hasked := Vigil.ask_of_isTerminal hinterval h.answer h.entered h.finished
    (q.next v.now.instant)
  rw [h.maxAge] at hasked
  rw [h.sweep.evicts_iff hs h.due]
  obtain ⟨w', hw⟩ : ∃ w', (x.await q v).run w =
      (x.report ((v.ask job.id (q.next v.now.instant)).value.answer.getD
        ((v.ask job.id (q.next v.now.instant)).value.service.jobStatus job.id))).run w' := by
    simp only [await, h.answer, hq]
    exact ⟨_, rfl⟩
  rcases hasked with ⟨hanswer, hkept⟩ | ⟨hanswer, hevicted⟩
  · rw [hanswer] at hw
    exact ⟨_, w', hw, .inl ⟨rfl, hkept⟩⟩
  · rw [hanswer] at hw
    exact ⟨_, w', hw, .inr ⟨rfl, hevicted⟩⟩

theorem exists_entered (limits : Limits) (threshold : UInt64) (m : Moment) (repository : String)
    {draws : List String} (hdraws : draws ≠ []) :
    ∃ t s id, (Service.new limits threshold).triggerAsync? m draws repository = some t ∧
      t.value = (s, .admitted (.started id repository)) ∧ s.runs = [] ∧ s.watches = [] ∧
      s.launches = [⟨id, repository, ⟨repository⟩⟩] ∧ s.limits = limits ∧
      s.ledger.get? id = some (.new id repository m) ∧ s.ledger.maxAge = limits.jobMaxAge := by
  obtain ⟨id, hid⟩ := List.exists_mem_of_ne_nil draws hdraws
  obtain ⟨created, hcreated⟩ := Ledger.exists_create? (l := .new limits.jobMaxAge) (m := m)
    ⟨id, hid, rfl⟩ repository
  have hacquire : ((Service.new limits threshold).acquire m repository).value =
      ({ Service.new limits threshold with
          guard := ((Guard.new limits.cooldown).markInProgress repository).value },
        .admitted ⟨repository⟩) := rfl
  have hnone : (Service.new limits threshold).ledger.outstanding? repository = none := rfl
  have hstarted : ∃ t, (Service.new limits threshold).triggerAsync? m draws repository = some t ∧
      t.value = ({ Service.new limits threshold with
          guard := ((Guard.new limits.cooldown).markInProgress repository).value
          ledger := created.value.1
          launches := [⟨created.value.2, repository, ⟨repository⟩⟩] },
        .admitted (.started created.value.2 repository)) := by
    unfold Service.triggerAsync?
    simp only [hnone, hacquire]
    exact ⟨_, Option.map_eq_some_iff.2 ⟨created, hcreated, rfl⟩, rfl⟩
  obtain ⟨t, ht, hvalue⟩ := hstarted
  refine ⟨t, _, _, ht, hvalue, rfl, rfl, rfl, rfl, ?_, Ledger.maxAge_create? hcreated⟩
  exact ((Ledger.get?_create? hcreated).2 _).trans (if_pos rfl)

def posting (limits : Limits) (sweep : Sweep) (start : Moment) (job : Job) : Posting :=
  ⟨job.advanced start .running, sweep, limits.jobMaxAge, start.instant,
   start.instant + limits.timeout⟩

theorem exists_launched {sweep : Sweep} {job : Job} {permit : Permit}
    (h : v.Awaits sweep v.now.instant job) (hruns : v.service.runs = [])
    (hwatches : v.service.watches = [])
    (hlaunches : v.service.launches = [⟨job.id, job.repository, permit⟩])
    (hage : v.service.ledger.maxAge = v.service.limits.jobMaxAge) :
    ∃ t, v.service.launch? v.now job.id = some t ∧ t.value.2 = 0 ∧
      ({ v with service := t.value.1 } : Vigil).Oversees
        (posting v.service.limits sweep v.now job) (.new job.repository (some permit)) := by
  have hfind : v.service.launches.find? (·.job = job.id) =
      some ⟨job.id, job.repository, permit⟩ := by
    simp [hlaunches]
  refine ⟨_, Option.map_eq_some_iff.2 ⟨_, hfind, rfl⟩, ?_, ?_⟩
  · exact congrArg List.length hruns
  · exact {
      awaits := {
        entered := by
          change (v.service.ledger.advance v.now job.id .running).value.1.get? _ = _
          rw [Ledger.get?_advance, posting, if_pos (Job.id_advanced ..), h.entered,
            Option.map_some]
        isOpen := (Job.isTerminal_advanced_running ..).trans h.isOpen
        answer := h.answer
        sweep := h.sweep }
      runs := by
        change v.service.runs ++ _ = _
        rw [hruns, List.nil_append]
      watches := by
        change v.service.watches ++ _ = _
        rw [hwatches, List.nil_append, hruns]
        simp [Posting.watch, posting]
      since := Nat.le_refl _
      inTime := Nat.le_add_right ..
      maxAge := (Ledger.maxAge_advance ..).trans hage }

/-- How a job comes out that somebody asks about until it is known how it ended: it is finished within
its time, and at the next regular time its record is told, unless the ledger was swept of it before. -/
structure FollowUp (limits : Limits) (sweep : Sweep) (q : Inquiry) (ended : Moment) (job : Job)
    (answer : Except Refusal JobView) : Prop where
  asked : q.job = job.id
  finished : job.status.isTerminal = true
  finishedAt : job.finishedAt = some ended.stamp
  notBefore : q.start ≤ ended.instant
  inTime : ended.instant ≤ q.start + limits.timeout
  told : answer = .ok job.view ∧
        ¬sweep.Evicts limits.jobMaxAge ended.instant (q.next ended.instant) job ∨
      answer = .error (.jobNotFound job.id limits.jobMaxAge) ∧
        sweep.Evicts limits.jobMaxAge ended.instant (q.next ended.instant) job

theorem attend_followUp {q : Inquiry} {sweep : Sweep} {job : Job} {permit : Permit}
    (hs : 0 < sweep.interval) (hjob : q.job = job.id) (hstart : q.start = v.now.instant)
    (h : v.Awaits sweep v.now.instant job) (hruns : v.service.runs = [])
    (hwatches : v.service.watches = [])
    (hlaunches : v.service.launches = [⟨job.id, job.repository, permit⟩])
    (hage : v.service.ledger.maxAge = v.service.limits.jobMaxAge) (w : ω) :
    ∃ done ended answer w',
      done.repository = job.repository ∧ done.created = job.created ∧
      done.createdAt = job.createdAt ∧ FollowUp v.service.limits sweep q ended done answer ∧
      (x.attend q v).run w = (x.report answer).run w' := by
  obtain ⟨l, hl, hkept⟩ := v.service_ask q.job q.start
  have hasked : (v.ask q.job q.start).value.Awaits sweep v.now.instant job := by
    rw [hjob, hstart]
    exact h.ask hs (Nat.le_refl v.now.instant)
  have hnow : (v.ask q.job q.start).value.now = v.now := Vigil.now_ask ..
  have hpublish (w : ω) : ((x.publish (v.ask q.job q.start)).run w).1 =
      (v.ask q.job q.start).value := rfl
  generalize (v.ask q.job q.start).value = u at hl hasked hnow hpublish
  have hlaunches : u.service.launches = [⟨job.id, job.repository, permit⟩] := hl ▸ hlaunches
  obtain ⟨t, ht, hrun, hoversees⟩ := exists_launched (hnow ▸ hasked) (hl ▸ hruns) (hl ▸ hwatches)
    hlaunches (hl ▸ hkept.trans hage)
  have hlimits : u.service.limits = v.service.limits := by rw [hl]
  have hid : (job.advanced u.now .running).id = job.id := Job.id_advanced ..
  have hasks : ∀ i ∈ some q, i.job = (posting u.service.limits sweep u.now job).job.id := by
    rintro i ⟨⟩
    exact hjob.trans hid.symm
  have hfinish := yields_finish (x := x) hs hasks hoversees rfl
  rw [← hrun] at hfinish
  obtain ⟨z, w₁, hattend, done, hdone⟩ : ∃ z w₁, (x.attend q v).run w = (x.await q z).run w₁ ∧
      ∃ done, z.Concludes (posting u.service.limits sweep u.now job) done := by
    rw [← hjob] at ht
    simp only [attend, run_bind, hpublish, ht]
    exact ⟨_, _, rfl, hfinish _⟩
  obtain ⟨hsame, hrepository, hcreated, hcreatedAt⟩ := hdone.same
  have hname : q.job = done.id := hjob.trans (hid.symm.trans hsame.symm)
  obtain ⟨answer, w', hawait, htold⟩ := await_of_concludes (x := x) hs hdone hname w₁
  refine ⟨done, z.now, answer, w', hrepository.trans (Job.repository_advanced ..),
    hcreated.trans (Job.created_advanced ..), hcreatedAt.trans (Job.createdAt_advanced ..), ?_,
    hattend.trans hawait⟩
  rw [← hlimits]
  rw [← hnow] at hstart
  exact {
    asked := hname
    finished := hdone.finished
    finishedAt := hdone.finishedAt
    notBefore := hstart ▸ hdone.since
    inTime := hstart ▸ hdone.inTime
    told := htold }

theorem exists_attended (hdraws : ∀ w, (x.host.draws.run w).1 ≠ []) (limits : Limits)
    (threshold : UInt64) (sweep : Sweep) (interval : Duration) (w : ω) :
    ∃ (start : Moment) (s : Service) (id : String) (w' : ω),
      s.runs = [] ∧ s.watches = [] ∧ s.launches = [⟨id, x.repository, ⟨x.repository⟩⟩] ∧
      s.limits = limits ∧ s.ledger.maxAge = limits.jobMaxAge ∧
      s.ledger.get? id = some (.new id x.repository (x.host.moment.run w).1) ∧
      (x.updateInBackground interval sweep (.new limits threshold)).run w =
        (x.attend ⟨id, start.instant, max interval Inquiry.leastInterval⟩
          ⟨s, sweep, start, none⟩).run w' := by
  obtain ⟨t, s, id, ht, hvalue, hruns, hwatches, hlaunches, hlimits, hjob, hage⟩ :=
    exists_entered limits threshold (x.host.moment.run w).1 x.repository
      (hdraws (x.host.moment.run w).2)
  have hpublish (w : ω) : ((x.publish t).run w).1 = (s, .admitted (.started id x.repository)) :=
    hvalue
  obtain ⟨start, w', hattend⟩ : ∃ (start : Moment) (w' : ω),
      (x.updateInBackground interval sweep (.new limits threshold)).run w =
        (x.attend ⟨id, start.instant, max interval Inquiry.leastInterval⟩
          ⟨s, sweep, start, none⟩).run w' := by
    simp only [updateInBackground, run_bind, ht, hpublish]
    exact ⟨_, _, rfl⟩
  exact ⟨start, s, id, w', hruns, hwatches, hlaunches, hlimits, hage, hjob, hattend⟩

theorem report_eq_ok_iff {job : Job} {answer : Except Refusal JobView}
    (h : answer = .ok job.view ∨ ∃ e, answer = .error e) (w : ω) :
    ((x.report answer).run w).1 = .ok () ↔ answer = .ok job.view ∧ job.status = .completed := by
  rcases h with rfl | ⟨e, rfl⟩
  · have hresult : ((x.report (.ok job.view)).run w).1 =
        if job.status = .completed then .ok () else .error (.jobEnded job.view) := rfl
    rw [hresult]
    by_cases hstatus : job.status = .completed
    · simp [hstatus]
    · simp [hstatus]
  · have hresult : ((x.report (.error e)).run w).1 = .error (.refused e) := rfl
    simp [hresult]

/-- A background update ends with the report of its finished job, or of a job that is not found when
a sweep that came between the end and the next regular time found it too old. -/
theorem update_in_background {ω : Type} (x : Session (StateM ω))
    (hdraws : ∀ w, (x.host.draws.run w).1 ≠ []) (u : UpdateSettings) (pollInterval : Duration)
    (w : ω) :
    ∃ (created ended : Moment) (job : Job) (q : Inquiry) (answer : Except Refusal JobView) (w' : ω),
      (∃ w₁, (x.host.moment.run w₁).1 = created) ∧ job.created = created.instant ∧
      job.createdAt = created.stamp ∧ job.repository = x.repository ∧
      q.interval = max pollInterval Inquiry.leastInterval ∧
      FollowUp (.ofSettings u)
        (.start (x.host.moment.run w).1.instant (Limits.ofSettings u).evictionInterval) q ended job
        answer ∧
      (x.update true pollInterval (.new (.ofSettings u) u.changeThreshold)).run w =
        ((do
          let outcome ← x.report answer
          x.host.emit Ledger.sweepStopped
          return outcome) : StateM ω (Except CommandFailure Unit)).run w' ∧
      (((x.update true pollInterval (.new (.ofSettings u) u.changeThreshold)).run w).1 = .ok () ↔
        answer = .ok job.view ∧ job.status = .completed) := by
  obtain ⟨sweep, hsweep⟩ : ∃ sweep, Sweep.start (x.host.moment.run w).1.instant
    (Limits.ofSettings u).evictionInterval = sweep := ⟨_, rfl⟩
  have hinterval : 0 < sweep.interval := by
    rw [← hsweep]
    exact Nat.lt_of_lt_of_le Nat.zero_lt_one (Nat.le_max_right ..)
  obtain ⟨w₁, hupdate⟩ : ∃ w₁,
      (x.update true pollInterval (.new (.ofSettings u) u.changeThreshold)).run w =
        ((do
          let outcome ← x.updateInBackground pollInterval sweep
            (.new (.ofSettings u) u.changeThreshold)
          x.host.emit Ledger.sweepStopped
          return outcome) : StateM ω (Except CommandFailure Unit)).run w₁ := by
    rw [← hsweep]
    exact ⟨_, rfl⟩
  obtain ⟨start, s, id, w₂, hruns, hwatches, hlaunches, hlimits, hage, hjob, hattend⟩ :=
    exists_attended (x := x) hdraws (.ofSettings u) u.changeThreshold sweep pollInterval w₁
  have hname : id = (Job.new id x.repository (x.host.moment.run w₁).1).id := rfl
  obtain ⟨job, ended, answer, w₃, hrepository, hcreated, hcreatedAt, hfollow, hreport⟩ :=
    attend_followUp (x := x) (v := ⟨s, sweep, start, none⟩)
      (q := ⟨id, start.instant, max pollInterval Inquiry.leastInterval⟩) hinterval hname rfl
      ⟨hjob, rfl, rfl, Sweep.InStep.refl sweep start.instant⟩ hruns hwatches hlaunches
      (hage.trans (hlimits ▸ rfl)) w₂
  have hcourse : (x.update true pollInterval (.new (.ofSettings u) u.changeThreshold)).run w =
      ((do
        let outcome ← x.report answer
        x.host.emit Ledger.sweepStopped
        return outcome) : StateM ω (Except CommandFailure Unit)).run w₃ := by
    rw [hupdate, run_bind, hattend, hreport]
    rfl
  refine ⟨_, ended, job, ⟨id, start.instant, max pollInterval Inquiry.leastInterval⟩, answer, w₃,
    ⟨w₁, rfl⟩, hcreated, hcreatedAt, hrepository, rfl, ?_, hcourse, ?_⟩
  · rw [hsweep, ← hlimits]
    exact hfollow
  · rw [hcourse]
    refine report_eq_ok_iff ?_ w₃
    rcases hfollow.told with ⟨hok, -⟩ | ⟨herror, -⟩
    · exact .inl hok
    · exact .inr ⟨_, herror⟩

def upToDate : Session (StateM Duration) where
  host := {
    files := ⟨fun _ => pure (.error .notFound), fun _ _ => pure (.ok ()),
      fun _ _ => pure (.ok ()), fun _ => pure (.ok ())⟩
    processes := ⟨fun _ => pure (.error .notFound)⟩
    wire := ⟨fun _ => pure none, fun _ => pure (), fun _ => pure none⟩
    moment := fun now => (⟨now, .ofEpoch 0 0⟩, now + .ofMillis 100)
    waitUntil := fun time now => ((), max now time)
    draws := pure ["update-0-00000"]
    print := fun _ => pure ()
    note := fun _ => pure () }
  collaborators := {
    load := fun name => pure (some
      { Snapshot.fresh name "https://github.com/acme/api" "main" "/srv/api" with
        indexedSha := some "c1" })
    head := fun _ _ _ => pure ⟨"c1", "Initial commit"⟩
    compare := fun _ _ _ _ => throw (.other "nothing to compare")
    pull := fun _ _ => pure ()
    process := fun _ _ => throw (.other "nothing to do")
    save := fun _ => pure () }
  listener := .silent
  repository := "api"

theorem update_in_background_up_to_date :
    (∀ w, (upToDate.host.draws.run w).1 ≠ []) ∧
    ∃ (ended : Moment) (job : Job) (q : Inquiry) (answer : Except Refusal JobView),
      job.repository = "api" ∧ q.interval = .ofMillis 2500 ∧
      FollowUp (.ofSettings .standard) (.start 0 (.ofSeconds 60)) q ended job answer := by
  have hdraws : ∀ w, (upToDate.host.draws.run w).1 ≠ [] := fun _ => by simp [upToDate]
  obtain ⟨-, ended, job, q, answer, -, -, -, -, hrepository, hinterval, hfollow, -⟩ :=
    update_in_background upToDate hdraws .standard (.ofMillis 2500) 0
  exact ⟨hdraws, ended, job, q, answer, hrepository, hinterval, hfollow⟩

def failure? : Except CommandFailure Unit → Option CommandFailure
  | .ok () => none
  | .error f => some f

/-- With settings that are accepted and keep no finished job, a job that completed is gone when
somebody asks about it. -/
theorem swept_before_next_question :
    let u := { UpdateSettings.standard with jobMaxAgeSecs := 0, evictionIntervalSecs := 1 }
    let failure (u : UpdateSettings) := failure? ((upToDate.update true (.ofMillis 2500)
      (.new (.ofSettings u) u.changeThreshold)).run 0).1
    u.invalid? = none ∧ failure .standard = none ∧
      failure u = some (.refused (.jobNotFound "update-0-00000" 0)) := by
  decide +kernel

end Session

end IndexRefresh.CommandLine
