import IndexRefresh.Proofs.Service.Watching

namespace IndexRefresh

namespace Service

structure Transition where
  source : Service
  deed : Deed
  target : Service

def Transition.finishes (x : Transition) (id : String) : Bool :=
  x.source.ledger.isOpen id && (x.target.ledger.get? id).any fun j => j.status.isTerminal

def deeds (log : List Transition) : List Deed :=
  log.map Transition.deed

inductive Recorded (limits : Limits) (threshold : UInt64) : List Transition → Service → Prop where
  | new : Recorded limits threshold [] (.new limits threshold)
  | step {log : List Transition} {s t : Service} {d : Deed} (h : Recorded limits threshold log s)
      (hs : Step s d t) : Recorded limits threshold (log ++ [⟨s, d, t⟩]) t

/-- What a run came to for those who watch it: its time was up, or it ended in time. -/
inductive Concluded (history : List Deed) (s : Service) (i : Nat) (repository : String) :
    Conclusion → Prop where
  | timedOut (h : .expire i ∈ history) : Concluded history s i repository .timedOut
  | ended {r : Run} {e : Ending} (h : .expire i ∉ history) (hr : s.runs[i]? = some r)
      (hrepository : r.repository = repository) (he : r.state = .ended e) :
      Concluded history s i repository (conclusionOf i e)

/-- What a caller is told of a conclusion, field by field. -/
inductive Conveys (limit : Duration) (repository : String) : Conclusion → SyncAnswer → Prop where
  | reported {r : Report} {a : UpdateAnswer} (houtcome : a.outcome = r.outcome)
      (hrepository : a.repository = r.repository)
      (hcommit : a.commitSha.toList = r.commitSha.toList.take 7)
      (hmessage : a.commitMessage = r.commitMessage) (hstats : a.stats = r.stats)
      (herrors : a.errors = r.errors) (hduration : a.durationMs = r.durationMs) :
      Conveys limit repository (.reported r) (.ok a)
  | failed {f : Failure} {e : Refusal}
      (hcode : e.code = if f = .repositoryNotFound then .repositoryNotFound else .updateFailed)
      (hmessage : e.message = f.message repository) (hretryable : e.retryable = f.isRetryable)
      (hreindex : e.requiresFullReindex = f.requiresFullReindex)
      (hseconds : e.retryAfterSeconds = none) : Conveys limit repository (.failed f) (.error e)
  | timedOut {e : Refusal} (hcode : e.code = .timeout)
      (hmessage : e.message =
        s!"Update of {repository} did not finish within {limit.seconds} seconds")
      (hretryable : e.retryable = true) (hreindex : e.requiresFullReindex = false)
      (hseconds : e.retryAfterSeconds = none) : Conveys limit repository .timedOut (.error e)
  | crashed {detail : String} {e : Refusal} (hcode : e.code = .internalError)
      (hmessage : e.message = s!"Update of {repository} failed unexpectedly: {detail}")
      (hretryable : e.retryable = false) (hreindex : e.requiresFullReindex = false)
      (hseconds : e.retryAfterSeconds = none) :
      Conveys limit repository (.crashed detail) (.error e)

inductive Agrees (j : Job) : Conclusion → SyncAnswer → Prop where
  | completed {r : Report} {a : UpdateAnswer} (hstatus : j.status = .completed)
      (hresult : j.result = some r) (herror : j.error = none) : Agrees j (.reported r) (.ok a)
  | failed {f : Failure} {e : Refusal} (hstatus : j.status = .failed) (hresult : j.result = none)
      (herror : j.error = some e.message) : Agrees j (.failed f) (.error e)
  | crashed {detail : String} {e : Refusal} (hstatus : j.status = .failed)
      (hresult : j.result = none) (herror : j.error = some ("Update task crashed: " ++ detail))
      (hcode : e.code = .internalError) : Agrees j (.crashed detail) (.error e)
  | timedOut {e : Refusal} (hstatus : j.status = .timedOut) (hresult : j.result = none)
      (herror : j.error = some "Update exceeded its time limit") (hcode : e.code = .timeout) :
      Agrees j .timedOut (.error e)

/-- How a job came to its record: once its own run had come to a conclusion, its task wrote it. -/
structure Settled (limits : Limits) (before : List Transition) (x : Transition) (id : String)
    (j : Job) : Prop where
  finishes : x.finishes id = true
  record : x.target.ledger.get? id = some j
  concluded : ∃ i c, x.deed = .settle i none ∧ runOf? id (deeds before) = some i ∧
    Concluded (deeds before) x.source i j.repository c ∧
    Agrees j c (syncAnswer limits.timeout j.repository c) ∧
    Conveys limits.timeout j.repository c (syncAnswer limits.timeout j.repository c)

variable {limits : Limits} {threshold : UInt64} {log : List Transition} {history : List Deed}
  {s t : Service} {d : Deed} {id : String} {j : Job}

@[simp] theorem deeds_append_singleton (log : List Transition) (x : Transition) :
    deeds (log ++ [x]) = deeds log ++ [x.deed] := by
  simp [deeds]

theorem Recorded.reached (h : Recorded limits threshold log s) :
    Reached limits threshold (deeds log) s := by
  induction h with
  | new => exact .new
  | step _ hs ih =>
      rw [deeds_append_singleton]
      exact ih.step hs

theorem finishes_of_isOpen_eq (hsame : t.ledger.isOpen id = s.ledger.isOpen id) (d : Deed) :
    (⟨s, d, t⟩ : Transition).finishes id = false := by
  unfold Transition.finishes
  cases hopen : s.ledger.isOpen id with
  | false => rfl
  | true =>
      obtain ⟨j, hj, hj'⟩ := Ledger.isOpen_iff.1 (hsame.trans hopen)
      simp [hj, hj']

theorem Effect.finishes_add (he : Effect s d t) (ht : Tasked history s) (id : String) :
    (if (⟨s, d, t⟩ : Transition).finishes id then 1 else 0) + (if t.ledger.isOpen id then 1 else 0) =
      (if d.entered? = some id then 1 else 0) + if s.ledger.isOpen id then 1 else 0 := by
  have same (hopen : t.ledger.isOpen id = s.ledger.isOpen id) (hd : d.entered? ≠ some id) :
      (if (⟨s, d, t⟩ : Transition).finishes id then 1 else 0) +
          (if t.ledger.isOpen id then 1 else 0) =
        (if d.entered? = some id then 1 else 0) + if s.ledger.isOpen id then 1 else 0 := by
    rw [finishes_of_isOpen_eq hopen, hopen, if_neg hd, if_neg Bool.false_ne_true]
  cases he with
  | @enter m repository draws x hnone hfree hx =>
      have hopen := Ledger.isOpen_create? hx id
      by_cases heq : id = x.value.2
      · have hclosed : s.ledger.isOpen id = false := heq ▸ Ledger.isOpen_of_create? hx
        rw [decide_eq_true heq, Bool.true_or] at hopen
        simp [Transition.finishes, hopen, hclosed, Deed.entered?, heq.symm]
      · rw [decide_eq_false heq, Bool.false_or] at hopen
        apply same hopen
        intro hid
        exact heq (Option.some.inj hid).symm
  | @settle m w c hw =>
      cases hclient : w.client with
      | caller =>
          apply same
          · rw [ledger_conclude_caller hclient]
          · simp [Deed.entered?]
      | job other =>
          have hopen := Ledger.isOpen_finish s.ledger m other (verdict w.repository c) id
          rw [← ledger_conclude_job hclient] at hopen
          by_cases heq : id = other
          · subst heq
            obtain ⟨k, hk, -⟩ := Ledger.isOpen_iff.1 (ht.isOpen_of_client hw hclient)
            have hrecord : (s.conclude m w c).value.1.ledger.get? id =
                some (k.finished m (verdict w.repository c)) := by
              rw [ledger_conclude_job hclient, Ledger.get?_finish, if_pos rfl, hk, Option.map_some]
            simp [Transition.finishes, hopen, hrecord, ht.isOpen_of_client hw hclient,
              Job.isTerminal_finished, Deed.entered?]
          · rw [decide_eq_false heq] at hopen
            apply same
            · simpa using hopen
            · simp [Deed.entered?]
  | launch => exact same (Ledger.isOpen_advance_running ..) (by simp [Deed.entered?])
  | work => exact same (by rw [ledger_putRun]) (by simp [Deed.entered?])
  | sweep => exact same (Ledger.isOpen_evict ..) (by simp [Deed.entered?])
  | _ => exact same rfl (by simp [Deed.entered?])

theorem Recorded.finished (h : Recorded limits threshold log s) (id : String) :
    log.countP (·.finishes id) + (if s.ledger.isOpen id then 1 else 0) =
      log.countP fun x => x.deed.entered? = some id := by
  induction h with
  | new => simp [Service.new, Ledger.new, Ledger.isOpen, Ledger.get?]
  | @step log s t d h hs ih =>
      have hadd := hs.effect.finishes_add h.reached.tasked id
      simp only [List.countP_append, List.countP_singleton, decide_eq_true_eq]
      omega

theorem Attributed.concluded (h : Attributed history s) {w : Watch} {r : Run} {c : Conclusion}
    (hw : w ∈ s.watches) (hr : s.runs[w.run]? = some r) (hc : conclusion? w r = some c) :
    Concluded history s w.run w.repository c := by
  unfold conclusion? at hc
  split at hc
  · next hup =>
      cases hc
      exact .timedOut ((h.gaveUp w hw).1 hup)
  · next hon =>
      obtain ⟨e, he, rfl⟩ := Option.map_eq_some_iff.1 hc
      have hstate : r.state = .ended e := by
        unfold Run.ending? at he
        split at he
        · next hs =>
            cases he
            exact hs
        · cases he
      obtain ⟨q, hq, hrepository⟩ := h.ran w hw
      obtain rfl : r = q := Option.some.inj (hr.symm.trans hq)
      exact .ended (fun hexpired => hon ((h.gaveUp w hw).2 hexpired)) hr hrepository hstate

theorem conveys_syncAnswer (limit : Duration) (repository : String) (c : Conclusion) :
    Conveys limit repository c (syncAnswer limit repository c) := by
  cases c with
  | reported r => exact .reported rfl rfl String.toList_ofList rfl rfl rfl rfl
  | failed f => exact .failed rfl rfl rfl rfl rfl
  | timedOut => exact .timedOut rfl rfl rfl rfl rfl
  | crashed detail => exact .crashed rfl rfl rfl rfl rfl

theorem agrees_finished {m : Moment} {c : Conclusion} (limit : Duration)
    (hopen : j.status.isTerminal = false) (hresult : j.result = none) (herror : j.error = none) :
    Agrees (j.finished m (verdict j.repository c)) c (syncAnswer limit j.repository c) := by
  have hrecord : j.finished m (verdict j.repository c) =
      { (verdict j.repository c).record j with
        status := (verdict j.repository c).status, finishedAt := some m.stamp } := by
    rw [Job.finished, if_neg (by simp [hopen])]
  rw [hrecord]
  cases c with
  | reported r => exact .completed rfl rfl herror
  | failed f => exact .failed rfl hresult rfl
  | timedOut => exact .timedOut rfl hresult rfl rfl
  | crashed detail => exact .crashed rfl hresult rfl rfl

theorem Recorded.settled (h : Recorded limits threshold log s) (hj : s.ledger.get? id = some j)
    (hdone : j.status.isTerminal = true) :
    ∃ before x after, log = before ++ x :: after ∧ Settled limits before x id j ∧
      ∀ y ∈ after, ∀ repository, y.deed ≠ .enter repository id := by
  induction h with
  | new => simp [Service.new, Ledger.new, Ledger.get?] at hj
  | @step log s t d h hs ih =>
      have ht := h.reached.tasked
      have ha := h.reached.attributed
      have closed {k : Job} (hk : s.ledger.get? id = some k) (hopen : s.ledger.isOpen id = true) :
          k.status.isTerminal = false := by
        obtain ⟨k', hk', hopen⟩ := Ledger.isOpen_iff.1 hopen
        rw [hk] at hk'
        cases hk'
        exact hopen
      cases hs.written hj with
      | kept hk hd =>
          obtain ⟨before, x, after, rfl, hsettled, hafter⟩ := ih hk
          refine ⟨before, x, after ++ [⟨s, d, t⟩], by simp, hsettled, ?_⟩
          intro y hy
          rcases List.mem_append.1 hy with hy | hy
          · exact hafter y hy
          · rw [List.mem_singleton.1 hy]
            exact hd
      | created => cases hdone
      | moved hl hk =>
          -- a launch moves its own job on, which is not finished as long as the launch waits
          rw [Job.isTerminal_advanced_running, closed hk (ht.of_mem_launches hl).1] at hdone
          cases hdone
      | @concluded m w r c id k hw hid hr hc hk =>
          -- the task wrote over a record that was still blank, so nothing else is in it
          have hopen := ht.isOpen_of_client hw hid
          have hk' := closed hk hopen
          obtain ⟨hresult, herror⟩ := ha.blank id k hk hk'
          have hrepository := ha.watched w hw id k hid hk
          rw [← hrepository] at hj hdone ⊢
          have hconcluded : Concluded (deeds log) s w.run k.repository c := by
            rw [hrepository]
            exact ha.concluded hw hr hc
          have hagrees := agrees_finished (m := m) (c := c) limits.timeout hk' hresult herror
          refine ⟨log, _, [], rfl, ⟨?_, hj, w.run, c, rfl, ht.owned w hw id hid, ?_, ?_,
            conveys_syncAnswer ..⟩, by simp⟩
          · simp [Transition.finishes, hopen, hj, Job.isTerminal_finished]
          · rwa [Job.repository_finished]
          · rwa [Job.repository_finished]

theorem Step.record_of_finished (hs : Step s d t) (ht : Tasked history s)
    (hj : s.ledger.get? id = some j) (hdone : j.status.isTerminal = true) :
    t.ledger.get? id = some j ∨
      (t.ledger.get? id = none ∧ (d = .sweep ∨ ∃ repository job, d = .enter repository job)) ∨
      ∃ repository, d = .enter repository id := by
  have hclosed : s.ledger.isOpen id = false := by
    simp [Ledger.isOpen, hj, hdone]
  cases hafter : t.ledger.get? id with
  | none =>
      have lost {l : Ledger} {other : String} {f : Job → Job}
          (hl : l.get? id = if id = other then (s.ledger.get? other).map f else s.ledger.get? id) :
          l.get? id ≠ none := by
        rw [hl]
        split
        · next heq => simp [← heq, hj]
        · simp [hj]
      refine .inr (.inl ⟨rfl, ?_⟩)
      cases hs.effect with
      | enter => exact .inr ⟨_, _, rfl⟩
      | sweep => exact .inl rfl
      | launch => exact absurd hafter (lost (Ledger.get?_advance ..))
      | work =>
          rw [ledger_putRun, hj] at hafter
          cases hafter
      | @settle m w c hw =>
          cases hclient : w.client with
          | caller =>
              rw [ledger_conclude_caller hclient, hj] at hafter
              cases hafter
          | job other =>
              rw [ledger_conclude_job hclient] at hafter
              exact absurd hafter (lost (Ledger.get?_finish ..))
      | _ => cases hj.symm.trans hafter
  | some k =>
      cases hs.written hafter with
      | kept hk => exact .inl (hk.symm.trans hj)
      | created => exact .inr (.inr ⟨_, rfl⟩)
      | moved hl =>
          rw [(ht.of_mem_launches hl).1] at hclosed
          cases hclosed
      | concluded hw hid =>
          rw [ht.isOpen_of_client hw hid] at hclosed
          cases hclosed

theorem Step.record_of_work {i : Nat} {w : Work} (hs : Step s (.work i w) t) (id : String) :
    t.ledger.get? id = s.ledger.get? id := by
  cases hs.effect with
  | work => rw [ledger_putRun]

theorem Step.answered {i : Nat} {answer : SyncAnswer} (hs : Step s (.settle i (some answer)) t)
    (h : Attributed history s) :
    ∃ repository c, Concluded history s i repository c ∧
      answer = syncAnswer s.limits.timeout repository c ∧
      Conveys s.limits.timeout repository c answer := by
  generalize hd : Deed.settle i (some answer) = d at hs
  cases hs with
  | settle hx =>
      obtain ⟨w, r, c, hw, rfl, hr, hc, rfl⟩ := settle?_cases hx
      obtain ⟨rfl, hanswer⟩ := Deed.settle.inj hd
      have htold : answer = syncAnswer s.limits.timeout w.repository c := by
        cases hclient : w.client with
        | caller => simpa [conclude, hclient] using hanswer
        | job id => simp [conclude, hclient] at hanswer
      exact ⟨w.repository, c, h.concluded hw hr hc, htold, htold ▸ conveys_syncAnswer ..⟩
  | _ => cases hd

/-- The background task of a job finishes it once for each time that it was entered, and leaves none
that is not finished. It writes what the run of the job came to, as a caller would have been told,
and nothing that a run does later changes that. -/
theorem outcome_recorded_once (h : Recorded limits threshold log s) (id : String) :
    (log.countP (·.finishes id) + (if s.ledger.isOpen id then 1 else 0) =
      log.countP fun x => x.deed.entered? = some id) ∧
    (s.taskCount id = 0 →
      (∀ j, s.ledger.get? id = some j → j.status.isTerminal = true) ∧
      log.countP (·.finishes id) = log.countP fun x => x.deed.entered? = some id) ∧
    (∀ j, s.ledger.get? id = some j → j.status.isTerminal = true →
      (∃ before x after, log = before ++ x :: after ∧ Settled limits before x id j ∧
        ∀ y ∈ after, ∀ repository, y.deed ≠ .enter repository id) ∧
      ∀ d t, Step s d t → t.ledger.get? id = some j ∨
        (t.ledger.get? id = none ∧ (d = .sweep ∨ ∃ repository job, d = .enter repository job)) ∨
        ∃ repository, d = .enter repository id) ∧
    (∀ i w t, Step s (.work i w) t → t.ledger.get? id = s.ledger.get? id) ∧
    (∀ i answer t, Step s (.settle i (some answer)) t →
      ∃ repository c, Concluded (deeds log) s i repository c ∧
        answer = syncAnswer limits.timeout repository c ∧
        Conveys limits.timeout repository c answer) := by
  have ht := h.reached.tasked
  have hfinished := h.finished id
  refine ⟨hfinished, ?_, ?_, fun i w t hs => hs.record_of_work id, ?_⟩
  · intro hnone
    have hclosed : s.ledger.isOpen id = false := by
      have hcount := ht.counted id
      rw [hnone] at hcount
      cases hopen : s.ledger.isOpen id with
      | false => rfl
      | true =>
          rw [hopen] at hcount
          cases hcount
    constructor
    · intro j hj
      simpa [Ledger.isOpen, hj] using hclosed
    · simpa [hclosed] using hfinished
  · intro j hj hdone
    exact ⟨h.settled hj hdone, fun d t hs => hs.record_of_finished ht hj hdone⟩
  · intro i answer t hs
    rw [← h.reached.limits_eq]
    exact hs.answered h.reached.attributed

theorem outcome_recorded_once_after_timeout :
    ∃ log s r j, Recorded ⟨5, 0, 100, 10⟩ 100 log s ∧ s.taskCount "j" = 0 ∧
      s.runs[0]? = some r ∧ r.isLive = false ∧ s.ledger.get? "j" = some j ∧
      j.status = .timedOut ∧ j.result = none ∧ log.countP (·.finishes "j") = 1 := by
  let moment (seconds : Nat) : Moment := ⟨seconds, .ofEpoch 0 0⟩
  have entered : Recorded ⟨5, 0, 100, 10⟩ 100 _ _ :=
    Recorded.new.step (@Step.enter _ (moment 0) ["j"] "a" _ _ (.started "j" "a") rfl rfl rfl)
  have launched := entered.step (@Step.launch _ (moment 1) "j" _ rfl)
  have begun := launched.step (@Step.begin _ 0 _ rfl)
  have expired := begun.step (@Step.expire _ (moment 6) 0 _ rfl)
  have settled := expired.step (@Step.settle _ (moment 7) 0 _ rfl)
  have returned := settled.step
    (@Step.answer _ (moment 8) .silent 0 0 (Stage.failed (.other "late")) _ _ rfl rfl)
  obtain ⟨-, htask, -, -, -⟩ := outcome_recorded_once returned "j"
  exact ⟨_, _, _, _, returned, rfl, rfl, rfl, rfl, rfl, rfl, (htask rfl).2⟩

end Service

end IndexRefresh
