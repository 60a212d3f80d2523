import IndexRefresh.Proofs.Service.Step
import IndexRefresh.Proofs.Update.Stages

namespace IndexRefresh

inductive RunState.Follows (threshold : UInt64) : RunState → Work → RunState → Prop where
  | begin : Follows threshold .admitted .begin (.waits .loading)
  | goOn {s t : Stage} {reply : s.Reply} (h : s.Follows threshold reply t) :
      Follows threshold (.waits s) (.answer s) (.waits t)
  | conclude {s : Stage} {e : Ending} (h : ∀ report, e = .reported report → s.Reports report) :
      Follows threshold (.waits s) (.answer s) (.ended e)
  | interrupt {s : Stage} {f : Failure} :
      Follows threshold (.waits s) .interrupt (.ended (.failed f))
  | crash {s : Stage} {detail : String} :
      Follows threshold (.waits s) (.crash s) (.ended (.crashed detail))
  | drop {state : RunState} {detail : String} :
      Follows threshold state .drop (.ended (.crashed detail))

theorem RunState.Follows.reports {threshold : UInt64} {before : RunState} {s : Stage} {e : Ending}
    {report : Report} (h : RunState.Follows threshold before (.answer s) (.ended e))
    (he : e = .reported report) : s.Reports report := by
  cases h with
  | conclude hreports => exact hreports report he

namespace Service

theorem acquire_cases (s : Service) (m : Moment) (repository : String) :
    (s.guard.isInProgress repository = false ∧
      (s.acquire m repository).value =
        ({ s with guard := (s.guard.markInProgress repository).value }, .admitted ⟨repository⟩)) ∨
    ∃ a, (s.acquire m repository).value = (s, a) ∧ ∀ p, a ≠ .admitted p := by
  unfold acquire Guard.acquire
  cases hd : s.guard.denial? m.instant repository with
  | none =>
      refine .inl ⟨?_, rfl⟩
      cases hp : s.guard.isInProgress repository with
      | false => rfl
      | true =>
          rw [Guard.denial?_of_inProgress hp] at hd
          cases hd
  | some d =>
      refine .inr ?_
      dsimp only
      split
      · exact ⟨_, rfl, by simp⟩
      · exact ⟨_, rfl, by simp⟩

theorem acquire_of_inProgress {s : Service} {repository : String}
    (h : s.guard.isInProgress repository = true) (m : Moment) :
    (s.acquire m repository).value = (s, .refused (.inProgress repository none)) := by
  simp [acquire, Guard.acquire, Guard.denial?_of_inProgress h, refusal?]

inductive Effect (s : Service) : Deed → Service → Prop where
  | decline {repository : String} : Effect s (.decline repository) s
  | accept {m : Moment} {repository : String} (hnone : s.ledger.outstanding? repository = none)
      (hfree : s.guard.isInProgress repository = false) :
      Effect s (.accept repository s.runs.length)
        ({ s with guard := (s.guard.markInProgress repository).value }.spawn m repository
          ⟨repository⟩ .caller)
  | enter {m : Moment} {repository : String} {draws : List String} {x : Traced (Ledger × String)}
      (hnone : s.ledger.outstanding? repository = none)
      (hfree : s.guard.isInProgress repository = false)
      (h : s.ledger.create? m repository draws = some x) :
      Effect s (.enter repository x.value.2)
        { s with
          guard := (s.guard.markInProgress repository).value
          ledger := x.value.1
          launches := s.launches ++ [⟨x.value.2, repository, ⟨repository⟩⟩] }
  | launch {m : Moment} {l : Launch} (hl : l ∈ s.launches) :
      Effect s (.launch l.job s.runs.length)
        ({ s with
          ledger := (s.ledger.advance m l.job .running).value.1
          launches := s.launches.erase l }.spawn m l.repository l.permit (.job l.job))
  | work {m : Moment} {i : Nat} {w : Work} {r r' : Run} (hr : s.runs[i]? = some r)
      (hlive : r.isLive = true) (hrepository : r'.repository = r.repository)
      (hpermit : r'.permit = r.permit) (hstate : r.state.Follows s.threshold w r'.state) :
      Effect s (.work i w) (s.putRun m i r').value
  | expire {w : Watch} {r : Run} (hw : w ∈ s.watches) (hr : s.runs[w.run]? = some r)
      (hlive : r.isLive = true) :
      Effect s (.expire w.run)
        { s with
          runs := s.runs.set w.run r.cancel
          watches := s.watches.map fun v =>
            if v.run = w.run then { v with gaveUp := true } else v }
  | settle {m : Moment} {w : Watch} {c : Conclusion} (hw : w ∈ s.watches) :
      Effect s (.settle w.run (s.conclude m w c).value.2) (s.conclude m w c).value.1
  | abandon {i : Nat} : Effect s (.abandon i) (s.abandon i)
  | sweep {now : Duration} : Effect s .sweep { s with ledger := (s.ledger.evict now).value.1 }

inductive Turn (s : Service) (i : Nat) (r : Run) (t : Service) : Work → Run → Prop where
  | begin (hs : r.state = .admitted) : Turn s i r t .begin (r.goTo (.waits .loading))
  | answer {m : Moment} {listener : Listener} {elapsedMs : UInt64}
      {reply : (st : Stage) → st.Reply} {x : Traced Service} {st : Stage} (hst : r.state = .waits st)
      (hx : s.answerRun? m listener elapsedMs i reply = some x) (ht : x.value = t) :
      Turn s i r t (.answer st)
        (r.goTo ((r.task s.threshold listener).resume ⟨r.cancelled, m.stamp, elapsedMs⟩ st
          (reply st)).value)
  | interrupt {st : Stage} (hst : r.state = .waits st) (hon : r.cancelled = true)
      (hopen : st.isInterruptible = true) :
      Turn s i r t .interrupt (r.goTo (.ended (.failed .cancelled)))
  | crash {m : Moment} {detail : String} {x : Traced Service} {st : Stage}
      (hst : r.state = .waits st) (hx : s.crashRun? m i detail = some x) (ht : x.value = t) :
      Turn s i r t (.crash st) (r.goTo (.ended (.crashed detail)))
  | drop {detail : String} : Turn s i r t .drop (r.goTo (.ended (.crashed detail)))

theorem triggerSync_cases (s : Service) (m : Moment) (repository : String) :
    (s.ledger.outstanding? repository = none ∧ s.guard.isInProgress repository = false ∧
      (s.triggerSync m repository).value =
        ({ s with guard := (s.guard.markInProgress repository).value }.spawn m repository
          ⟨repository⟩ .caller, .admitted s.runs.length)) ∨
    ∃ a, (s.triggerSync m repository).value = (s, a) ∧ ∀ i, a ≠ .admitted i := by
  unfold triggerSync
  cases ho : s.ledger.outstanding? repository with
  | some j => exact .inr ⟨_, rfl, by simp⟩
  | none =>
      rcases s.acquire_cases m repository with ⟨hfree, ha⟩ | ⟨a, ha, hna⟩
      · exact .inl ⟨rfl, hfree, by simp [ha]⟩
      · refine .inr ?_
        cases a with
        | admitted p => exact absurd rfl (hna p)
        | refused r => exact ⟨.refused r, by simp [ha], by simp⟩
        | crashed detail => exact ⟨.crashed detail, by simp [ha], by simp⟩

theorem triggerAsync?_cases {s : Service} {m : Moment} {draws : List String} {repository : String}
    {x : Traced (Service × Admission JobAnswer)}
    (h : s.triggerAsync? m draws repository = some x) :
    (∃ y, s.ledger.outstanding? repository = none ∧ s.guard.isInProgress repository = false ∧
      s.ledger.create? m repository draws = some y ∧
      x.value =
        ({ s with
            guard := (s.guard.markInProgress repository).value
            ledger := y.value.1
            launches := s.launches ++ [⟨y.value.2, repository, ⟨repository⟩⟩] },
          .admitted (.started y.value.2 repository))) ∨
    x.value.1 = s ∧
      ((s.ledger.outstanding? repository).isSome ∨ ∀ a, x.value.2 ≠ .admitted a) := by
  unfold triggerAsync? at h
  cases ho : s.ledger.outstanding? repository with
  | some j =>
      simp only [ho] at h
      cases h
      exact .inr ⟨rfl, .inl rfl⟩
  | none =>
      simp only [ho] at h
      rcases s.acquire_cases m repository with ⟨hfree, ha⟩ | ⟨a, ha, hna⟩
      · simp only [ha, Option.map_eq_some_iff] at h
        obtain ⟨y, hy, rfl⟩ := h
        exact .inl ⟨y, rfl, hfree, hy, rfl⟩
      · refine .inr ?_
        cases a with
        | admitted p => exact absurd rfl (hna p)
        | refused r => simp only [ha] at h; cases h; exact ⟨rfl, .inr (by simp)⟩
        | crashed detail => simp only [ha] at h; cases h; exact ⟨rfl, .inr (by simp)⟩

theorem launch?_cases {s : Service} {m : Moment} {job : String} {x : Traced (Service × Nat)}
    (h : s.launch? m job = some x) :
    ∃ l ∈ s.launches, l.job = job ∧ x.value =
      ({ s with
          ledger := (s.ledger.advance m l.job .running).value.1
          launches := s.launches.erase l }.spawn m l.repository l.permit (.job l.job),
        s.runs.length) := by
  obtain ⟨l, hl, rfl⟩ := Option.map_eq_some_iff.1 h
  have hjob : l.job = job := by simpa using List.find?_some hl
  subst hjob
  exact ⟨l, List.mem_of_find?_eq_some hl, rfl, rfl⟩

theorem putRun_of_isLive {s : Service} {m : Moment} {i : Nat} {r : Run} (h : r.isLive = true) :
    (s.putRun m i r).value = { s with runs := s.runs.set i r } := by
  simp [putRun, h]

@[simp] theorem guard_conclude (s : Service) (m : Moment) (w : Watch) (c : Conclusion) :
    (s.conclude m w c).value.1.guard = s.guard := by
  unfold conclude
  split <;> rfl

@[simp] theorem runs_conclude (s : Service) (m : Moment) (w : Watch) (c : Conclusion) :
    (s.conclude m w c).value.1.runs = s.runs := by
  unfold conclude
  split <;> rfl

@[simp] theorem watches_conclude (s : Service) (m : Moment) (w : Watch) (c : Conclusion) :
    (s.conclude m w c).value.1.watches = s.watches.erase w := by
  unfold conclude
  split <;> rfl

@[simp] theorem launches_conclude (s : Service) (m : Moment) (w : Watch) (c : Conclusion) :
    (s.conclude m w c).value.1.launches = s.launches := by
  unfold conclude
  split <;> rfl

theorem ledger_conclude_caller {s : Service} {m : Moment} {w : Watch} {c : Conclusion}
    (hw : w.client = .caller) :
    (s.conclude m w c).value.1.ledger = s.ledger := by
  simp [conclude, hw]

theorem ledger_conclude_job {s : Service} {id : String} {m : Moment} {w : Watch} {c : Conclusion}
    (hw : w.client = .job id) :
    (s.conclude m w c).value.1.ledger =
      (s.ledger.finish m id (verdict w.repository c)).value.1 := by
  simp [conclude, hw]

theorem answerRun?_cases {s : Service} {m : Moment} {listener : Listener} {elapsedMs : UInt64}
    {i : Nat} {reply : (st : Stage) → st.Reply} {x : Traced Service}
    (h : s.answerRun? m listener elapsedMs i reply = some x) :
    ∃ r t, s.runs[i]? = some r ∧
      r.answer? s.threshold listener m.stamp elapsedMs reply = some t ∧
      x.value = (s.putRun m i t.value).value := by
  obtain ⟨t, ht, rfl⟩ := Option.map_eq_some_iff.1 h
  obtain ⟨r, hr, ha⟩ := Option.bind_eq_some_iff.1 ht
  exact ⟨r, t, hr, ha, rfl⟩

theorem interruptRun?_cases {s : Service} {m : Moment} {i : Nat} {x : Traced Service}
    (h : s.interruptRun? m i = some x) :
    ∃ r t, s.runs[i]? = some r ∧ r.interrupt? = some t ∧
      x.value = (s.putRun m i t.value).value := by
  obtain ⟨t, ht, rfl⟩ := Option.map_eq_some_iff.1 h
  obtain ⟨r, hr, ha⟩ := Option.bind_eq_some_iff.1 ht
  exact ⟨r, t, hr, ha, rfl⟩

theorem crashRun?_cases {s : Service} {m : Moment} {i : Nat} {detail : String}
    {x : Traced Service} (h : s.crashRun? m i detail = some x) :
    ∃ r r', s.runs[i]? = some r ∧ r.crash? detail = some r' ∧ x.value = (s.putRun m i r').value := by
  obtain ⟨r', hr', rfl⟩ := Option.map_eq_some_iff.1 h
  obtain ⟨r, hr, ha⟩ := Option.bind_eq_some_iff.1 hr'
  exact ⟨r, r', hr, ha, rfl⟩

theorem settle?_cases {s : Service} {m : Moment} {i : Nat}
    {x : Traced (Service × Option SyncAnswer)} (h : s.settle? m i = some x) :
    ∃ w r c, w ∈ s.watches ∧ w.run = i ∧ s.runs[i]? = some r ∧ conclusion? w r = some c ∧
      x = s.conclude m w c := by
  simp only [settle?, Option.bind_eq_bind, Option.bind_eq_some_iff, Option.pure_def,
    Option.some.injEq] at h
  obtain ⟨w, hw, r, hr, c, hc, rfl⟩ := h
  exact ⟨w, r, c, List.mem_of_find?_eq_some hw, by simpa using List.find?_some hw, hr, hc, rfl⟩

theorem expire?_cases {s : Service} {m : Moment} {i : Nat} {x : Traced Service}
    (h : s.expire? m i = some x) :
    ∃ w r, w ∈ s.watches ∧ w.run = i ∧ s.runs[i]? = some r ∧ w.gaveUp = false ∧
      r.isLive = true ∧ w.deadline ≤ m.instant ∧ x.value =
        { s with
          runs := s.runs.set i r.cancel
          watches := s.watches.map fun v => if v.run = i then { v with gaveUp := true } else v } := by
  simp only [expire?, Option.bind_eq_bind, Option.bind_eq_some_iff, Option.pure_def] at h
  obtain ⟨w, hw, r, hr, h⟩ := h
  split at h
  · next hc =>
      cases h
      simp only [Bool.and_eq_true, Bool.not_eq_true', decide_eq_true_eq] at hc
      exact ⟨w, r, List.mem_of_find?_eq_some hw, by simpa using List.find?_some hw, hr, hc.1.1,
        hc.1.2, hc.2, rfl⟩
  · cases h

theorem Step.turn {s t : Service} {i : Nat} {w : Work} (hs : Step s (.work i w) t) :
    ∃ m r q, s.runs[i]? = some r ∧ r.isLive = true ∧ s.Turn i r t w q ∧
      t = (s.putRun m i q).value := by
  cases hs with
  | begin h =>
      obtain ⟨q, hq, rfl⟩ := Option.map_eq_some_iff.1 h
      obtain ⟨r, hr, hb⟩ := Option.bind_eq_some_iff.1 hq
      obtain ⟨hs, rfl⟩ := Run.begin?_cases hb
      exact ⟨⟨0, .ofEpoch 0 0⟩, r, _, hr, by simp [Run.isLive, hs], .begin hs,
        (putRun_of_isLive rfl).symm⟩
  | @answer m listener elapsedMs i reply x st hst h =>
      obtain ⟨r, y, hr, hy, hv⟩ := answerRun?_cases h
      obtain ⟨st', hst', hgo⟩ := Run.answer?_cases hy
      obtain rfl : st' = st := by simpa [hr, Run.stage?, hst'] using hst
      rw [hgo] at hv
      exact ⟨m, r, _, hr, Run.isLive_of_waits hst', .answer hst' h rfl, hv⟩
  | @interrupt m i x h =>
      obtain ⟨r, y, hr, hy, hv⟩ := interruptRun?_cases h
      obtain ⟨st, hst, hon, hopen, hgo⟩ := Run.interrupt?_cases hy
      rw [hgo] at hv
      exact ⟨m, r, _, hr, Run.isLive_of_waits hst, .interrupt hst hon hopen, hv⟩
  | @crash m i detail x st hst h =>
      obtain ⟨r, q, hr, hq, hv⟩ := crashRun?_cases h
      obtain ⟨st', hst', rfl⟩ := Run.crash?_cases hq
      obtain rfl : st' = st := by simpa [hr, Run.stage?, hst'] using hst
      exact ⟨m, r, _, hr, Run.isLive_of_waits hst', .crash hst' h rfl, hv⟩
  | @drop m i x h =>
      obtain ⟨r, hr, rfl⟩ := Option.map_eq_some_iff.1 h
      obtain ⟨hr, hlive⟩ := Option.filter_eq_some_iff.1 hr
      exact ⟨m, r, _, hr, hlive, .drop, rfl⟩

section

variable {s t : Service} {i : Nat} {r q : Run} {w : Work}

theorem Turn.exists_goTo (h : s.Turn i r t w q) : ∃ p, q = r.goTo p := by
  cases h <;> exact ⟨_, rfl⟩

theorem Turn.follows (h : s.Turn i r t w q) : r.state.Follows s.threshold w q.state := by
  cases h with
  | begin hs =>
      rw [hs]
      exact .begin
  | @answer m listener elapsedMs reply x st hst hx ht =>
      rw [hst]
      cases hp : ((r.task s.threshold listener).resume ⟨r.cancelled, m.stamp, elapsedMs⟩ st
          (reply st)).value with
      | waits next => exact .goOn (UpdateTask.follows_of_resume hp)
      | ended e => exact .conclude fun report he => UpdateTask.reports_of_resume (he ▸ hp)
  | interrupt hst =>
      rw [hst]
      exact .interrupt
  | crash hst =>
      rw [hst]
      exact .crash
  | drop => exact .drop

theorem Step.work_effect (hs : Step s (.work i w) t) : Effect s (.work i w) t := by
  obtain ⟨m, r, q, hr, hlive, hturn, rfl⟩ := hs.turn
  obtain ⟨p, hp⟩ := hturn.exists_goTo
  exact .work hr hlive (by simp [hp]) (by simp [hp]) hturn.follows

end

theorem Step.effect {s t : Service} {d : Deed} (h : Step s d t) : Effect s d t := by
  cases h with
  | @accept m repository t i h =>
      rcases s.triggerSync_cases m repository with ⟨hnone, hfree, hv⟩ | ⟨a, hv, hna⟩
      · obtain ⟨rfl, hi⟩ := Prod.mk.inj (hv.symm.trans h)
        cases hi
        exact .accept hnone hfree
      · obtain ⟨-, rfl⟩ := Prod.mk.inj (hv.symm.trans h)
        exact absurd rfl (hna i)
  | @declineSync m repository t a h ha =>
      rcases s.triggerSync_cases m repository with ⟨-, -, hv⟩ | ⟨b, hv, -⟩
      · obtain ⟨-, rfl⟩ := Prod.mk.inj (hv.symm.trans h)
        exact absurd rfl (ha _)
      · obtain ⟨rfl, -⟩ := Prod.mk.inj (hv.symm.trans h)
        exact .decline
  | @enter m draws repository x t a hnone h hx =>
      rcases triggerAsync?_cases h with ⟨y, -, hfree, hy, hv⟩ | ⟨-, hd⟩
      · obtain ⟨rfl, ha⟩ := Prod.mk.inj (hv.symm.trans hx)
        cases ha
        exact .enter hnone hfree hy
      · rcases hd with hd | hd
        · simp [hnone] at hd
        · exact absurd (by rw [hx]) (hd a)
  | @declineAsync m draws repository x t a h hx ha =>
      rcases triggerAsync?_cases h with ⟨y, hnone, -, -, hv⟩ | ⟨hs, -⟩
      · obtain ⟨-, rfl⟩ := Prod.mk.inj (hv.symm.trans hx)
        rcases ha with ha | ha
        · simp [hnone] at ha
        · exact absurd rfl (ha _)
      · rw [hx] at hs
        cases hs
        exact .decline
  | @launch m job x h =>
      obtain ⟨l, hl, rfl, hv⟩ := launch?_cases h
      rw [hv]
      exact .launch hl
  | begin h => exact (Step.begin h).work_effect
  | answer hst h => exact (Step.answer hst h).work_effect
  | interrupt h => exact (Step.interrupt h).work_effect
  | crash hst h => exact (Step.crash hst h).work_effect
  | drop h => exact (Step.drop h).work_effect
  | expire h =>
      obtain ⟨w, r, hw, rfl, hr, -, hlive, -, hv⟩ := expire?_cases h
      rw [hv]
      exact .expire hw hr hlive
  | settle h =>
      obtain ⟨w, r, c, hw, rfl, -, -, rfl⟩ := settle?_cases h
      exact .settle hw
  | abandon => exact .abandon
  | sweep => exact .sweep

end Service

end IndexRefresh
