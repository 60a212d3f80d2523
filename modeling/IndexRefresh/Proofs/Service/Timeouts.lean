import IndexRefresh.Proofs.Service.Calls
import IndexRefresh.Proofs.Service.Permits
import IndexRefresh.Proofs.Update.Messages

namespace IndexRefresh

def Deed.settled? : Deed → Option Nat
  | .settle run _ => some run
  | _ => none

structure Run.Stopping (r : Run) : Prop where
  cancelled : r.cancelled = true
  early : ∀ st, r.state = .waits st → st.rank < 4

namespace Service

/-- What the trigger of a run comes to. -/
inductive Outcome (threshold : UInt64) (log : List Transition) (i : Nat) (repository : String) :
    Conclusion → Prop where
  | returned {ps : List (Poll Unit)} {e : Ending} (h : .expire i ∉ deeds log)
      (hreplay : Replay i log ps)
      (he : ((⟨repository, threshold, none, ()⟩ : Errand Unit).after ps).run.state = .ended e) :
      Outcome threshold log i repository (conclusionOf i e)
  | timedOut (h : .expire i ∈ deeds log) : Outcome threshold log i repository .timedOut
  | crashed {detail : String} (h : .expire i ∉ deeds log) (hdrop : .work i .drop ∈ deeds log) :
      Outcome threshold log i repository (.crashed detail)

variable {limits : Limits} {threshold : UInt64} {log before after : List Transition}
  {s t : Service} {d : Deed} {i : Nat} {w : Work} {r q : Run} {x : Transition}
  {repository : String} {c : Conclusion} {n : Nat}

theorem Turn.stopping (h : s.Turn i r t w q) (hr : r.Stopping) : q.Stopping := by
  refine ⟨h.same.2.trans hr.cancelled, ?_⟩
  cases h with
  | begin =>
      intro st hst
      cases hst
      decide
  | @answer m listener elapsedMs reply x st hst =>
      have hearly := hr.early st hst
      cases hp : ((r.task s.threshold listener).resume ⟨r.cancelled, m.stamp, elapsedMs⟩ st
          (reply st)).value with
      | waits next =>
          have hlate := UpdateTask.rank_of_resume_cancelled hr.cancelled hp
          omega
      | ended e => exact fun st hst => RunState.noConfusion hst
  | interrupt => exact fun st hst => RunState.noConfusion hst
  | crash => exact fun st hst => RunState.noConfusion hst
  | drop => exact fun st hst => RunState.noConfusion hst

theorem Step.stopping (hs : Step s d t) (hr : s.runs[i]? = some r) (h : r.Stopping) :
    ∃ q, t.runs[i]? = some q ∧ q.Stopping := by
  obtain ⟨q, hq, -⟩ := hs.effect.exists_run hr
  have same {r' : Run} (hr' : s.runs[i]? = some r') : r'.Stopping := by
    cases hr.symm.trans hr'
    exact h
  refine ⟨q, hq, ?_⟩
  cases hs.ran hq with
  | new hi => cases hi.symm.trans hr
  | kept hr' => exact same hr'
  | expired hr' => exact ⟨rfl, (same hr').early⟩
  | turned hr' _ hturn =>
      have hq := hturn.stopping (same hr')
      exact ⟨hq.cancelled, hq.early⟩

theorem call?_of_stopping {call : Call} (hq : x.target.runs[i]? = some q) (h : q.Stopping)
    (hcall : x.call? i = some call) :
    (∀ options files, call ≠ .process options files) ∧ ∀ u, call ≠ .save u := by
  simp only [Transition.call?, hq, Option.bind_eq_bind, Option.bind_some,
    Option.bind_eq_some_iff] at hcall
  obtain ⟨st, hst, hcall⟩ := hcall
  have hearly := h.early st (Run.stage?_eq_some hst)
  split at hcall
  · cases hcall
  · cases hcall
    cases st <;> simp [Stage.rank, Stage.call] at hearly ⊢

theorem Recorded.stopping_after (h : Recorded limits threshold (before ++ x :: after) s)
    (hx : x.deed = .expire i) (hnone : ∀ options files, .process options files ∉ callsOf i before) :
    (∃ r, s.runs[i]? = some r ∧ r.Stopping) ∧
      ∀ call ∈ callsOf i after,
        (∀ options files, call ≠ .process options files) ∧ ∀ u, call ≠ .save u := by
  generalize hall : before ++ x :: after = log at h
  induction h generalizing after with
  | new => simp at hall
  | @step log s t d h hs ih =>
      rcases List.eq_nil_or_concat after with rfl | ⟨after, y, rfl⟩
      · obtain ⟨rfl, hlast⟩ := List.append_inj' hall rfl
        obtain rfl := List.singleton_inj.1 hlast
        cases hx
        refine ⟨?_, by simp [callsOf]⟩
        obtain ⟨r, hr⟩ := hs.effect.exists_changed rfl
        obtain ⟨q, hq, -⟩ := hs.effect.exists_run hr
        refine ⟨q, hq, ?_⟩
        cases hs.ran hq with
        | new _ hd => exact absurd rfl hd
        | kept _ hd => exact absurd rfl hd
        | @expired r hr hlive =>
            refine ⟨rfl, ?_⟩
            intro st hst
            have hv := h.ventured.2 r hr
            have hst : r.state = .waits st := hst
            rw [hst] at hv
            rcases Nat.lt_or_ge st.rank 4 with hearly | hlate
            · exact hearly
            · obtain ⟨options, files, hmem⟩ := hv.process_mem_iff.2 hlate
              exact absurd hmem (hnone options files)
      · have hall : (before ++ x :: after) ++ [y] = log ++ [⟨s, d, t⟩] := by simpa using hall
        obtain ⟨rfl, hlast⟩ := List.append_inj' hall rfl
        obtain rfl := List.singleton_inj.1 hlast
        obtain ⟨⟨r, hr, hstopping⟩, hcalls⟩ := ih rfl
        obtain ⟨q, hq, hnext⟩ := hs.stopping hr hstopping
        refine ⟨⟨q, hq, hnext⟩, ?_⟩
        intro call hcall
        rw [List.concat_eq_append, callsOf_append_singleton, List.mem_append,
          Option.mem_toList] at hcall
        rcases hcall with hcall | hcall
        · exact hcalls call hcall
        · exact call?_of_stopping hq hnext hcall

theorem Recorded.dropped (h : Recorded limits threshold log s)
    (hdrop : .work i .drop ∈ deeds log) :
    ∃ r detail, s.runs[i]? = some r ∧ r.state = .ended (.crashed detail) := by
  induction h with
  | new => simp [deeds] at hdrop
  | @step log s t d h hs ih =>
      rw [deeds_append_singleton, List.mem_append, List.mem_singleton] at hdrop
      rcases hdrop with hdrop | rfl
      · obtain ⟨r, detail, hr, hend⟩ := ih hdrop
        obtain ⟨q, hq, -⟩ := hs.effect.exists_run hr
        have ended {r' : Run} (hr' : s.runs[i]? = some r') :
            r'.state = .ended (.crashed detail) ∧ r'.isLive = false := by
          cases hr.symm.trans hr'
          exact ⟨hend, by simp [Run.isLive, hend]⟩
        refine ⟨q, detail, hq, ?_⟩
        cases hs.ran hq with
        | new hi => cases hi.symm.trans hr
        | kept hr' => exact (ended hr').1
        | expired hr' => exact (ended hr').1
        | turned hr' hlive => cases (ended hr').2.symm.trans hlive
      · obtain ⟨r, q, permit, -, -, hturn, hq⟩ := hs.exists_turned
        cases hturn with
        | drop => exact ⟨_, _, hq, rfl⟩

theorem Concluded.outcome (hc : Concluded (deeds log) s i repository c)
    (h : Recorded limits threshold log s) :
    Outcome threshold log i repository c ∧ c ≠ .failed .cancelled := by
  cases hc with
  | timedOut hexpire => exact ⟨.timedOut hexpire, Conclusion.noConfusion⟩
  | @ended r e hexpire hr hrepository he =>
      have hne : conclusionOf i e ≠ .failed .cancelled := by
        intro heq
        cases e with
        | failed f =>
            cases heq
            exact (h.uncancelled hr hexpire).2 he
        | _ => cases heq
      refine ⟨?_, hne⟩
      by_cases hdrop : .work i .drop ∈ deeds log
      · obtain ⟨r', detail, hr', hend⟩ := h.dropped hdrop
        obtain rfl : r = r' := Option.some.inj (hr.symm.trans hr')
        cases he.symm.trans hend
        exact .crashed hexpire hdrop
      · obtain ⟨ps, hreplay, hmirrors⟩ := h.replay hr hexpire hdrop
        rw [hrepository] at hmirrors
        refine .returned hexpire hreplay ?_
        rw [hmirrors]
        exact he

theorem message_ne_of_syncAnswer {limit : Duration} {e : Refusal} (hc : c ≠ .failed .cancelled)
    (h : syncAnswer limit repository c = .error e) :
    e.message ≠ Failure.cancelled.message repository := by
  cases c with
  | reported => cases h
  | failed f =>
      cases h
      exact Failure.message_ne_cancelled (fun hf => hc (hf ▸ rfl)) repository
  | timedOut =>
      cases h
      exact Refusal.message_timeout_ne repository limit
  | crashed detail =>
      cases h
      exact Refusal.message_internal_ne repository detail

theorem error_finished_ne {m : Moment} {j : Job} (hc : c ≠ .failed .cancelled)
    (hj : j.error ≠ some (Failure.cancelled.message repository)) :
    (j.finished m (verdict repository c)).error ≠
      some (Failure.cancelled.message repository) := by
  have told {text : String} (h : text ≠ Failure.cancelled.message repository) :
      some text ≠ some (Failure.cancelled.message repository) := by simpa using h
  unfold Job.finished
  split
  · exact hj
  · cases c with
    | reported => exact hj
    | failed f =>
        exact told (Failure.message_ne_cancelled (fun hf => hc (hf ▸ rfl)) repository)
    | timedOut =>
        have hopens : Text.Opens "Update exceeded" "Update exceeded its time limit" := by decide
        exact told (hopens.ne (Failure.opens_opening .cancelled repository) (by decide))
    | crashed detail =>
        have hopens := Text.opens_append "Update task crashed: " detail
        exact told (hopens.ne (Failure.opens_opening .cancelled repository) (by decide))

theorem Recorded.error_ne_cancelled (h : Recorded limits threshold log s) {id : String} {j : Job}
    (hj : s.ledger.get? id = some j) :
    j.error ≠ some (Failure.cancelled.message j.repository) := by
  induction h generalizing j with
  | new => simp [Service.new, Ledger.new, Ledger.get?] at hj
  | @step log s t d h hs ih =>
      cases hs.written hj with
      | kept hj => exact ih hj
      | created => simp [Job.new]
      | moved _ hk =>
          rw [Job.error_advanced, Job.repository_advanced]
          exact ih hk
      | concluded hw hid hr hc hk =>
          have hrepository := h.reached.attributed.watched _ hw _ _ hid hk
          have hne := ((h.reached.attributed.concluded hw hr hc).outcome h).2
          rw [Job.repository_finished, hrepository]
          apply error_finished_ne hne
          rw [← hrepository]
          exact ih hk

theorem message_ne_of_acquire {m : Moment} {e : Refusal}
    (h : (s.acquire m repository).value.2 = .refused e) :
    e.message ≠ Failure.cancelled.message repository := by
  unfold acquire at h
  split at h
  · cases h
  · next denial hdenied =>
      cases denial with
      | inProgress =>
          cases h
          exact Refusal.message_inProgress_ne repository none
      | cooldown retryAfter =>
          dsimp only [refusal?] at h
          split at h
          · next r hr =>
              cases h
              exact Refusal.message_rateLimited_ne hr
          · cases h

theorem message_ne_of_triggerSync {m : Moment} {e : Refusal}
    (h : (s.triggerSync m repository).value.2 = .refused e) :
    e.message ≠ Failure.cancelled.message repository := by
  unfold triggerSync at h
  cases ho : s.ledger.outstanding? repository with
  | some j =>
      simp only [ho] at h
      cases h
      exact Refusal.message_inProgress_ne repository _
  | none =>
      rcases ha : (s.acquire m repository).value with ⟨u, a⟩
      cases a with
      | refused r =>
          simp only [ho, ha] at h
          cases h
          exact message_ne_of_acquire (congrArg Prod.snd ha)
      | _ =>
          simp only [ho, ha] at h
          cases h

theorem message_ne_of_triggerAsync? {m : Moment} {draws : List String} {e : Refusal}
    {x : Traced (Service × Admission JobAnswer)}
    (hx : s.triggerAsync? m draws repository = some x) (h : x.value.2 = .refused e) :
    e.message ≠ Failure.cancelled.message repository := by
  unfold triggerAsync? at hx
  cases ho : s.ledger.outstanding? repository with
  | some j =>
      simp only [ho] at hx
      cases hx
      cases h
  | none =>
      rcases ha : (s.acquire m repository).value with ⟨u, a⟩
      cases a with
      | admitted p =>
          simp only [ho, ha, Option.map_eq_some_iff] at hx
          obtain ⟨created, -, rfl⟩ := hx
          cases h
      | refused r =>
          simp only [ho, ha] at hx
          cases hx
          cases h
          exact message_ne_of_acquire (congrArg Prod.snd ha)
      | crashed detail =>
          simp only [ho, ha] at hx
          cases hx
          cases h

theorem Effect.settled_le (he : Effect s d t)
    (h : s.watches.countP (fun w => w.run = i) + n ≤ if i < s.runs.length then 1 else 0) :
    t.watches.countP (fun w => w.run = i) + (n + if d.settled? = some i then 1 else 0) ≤
      if i < t.runs.length then 1 else 0 := by
  have spawned {u : Watch} (hu : u.run = s.runs.length) :
      (s.watches ++ [u]).countP (fun w => w.run = i) + n ≤
        if i < s.runs.length + 1 then 1 else 0 := by
    rw [List.countP_append, List.countP_singleton, hu]
    by_cases heq : s.runs.length = i
    · subst heq
      simp only [Nat.lt_irrefl, if_false, decide_true, if_true, Nat.lt_add_one] at h ⊢
      omega
    · simp only [heq, decide_false, Bool.false_eq_true, if_false]
      split at h <;> split <;> omega
  cases he with
  | accept =>
      simp only [Deed.settled?, spawn, List.length_append, List.length_singleton, reduceCtorEq,
        if_false, Nat.add_zero]
      exact spawned rfl
  | launch =>
      simp only [Deed.settled?, spawn, List.length_append, List.length_singleton, reduceCtorEq,
        if_false, Nat.add_zero]
      exact spawned rfl
  | work => simpa [Deed.settled?] using h
  | @expire w r hw hr hlive =>
      have hsame (v : Watch) :
          (if v.run = w.run then { v with gaveUp := true } else v).run = v.run := by
        split <;> rfl
      simpa [Deed.settled?, List.countP_map, Function.comp_def, hsame] using h
  | @settle m w c hw =>
      have hmoved := Counting.countP_erase_add (p := fun v => decide (v.run = i)) hw
      simp only [watches_conclude, runs_conclude, Deed.settled?, Option.some.injEq,
        decide_eq_true_eq] at hmoved ⊢
      omega
  | @abandon j =>
      have hle : (s.abandon j).watches.countP (fun w => w.run = i) ≤
          s.watches.countP fun w => w.run = i :=
        List.filter_sublist.countP_le
      simp only [Deed.settled?, reduceCtorEq, if_false, Nat.add_zero]
      exact Nat.le_trans (Nat.add_le_add_right hle n) h
  | _ => simpa [Deed.settled?] using h

theorem Recorded.settled_once (h : Recorded limits threshold log s) (i : Nat) :
    log.countP (fun x => x.deed.settled? = some i) ≤ 1 := by
  suffices hcount : s.watches.countP (fun w => w.run = i) +
      log.countP (fun x => x.deed.settled? = some i) ≤ if i < s.runs.length then 1 else 0 by
    split at hcount <;> omega
  induction h with
  | new => simp [Service.new]
  | @step log s t d h hs ih =>
      have hstep := hs.effect.settled_le ih
      simpa [List.countP_append, List.countP_singleton] using hstep

theorem Recorded.exists_settle (h : Recorded limits threshold log s) {w : Watch}
    (hw : w ∈ s.watches)
    (hover : .expire w.run ∈ deeds log ∨ ∃ r e, s.runs[w.run]? = some r ∧ r.state = .ended e)
    (m : Moment) : ∃ x, s.settle? m w.run = some x := by
  obtain ⟨r, hr, -⟩ := h.reached.attributed.ran w hw
  obtain ⟨v, hv⟩ : ∃ v, s.watchOf? w.run = some v := by
    rw [← Option.isSome_iff_exists, watchOf?, List.find?_isSome]
    exact ⟨w, hw, by simp⟩
  have hrun : v.run = w.run := by simpa using List.find?_some hv
  have hgaveUp := h.reached.attributed.gaveUp v (List.mem_of_find?_eq_some hv)
  obtain ⟨c, hc⟩ : ∃ c, conclusion? v r = some c := by
    unfold conclusion?
    split
    · exact ⟨_, rfl⟩
    · next hon =>
        rcases hover with hexpire | ⟨r', e, hr', hend⟩
        · exact absurd (hgaveUp.2 (hrun ▸ hexpire)) hon
        · cases hr.symm.trans hr'
          exact ⟨conclusionOf v.run e, by simp [Run.ending?, hend]⟩
  exact ⟨s.conclude m v c, by simp [settle?, hv, hr, hc]⟩

theorem Recorded.settled_outcome (h : Recorded limits threshold log s) {m : Moment}
    {x : Traced (Service × Option SyncAnswer)} (hx : s.settle? m i = some x) :
    ∃ w c, w ∈ s.watches ∧ w.run = i ∧
      (∃ r, s.runs[i]? = some r ∧ r.repository = w.repository) ∧
      Outcome threshold log i w.repository c ∧ x = s.conclude m w c ∧
      (∀ answer, x.value.2 = some answer → Conveys limits.timeout w.repository c answer) ∧
      ∀ e, x.value.2 = some (.error e) → e.message ≠ Failure.cancelled.message w.repository := by
  obtain ⟨w, r, c, hw, rfl, hr, hc, rfl⟩ := settle?_cases hx
  obtain ⟨houtcome, hne⟩ := (h.reached.attributed.concluded hw hr hc).outcome h
  have told {answer : SyncAnswer} (h : (s.conclude m w c).value.2 = some answer) :
      syncAnswer s.limits.timeout w.repository c = answer := by
    unfold conclude at h
    split at h
    · exact Option.some.inj h
    · cases h
  refine ⟨w, c, hw, rfl, h.reached.attributed.ran w hw, houtcome, rfl, ?_, ?_⟩
  · intro answer hanswer
    rw [← told hanswer, h.reached.limits_eq]
    exact conveys_syncAnswer ..
  · intro e he
    exact message_ne_of_syncAnswer hne (told he)

theorem exists_save_of_answer {o : Origin} {head : HeadCommit} {changes : Comparison}
    {output : PipelineOutput} {reply : (st : Stage) → st.Reply} (hr : s.runs[i]? = some r)
    (hst : r.state = .waits (.processing o head changes))
    (hreply : reply (.processing o head changes) = (.ok output : Except Fault PipelineOutput))
    (hfits : Fits o.snapshot output) (m : Moment) (listener : Listener) (elapsedMs : UInt64) :
    ∃ y u, s.answerRun? m listener elapsedMs i reply = some y ∧
      AppliedTo o.snapshot head.sha output m.stamp u ∧
      (⟨s, .work i (.answer (.processing o head changes)), y.value⟩ : Transition).call? i =
        some (.save u) := by
  obtain ⟨u, hu⟩ := Option.isSome_iff_exists.1
    ((@applied?_isSome_iff o.snapshot head.sha output m.stamp).2 hfits)
  have hanswer : r.answer? s.threshold listener m.stamp elapsedMs reply =
      some (.quiet (r.goTo (.waits (.saving o head output u)))) := by
    simp only [Run.answer?, hst, UpdateTask.resume, hreply, UpdateTask.afterProcess, hu]
    rfl
  have hrun : s.answerRun? m listener elapsedMs i reply =
      some (s.putRun m i (r.goTo (.waits (.saving o head output u)))) := by
    simp only [answerRun?, hr, Option.bind_some, hanswer]
    rfl
  have hq : (s.putRun m i (r.goTo (.waits (.saving o head output u)))).value.runs[i]? =
      some (r.goTo (.waits (.saving o head output u))) := by
    rw [putRun_of_isLive rfl]
    exact List.getElem?_set_self (List.getElem?_eq_some_iff.1 hr).1
  refine ⟨_, u, hrun, appliedTo_of_applied? hu, ?_⟩
  exact call?_of_waits hr hq rfl (by simp [Run.stage?, hst])

theorem Recorded.exists_answered {st u : Stage} {reply : st.Reply}
    (h : Recorded limits threshold log s) (hr : s.runs[i]? = some r) (hst : r.state = .waits st)
    (hoff : r.cancelled = false) (hfollows : st.Follows threshold reply u) :
    ∃ log, Recorded limits threshold log
      { s with runs := s.runs.set i { r with state := .waits u } } := by
  rw [← h.threshold_eq] at hfollows
  obtain ⟨m, x, hx, ht⟩ := exists_answer hr hst hoff hfollows
  have hstage : s.runs[i]?.bind Run.stage? = some st := by simp [hr, Run.stage?, hst]
  rw [← ht]
  exact ⟨_, h.step (.answer hstage hx)⟩

/-- Whatever happens meanwhile, the trigger of a run comes to one thing: what the run comes to if
nobody cancels it, that its time was up, or that it crashed. A run whose time is up before it starts
the pipeline neither starts it nor saves anything; one that has started it goes on to save the new
commit. Until it ends no trigger starts another run of its repository or is told to wait. -/
theorem supervised_run_winds_down (h : Recorded limits threshold log s) (i : Nat) :
    ((∀ m x, s.settle? m i = some x → ∃ w c, w ∈ s.watches ∧ w.run = i ∧
        (∃ r, s.runs[i]? = some r ∧ r.repository = w.repository) ∧
        Outcome threshold log i w.repository c ∧ x = s.conclude m w c ∧
        (∀ answer, x.value.2 = some answer → Conveys limits.timeout w.repository c answer) ∧
        ∀ e, x.value.2 = some (.error e) →
          e.message ≠ Failure.cancelled.message w.repository) ∧
      log.countP (fun x => x.deed.settled? = some i) ≤ 1 ∧
      ∀ w ∈ s.watches, w.run = i →
        (.expire i ∈ deeds log ∨ ∃ r e, s.runs[i]? = some r ∧ r.state = .ended e) →
        ∀ m, ∃ x, s.settle? m i = some x) ∧
    ((∀ id j, s.ledger.get? id = some j →
        j.error ≠ some (Failure.cancelled.message j.repository)) ∧
      ∀ m draws repository e,
        ((s.triggerSync m repository).value.2 = .refused e ∨
          ∃ x, s.triggerAsync? m draws repository = some x ∧ x.value.2 = .refused e) →
        e.message ≠ Failure.cancelled.message repository) ∧
    (∀ before x after, log = before ++ x :: after → x.deed = .expire i →
      (∀ options files, .process options files ∉ callsOf i before) →
      ∀ call ∈ callsOf i after,
        (∀ options files, call ≠ .process options files) ∧ ∀ u, call ≠ .save u) ∧
    (∀ r, s.runs[i]? = some r →
      (∀ options files, .process options files ∈ callsOf i log →
        Committed r.repository (callsOf i log) options files r.state) ∧
      ∀ o head changes output (reply : (st : Stage) → st.Reply),
        r.state = .waits (.processing o head changes) →
        reply (.processing o head changes) = (.ok output : Except Fault PipelineOutput) →
        Fits o.snapshot output → ∀ m listener elapsedMs,
          ∃ y u, s.answerRun? m listener elapsedMs i reply = some y ∧
            AppliedTo o.snapshot head.sha output m.stamp u ∧
            (⟨s, .work i (.answer (.processing o head changes)), y.value⟩ : Transition).call? i =
              some (.save u)) ∧
    ∀ r, s.IsLive i r → ∀ m draws,
      (∃ job, (s.triggerSync m r.repository).value =
        (s, .refused (.inProgress r.repository job))) ∧
      ∃ x, s.triggerAsync? m draws r.repository = some x ∧ x.value.1 = s ∧
        (x.value.2 = .refused (.inProgress r.repository none) ∨
          ∃ j, s.ledger.outstanding? r.repository = some j ∧
            x.value.2 = .admitted (.outstanding j.id r.repository)) := by
  refine ⟨⟨fun m x hx => h.settled_outcome hx, h.settled_once i, ?_⟩,
    ⟨fun id j hj => h.error_ne_cancelled hj, ?_⟩, ?_, ?_, ?_⟩
  · rintro w hw rfl hover m
    exact h.exists_settle hw hover m
  · rintro m draws repository e (hrefused | ⟨x, hx, hrefused⟩)
    · exact message_ne_of_triggerSync hrefused
    · exact message_ne_of_triggerAsync? hx hrefused
  · rintro before x after rfl hx hnone
    exact (h.stopping_after hx hnone).2
  · intro r hr
    constructor
    · intro options files hmem
      exact (h.ventured.2 r hr).committed hmem
    · intro o head changes output reply hst hreply hfits m listener elapsedMs
      exact exists_save_of_answer hr hst hreply hfits m listener elapsedMs
  · intro r hr m draws
    have hbusy := (h.reached.guarded.inProgress_iff_holder r.repository).2 (.inl ⟨i, r, hr, rfl⟩)
    exact ⟨triggerSync_of_inProgress hbusy m, triggerAsync?_of_inProgress hbusy m draws⟩

theorem supervised_run_winds_down_past_processing :
    ∃ log s r o head changes, Recorded ⟨5, 0, 100, 10⟩ 100 log s ∧ .expire 0 ∈ deeds log ∧
      s.IsLive 0 r ∧ r.state = .waits (.processing o head changes) ∧
      (∃ m output y u, s.answerRun? m .silent 0 0
          (Stage.replyTo (.processing o head changes) (.ok output)) = some y ∧
        u.indexedSha = some head.sha ∧
        (⟨s, .work 0 (.answer (.processing o head changes)), y.value⟩ : Transition).call? 0 =
          some (.save u)) ∧
      ∀ m, ∃ job, (s.triggerSync m "a").value = (s, .refused (.inProgress "a" job)) := by
  let moment (seconds : Nat) : Moment := ⟨seconds, .ofEpoch 0 0⟩
  let o : Origin := ⟨{ Snapshot.fresh "a" "https://host/owner/repo" "main" "/work" with
    indexedSha := some "old" }, "old", ⟨"owner", "repo"⟩⟩
  let head : HeadCommit := ⟨"new", "message"⟩
  let changes : Comparison := ⟨"old", "new", 1, [.plain "file" .added], false⟩
  have accepted : Recorded ⟨5, 0, 100, 10⟩ 100 _ _ :=
    Recorded.new.step (@Step.accept _ (moment 0) "a" _ 0 rfl)
  have begun := accepted.step (@Step.begin _ 0 _ rfl)
  obtain ⟨_, loaded⟩ := begun.exists_answered (i := 0) (u := .resolving o) rfl rfl rfl
    (.resolving rfl rfl)
  obtain ⟨_, resolved⟩ := loaded.exists_answered (i := 0) (u := .comparing o head) rfl rfl rfl
    (.comparing (by decide))
  obtain ⟨_, compared⟩ := resolved.exists_answered (i := 0) (u := .pulling o head changes) rfl rfl
    rfl (.pulling (by decide) rfl)
  obtain ⟨_, pulled⟩ := compared.exists_answered (i := 0) (u := .processing o head changes) rfl rfl
    rfl .processing
  have expired := pulled.step (@Step.expire _ (moment 5) 0 _ rfl)
  let r : Run := ⟨"a", true, .waits (.processing o head changes), some ⟨"a"⟩⟩
  obtain ⟨-, -, -, hrun, hblocked⟩ := supervised_run_winds_down expired 0
  obtain ⟨y, u, hy, hu, hcall⟩ := (hrun r rfl).2 o head changes ⟨.zero, []⟩ _ rfl
    (Stage.replyTo_self _ _) (by decide) (moment 9) .silent 0
  have blocked := hblocked r ⟨rfl, rfl⟩
  refine ⟨_, _, r, o, head, changes, expired, by simp [deeds], ⟨rfl, rfl⟩, rfl,
    ⟨moment 9, ⟨.zero, []⟩, y, u, hy, hu.indexedSha, hcall⟩, fun m => (blocked m []).1⟩

end Service

end IndexRefresh
