import IndexRefresh.Proofs.Service.Jobs

namespace IndexRefresh

namespace Service

variable {limits : Limits} {threshold : UInt64} {history : List Deed} {s t : Service} {d : Deed}
  {w : Watch} {id : String} {j : Job}

theorem Effect.limits_eq (he : Effect s d t) : t.limits = s.limits := by
  cases he with
  | work =>
      unfold putRun
      split <;> rfl
  | settle =>
      unfold conclude
      split <;> rfl
  | _ => rfl

theorem Effect.threshold_eq (he : Effect s d t) : t.threshold = s.threshold := by
  cases he with
  | work =>
      unfold putRun
      split <;> rfl
  | settle =>
      unfold conclude
      split <;> rfl
  | _ => rfl

theorem Reached.limits_eq (h : Reached limits threshold history s) : s.limits = limits := by
  induction h with
  | new => rfl
  | step _ hs ih => exact hs.effect.limits_eq.trans ih

inductive Watched (s t : Service) : Deed → Watch → Prop where
  | kept {d : Deed} {w : Watch} (hw : w ∈ s.watches) (hd : d ≠ .expire w.run) : Watched s t d w
  | gaveUp {w : Watch} (hw : w ∈ s.watches) :
      Watched s t (.expire w.run) { w with gaveUp := true }
  | accepted {repository : String} {deadline : Duration} {permit : Permit}
      (hr : t.runs[s.runs.length]? = some (.new repository (some permit))) :
      Watched s t (.accept repository s.runs.length)
        ⟨s.runs.length, repository, .caller, deadline, false⟩
  | launched {l : Launch} {deadline : Duration} (hl : l ∈ s.launches)
      (hr : t.runs[s.runs.length]? = some (.new l.repository (some l.permit))) :
      Watched s t (.launch l.job s.runs.length)
        ⟨s.runs.length, l.repository, .job l.job, deadline, false⟩

theorem Effect.watched (he : Effect s d t) (hw : w ∈ t.watches) : Watched s t d w := by
  cases he with
  | decline => exact .kept hw Deed.noConfusion
  | accept =>
      rcases List.mem_append.1 hw with hw | hw
      · exact .kept hw Deed.noConfusion
      · rw [List.mem_singleton.1 hw]
        exact .accepted List.getElem?_concat_length
  | enter => exact .kept hw Deed.noConfusion
  | launch hl =>
      rcases List.mem_append.1 hw with hw | hw
      · exact .kept hw Deed.noConfusion
      · rw [List.mem_singleton.1 hw]
        exact .launched hl List.getElem?_concat_length
  | work =>
      rw [watches_putRun] at hw
      exact .kept hw Deed.noConfusion
  | @expire u r hu hr hlive =>
      obtain ⟨v, hv, rfl⟩ := List.mem_map.1 hw
      split
      · next heq =>
          rw [← heq]
          exact .gaveUp hv
      · next hne =>
          apply Watched.kept hv
          intro heq
          exact hne (Deed.expire.inj heq).symm
  | settle =>
      rw [watches_conclude] at hw
      exact .kept (List.mem_of_mem_erase hw) Deed.noConfusion
  | abandon => exact .kept (List.mem_filter.1 hw).1 Deed.noConfusion
  | sweep => exact .kept hw Deed.noConfusion

inductive Written (s : Service) : Deed → String → Job → Prop where
  | kept {d : Deed} {id : String} {j : Job} (hj : s.ledger.get? id = some j)
      (hd : ∀ repository, d ≠ .enter repository id) : Written s d id j
  | created {m : Moment} {repository id : String} (hfree : s.ledger.isOpen id = false) :
      Written s (.enter repository id) id (.new id repository m)
  | moved {m : Moment} {l : Launch} {i : Nat} {j : Job} (hl : l ∈ s.launches)
      (hj : s.ledger.get? l.job = some j) :
      Written s (.launch l.job i) l.job (j.advanced m .running)
  | concluded {m : Moment} {w : Watch} {r : Run} {c : Conclusion} {id : String} {j : Job}
      (hw : w ∈ s.watches) (hid : w.client = .job id) (hr : s.runs[w.run]? = some r)
      (hc : conclusion? w r = some c) (hj : s.ledger.get? id = some j) :
      Written s (.settle w.run none) id (j.finished m (verdict w.repository c))

theorem Effect.written (he : Effect s d t) (hd : ∀ i answer, d ≠ .settle i answer)
    (hj : t.ledger.get? id = some j) : Written s d id j := by
  cases he with
  | decline => exact .kept hj fun _ => Deed.noConfusion
  | accept => exact .kept hj fun _ => Deed.noConfusion
  | @enter m repository draws x hnone hfree hx =>
      rw [(Ledger.get?_create? hx).2] at hj
      split at hj
      · next heq =>
          cases hj
          rw [← heq]
          exact .created (heq ▸ Ledger.isOpen_of_create? hx)
      · next hne =>
          apply Written.kept (Ledger.get?_of_get?_evict hj)
          intro other heq
          exact hne (Deed.enter.inj heq).2.symm
  | @launch m l hl =>
      change (s.ledger.advance m l.job .running).value.1.get? id = _ at hj
      rw [Ledger.get?_advance] at hj
      split at hj
      · next heq =>
          obtain ⟨k, hk, rfl⟩ := Option.map_eq_some_iff.1 hj
          rw [heq]
          exact .moved hl hk
      · exact .kept hj fun _ => Deed.noConfusion
  | work =>
      rw [ledger_putRun] at hj
      exact .kept hj fun _ => Deed.noConfusion
  | expire => exact .kept hj fun _ => Deed.noConfusion
  | settle => exact absurd rfl (hd _ _)
  | abandon => exact .kept hj fun _ => Deed.noConfusion
  | sweep => exact .kept (Ledger.get?_of_get?_evict hj) fun _ => Deed.noConfusion

theorem Step.written (hs : Step s d t) (hj : t.ledger.get? id = some j) : Written s d id j := by
  have he := hs.effect
  cases hs with
  | settle h =>
      obtain ⟨w, r, c, hw, rfl, hr, hc, rfl⟩ := settle?_cases h
      unfold conclude at hj ⊢
      cases hclient : w.client with
      | caller =>
          simp only [hclient] at hj
          exact .kept hj fun _ => Deed.noConfusion
      | job other =>
          simp only [hclient, Ledger.get?_finish] at hj ⊢
          split at hj
          · next heq =>
              obtain ⟨k, hk, rfl⟩ := Option.map_eq_some_iff.1 hj
              rw [heq]
              exact .concluded hw hclient hr hc hk
          · exact .kept hj fun _ => Deed.noConfusion
  | _ => exact he.written (fun _ _ => Deed.noConfusion) hj

theorem Written.exists_before (h : Written s d id j) (hopen : s.ledger.isOpen id = true) :
    ∃ k, s.ledger.get? id = some k ∧ j.repository = k.repository := by
  cases h with
  | kept hj => exact ⟨j, hj, rfl⟩
  | created hfree =>
      rw [hfree] at hopen
      cases hopen
  | moved _ hj => exact ⟨_, hj, Job.repository_advanced _ _ _⟩
  | concluded _ _ _ _ hj => exact ⟨_, hj, Job.repository_finished _ _ _⟩

theorem Effect.launch_cases (he : Effect s d t) {l : Launch} (hl : l ∈ t.launches) :
    l ∈ s.launches ∨ d = .enter l.repository l.job := by
  cases he with
  | enter =>
      rcases List.mem_append.1 hl with hl | hl
      · exact .inl hl
      · rw [List.mem_singleton.1 hl]
        exact .inr rfl
  | launch => exact .inl (List.mem_of_mem_erase hl)
  | work =>
      rw [launches_putRun] at hl
      exact .inl hl
  | settle =>
      rw [launches_conclude] at hl
      exact .inl hl
  | _ => exact .inl hl

/-- A watch gives up when its run's time is up, and who watches a run is told of the repository that
the run updates. A record says nothing of the end of a job that is not finished. -/
structure Attributed (history : List Deed) (s : Service) : Prop where
  expired : ∀ i, .expire i ∈ history → i < s.runs.length
  gaveUp : ∀ w ∈ s.watches, w.gaveUp = true ↔ .expire w.run ∈ history
  ran : ∀ w ∈ s.watches, ∃ r, s.runs[w.run]? = some r ∧ r.repository = w.repository
  launched : ∀ l ∈ s.launches, ∀ j, s.ledger.get? l.job = some j → j.repository = l.repository
  watched : ∀ w ∈ s.watches, ∀ id j, w.client = .job id → s.ledger.get? id = some j →
    j.repository = w.repository
  blank : ∀ id j, s.ledger.get? id = some j → j.status.isTerminal = false →
    j.result = none ∧ j.error = none

theorem attributed_new (limits : Limits) (threshold : UInt64) :
    Attributed [] (new limits threshold) where
  expired i hi := by cases hi
  gaveUp w hw := by cases hw
  ran w hw := by cases hw
  launched l hl := by cases hl
  watched w hw := by cases hw
  blank id j hj := by simp [new, Ledger.new, Ledger.get?] at hj

theorem Effect.expired (he : Effect s d t) (h : Attributed history s) {i : Nat}
    (hi : .expire i ∈ history ++ [d]) : i < t.runs.length := by
  apply Nat.lt_of_lt_of_le _ he.length_le
  rcases List.mem_append.1 hi with hi | hi
  · exact h.expired i hi
  · rw [← List.mem_singleton.1 hi] at he
    cases he with
    | expire hw hr hlive => exact (List.getElem?_eq_some_iff.1 hr).1

theorem Watched.gaveUp_iff (hw : Watched s t d w) (h : Attributed history s) :
    w.gaveUp = true ↔ .expire w.run ∈ history ++ [d] := by
  -- a new watch gets a new run, whose time cannot have been up before
  have fresh (hd : d ≠ .expire s.runs.length) : .expire s.runs.length ∉ history ++ [d] := by
    intro hmem
    rcases List.mem_append.1 hmem with hmem | hmem
    · exact Nat.lt_irrefl _ (h.expired _ hmem)
    · exact hd (List.mem_singleton.1 hmem).symm
  cases hw with
  | kept hw hd =>
      rw [h.gaveUp w hw, List.mem_append, List.mem_singleton]
      exact ⟨.inl, fun hmem => hmem.resolve_right fun heq => hd heq.symm⟩
  | gaveUp hw => simp
  | accepted => simpa using fresh Deed.noConfusion
  | launched => simpa using fresh Deed.noConfusion

theorem Effect.ran (he : Effect s d t) (h : Attributed history s) (hw : w ∈ t.watches) :
    ∃ r, t.runs[w.run]? = some r ∧ r.repository = w.repository := by
  have old (v : Watch) (hv : v ∈ s.watches) :
      ∃ r, t.runs[v.run]? = some r ∧ r.repository = v.repository := by
    obtain ⟨r, hr, hrepository⟩ := h.ran v hv
    obtain ⟨q, hq, hsame⟩ := he.exists_run hr
    exact ⟨q, hq, hsame.trans hrepository⟩
  cases he.watched hw with
  | kept hv => exact old w hv
  | @gaveUp v hv => exact old v hv
  | accepted hr => exact ⟨_, hr, rfl⟩
  | launched _ hr => exact ⟨_, hr, rfl⟩

theorem Step.launched (hs : Step s d t) (ht : Tasked history s) (h : Attributed history s)
    {l : Launch} (hl : l ∈ t.launches) (hj : t.ledger.get? l.job = some j) :
    j.repository = l.repository := by
  have hwritten := hs.written hj
  rcases hs.effect.launch_cases hl with hl | rfl
  · obtain ⟨k, hk, hsame⟩ := hwritten.exists_before (ht.of_mem_launches hl).1
    exact hsame.trans (h.launched l hl k hk)
  · cases hwritten with
    | kept _ hd => exact absurd rfl (hd _)
    | created => rfl

theorem Step.watched (hs : Step s d t) (ht : Tasked history s) (h : Attributed history s)
    (hw : w ∈ t.watches) (hid : w.client = .job id) (hj : t.ledger.get? id = some j) :
    j.repository = w.repository := by
  have hwritten := hs.written hj
  have old (v : Watch) (hv : v ∈ s.watches) (hid : v.client = .job id) :
      j.repository = v.repository := by
    obtain ⟨k, hk, hsame⟩ := hwritten.exists_before (ht.isOpen_of_client hv hid)
    exact hsame.trans (h.watched v hv id k hid hk)
  cases hs.effect.watched hw with
  | kept hv => exact old w hv hid
  | @gaveUp v hv => exact old v hv hid
  | accepted => cases hid
  | launched hl =>
      cases hid
      obtain ⟨k, hk, hsame⟩ := hwritten.exists_before (ht.of_mem_launches hl).1
      exact hsame.trans (h.launched _ hl k hk)

theorem Written.blank (hj : Written s d id j) (h : Attributed history s)
    (hopen : j.status.isTerminal = false) : j.result = none ∧ j.error = none := by
  cases hj with
  | kept hj => exact h.blank id j hj hopen
  | created => exact ⟨rfl, rfl⟩
  | moved _ hk =>
      rw [Job.isTerminal_advanced_running] at hopen
      rw [Job.result_advanced, Job.error_advanced]
      exact h.blank _ _ hk hopen
  | concluded =>
      rw [Job.isTerminal_finished] at hopen
      cases hopen

theorem Step.attributed (hs : Step s d t) (ht : Tasked history s) (h : Attributed history s) :
    Attributed (history ++ [d]) t where
  expired _ hi := hs.effect.expired h hi
  gaveUp _ hw := (hs.effect.watched hw).gaveUp_iff h
  ran _ hw := hs.effect.ran h hw
  launched _ hl _ hj := hs.launched ht h hl hj
  watched _ hw _ _ hid hj := hs.watched ht h hw hid hj
  blank _ _ hj hopen := (hs.written hj).blank h hopen

theorem Reached.attributed (h : Reached limits threshold history s) : Attributed history s := by
  induction h with
  | new => exact attributed_new limits threshold
  | step h hs ih => exact hs.attributed h.tasked ih

end Service

end IndexRefresh
