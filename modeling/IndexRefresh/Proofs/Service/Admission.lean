import IndexRefresh.Proofs.Service.Permits
import IndexRefresh.Proofs.Service.Watching

namespace IndexRefresh

namespace Guard

theorem isInProgress_setCooldown (g : Guard) (repository : String) (cooldown : Duration)
    (other : String) :
    (g.setCooldown repository cooldown).isInProgress other = g.isInProgress other := by
  unfold isInProgress
  rw [setCooldown, lookup_put]
  split
  · next h => rw [h]
  · rfl

theorem completedAt_setCooldown (g : Guard) (repository : String) (cooldown : Duration)
    (other : String) :
    ((g.setCooldown repository cooldown).lookup other).completedAt =
      (g.lookup other).completedAt := by
  rw [setCooldown, lookup_put]
  split
  · next h => rw [h]
  · rfl

theorem completedAt_markInProgress (g : Guard) (repository other : String) :
    ((g.markInProgress repository).value.lookup other).completedAt =
      (g.lookup other).completedAt := by
  rw [markInProgress, lookup_put]
  split
  · next h => rw [h]
  · rfl

theorem cooldown_markInProgress (g : Guard) (repository other : String) :
    ((g.markInProgress repository).value.lookup other).cooldown = (g.lookup other).cooldown := by
  rw [markInProgress, lookup_put]
  split
  · next h => rw [h]
  · rfl

theorem cooldown_release (g : Guard) (now : Duration) (p : Permit) (other : String) :
    ((g.release now p).value.lookup other).cooldown = (g.lookup other).cooldown := by
  rw [release, markComplete, lookup_put]
  split
  · next h => rw [h]
  · rfl

theorem completedAt_release (g : Guard) (now : Duration) (p : Permit) (other : String) :
    ((g.release now p).value.lookup other).completedAt =
      if other = p.repository then some now else (g.lookup other).completedAt := by
  rw [release, markComplete, lookup_put]
  split <;> rfl

end Guard

theorem Refusal.exists_retryAfterSeconds {d n : Nat} (hpos : 0 < d) (hle : d ≤ Duration.ofSeconds n)
    (hn : n < UInt64.size) :
    ∃ s : UInt64, Refusal.retryAfterSeconds? d = some s ∧ 1 ≤ s ∧
      ∀ k, d ≤ Duration.ofSeconds k ↔ s.toNat ≤ k := by
  unfold Duration.ofSeconds at hle
  have hceil : ∃ k, (if d % 1000000000 = 0 then max (Duration.seconds d) 1
      else Duration.seconds d + 1) = k ∧ ∀ j, d ≤ j * 1000000000 ↔ k ≤ j := by
    refine ⟨_, rfl, fun j => ?_⟩
    unfold Duration.seconds
    split <;> omega
  obtain ⟨k, hk, hleast⟩ := hceil
  have hfits : k < UInt64.size := Nat.lt_of_le_of_lt ((hleast n).1 hle) hn
  have hk' : k.toUInt64.toNat = k := UInt64.toNat_ofNat_of_lt' hfits
  have hone : 1 ≤ k := by
    have hzero := (hleast 0).2
    omega
  refine ⟨k.toUInt64, ?_, ?_, fun j => ?_⟩
  · unfold Refusal.retryAfterSeconds?
    simp only [hk, hfits, if_true]
  · rw [UInt64.le_iff_toNat_le, hk']
    exact hone
  · rw [hk']
    exact hleast j

theorem Refusal.exists_rateLimited {d : Nat} (h : d ≤ Duration.ofSeconds (UInt64.size - 1))
    (repository : String) :
    ∃ r, Refusal.rateLimited? repository d = some r ∧ r.code = .rateLimited := by
  have hfits : ∃ seconds, Refusal.retryAfterSeconds? d = some seconds := by
    by_cases hpos : 0 < d
    · obtain ⟨s, hs, -⟩ := Refusal.exists_retryAfterSeconds hpos h (by decide)
      exact ⟨s, hs⟩
    · rw [Nat.eq_zero_of_not_pos hpos]
      exact ⟨1, by decide⟩
  obtain ⟨seconds, hseconds⟩ := hfits
  exact ⟨_, by rw [Refusal.rateLimited?, hseconds]; rfl, rfl⟩

namespace Service

/-- What a new service comes to when the cooldown of a repository may be set at any time. -/
inductive Regulated (limits : Limits) (threshold : UInt64) : List Deed → Service → Prop where
  | new : Regulated limits threshold [] (.new limits threshold)
  | step {history : List Deed} {s t : Service} {d : Deed}
      (h : Regulated limits threshold history s) (hs : Step s d t) :
      Regulated limits threshold (history ++ [d]) t
  | setCooldown {history : List Deed} {s : Service} {repository : String} {cooldown : Duration}
      (h : Regulated limits threshold history s) :
      Regulated limits threshold history
        { s with guard := s.guard.setCooldown repository cooldown }

def HasJob (s : Service) (repository : String) : Prop :=
  ∃ id j, s.ledger.get? id = some j ∧ j.repository = repository ∧ j.status.isTerminal = false

def HasRun (s : Service) (repository : String) : Prop :=
  ∃ r ∈ s.runs, r.permit = some ⟨repository⟩

def HasEnded (s : Service) (repository : String) : Prop :=
  ∃ r ∈ s.runs, r.repository = repository ∧ r.isLive = false

def IsCooling (s : Service) (now : Duration) (repository : String) : Prop :=
  ∃ time, (s.guard.lookup repository).completedAt = some time ∧
    now - time < (s.guard.lookup repository).cooldown

variable {limits : Limits} {threshold : UInt64} {history : List Deed} {s t : Service} {d : Deed}
  {repository : String} {m : Moment} {i : Nat} {r r' : Run}

theorem outstanding?_eq_none_iff :
    s.ledger.outstanding? repository = none ↔ ¬s.HasJob repository := by
  rw [Ledger.outstanding?_eq_none_iff]
  constructor
  · rintro hall ⟨id, j, hj, rfl, hopen⟩
    have hout := hall id j hj
    simp [Job.isOutstanding, hopen] at hout
  · intro hnone id j hj
    cases hout : j.isOutstanding repository with
    | false => rfl
    | true =>
        simp only [Job.isOutstanding, Bool.and_eq_true, beq_iff_eq, Bool.not_eq_true'] at hout
        exact absurd ⟨id, j, hj, hout.1, hout.2⟩ hnone

theorem Regulated.invariants (h : Regulated limits threshold history s) :
    s.Guarded ∧ Tasked history s ∧ Attributed history s := by
  induction h with
  | new => exact ⟨guarded_new .., tasked_new .., attributed_new ..⟩
  | step _ hs ih =>
      obtain ⟨hg, ht, ha⟩ := ih
      exact ⟨hs.effect.guarded hg, hs.effect.tasked ht, hs.attributed ht ha⟩
  | setCooldown _ ih =>
      obtain ⟨hg, ht, ha⟩ := ih
      refine ⟨⟨fun other => ?_, hg.owned, hg.launched⟩,
        ⟨ht.sound, ht.counted, ht.entered, ht.started, ht.owned⟩,
        ⟨ha.expired, ha.gaveUp, ha.ran, ha.launched, ha.watched, ha.blank⟩⟩
      rw [Guard.isInProgress_setCooldown]
      exact hg.counted other

theorem hasEnded_append_live (hlive : r.isLive = true) :
    (∃ q ∈ s.runs ++ [r], q.repository = repository ∧ q.isLive = false) ↔
      s.HasEnded repository := by
  constructor
  · rintro ⟨q, hq, hrepository, hend⟩
    rcases List.mem_append.1 hq with hq | hq
    · exact ⟨q, hq, hrepository, hend⟩
    · rw [List.mem_singleton.1 hq, hlive] at hend
      cases hend
  · rintro ⟨q, hq, hend⟩
    exact ⟨q, List.mem_append_left _ hq, hend⟩

theorem hasEnded_set (hr : s.runs[i]? = some r) (hlive : r.isLive = true) :
    (∃ q ∈ s.runs.set i r', q.repository = repository ∧ q.isLive = false) ↔
      r'.repository = repository ∧ r'.isLive = false ∨ s.HasEnded repository := by
  have hlt := (List.getElem?_eq_some_iff.1 hr).1
  constructor
  · rintro ⟨q, hq, hrepository, hend⟩
    rcases List.mem_or_eq_of_mem_set hq with hq | rfl
    · exact .inr ⟨q, hq, hrepository, hend⟩
    · exact .inl ⟨hrepository, hend⟩
  · rintro (hnew | ⟨q, hq, hrepository, hend⟩)
    · exact ⟨r', List.mem_of_getElem? (List.getElem?_set_self hlt), hnew⟩
    · obtain ⟨j, hj⟩ := List.mem_iff_getElem?.1 hq
      have hne : i ≠ j := by
        rintro rfl
        cases hr.symm.trans hj
        rw [hlive] at hend
        cases hend
      exact ⟨q, List.mem_of_getElem? ((List.getElem?_set_ne hne).trans hj), hrepository, hend⟩

theorem Effect.completedAt_iff (he : Effect s d t) (hg : s.Guarded)
    (h : ∀ repository, (s.guard.lookup repository).completedAt.isSome = true ↔
      s.HasEnded repository) (repository : String) :
    (t.guard.lookup repository).completedAt.isSome = true ↔ t.HasEnded repository := by
  cases he with
  | decline => exact h repository
  | accept =>
      dsimp only [spawn]
      rw [Guard.completedAt_markInProgress, h repository]
      exact (hasEnded_append_live rfl).symm
  | enter =>
      dsimp only
      rw [Guard.completedAt_markInProgress]
      exact h repository
  | launch => exact (h repository).trans (hasEnded_append_live rfl).symm
  | @work m i w r r' hr hlive hrepository hpermit _ =>
      cases hlive' : r'.isLive with
      | true =>
          rw [putRun_of_isLive hlive']
          refine (h repository).trans ?_
          unfold HasEnded
          dsimp only
          rw [hasEnded_set hr hlive, hlive']
          simp [HasEnded]
      | false =>
          have hper := hpermit.trans (hg.permit_of_isLive ⟨hr, hlive⟩)
          have hends : ({ r' with permit := none } : Run).isLive = false := hlive'
          simp only [putRun, hlive', hper, Traced.value_map, Guard.completedAt_release]
          unfold HasEnded
          dsimp only
          rw [hasEnded_set hr hlive, hends, hrepository]
          split
          · next heq => simp [heq]
          · next hne => simpa [Ne.symm hne] using h repository
  | @expire w r hw hr hlive =>
      have hlive' : r.cancel.isLive = true := hlive
      refine (h repository).trans ?_
      unfold HasEnded
      dsimp only
      rw [hasEnded_set hr hlive, hlive']
      simp [HasEnded]
  | settle => simpa [HasEnded] using h repository
  | abandon => exact h repository
  | sweep => exact h repository

theorem Regulated.completedAt_iff (h : Regulated limits threshold history s)
    (repository : String) :
    (s.guard.lookup repository).completedAt.isSome = true ↔ s.HasEnded repository := by
  induction h generalizing repository with
  | new => simp [Service.new, Guard.new, Guard.lookup, HasEnded]
  | step h hs ih => exact hs.effect.completedAt_iff h.invariants.1 ih repository
  | setCooldown _ ih =>
      dsimp only
      rw [Guard.completedAt_setCooldown]
      exact ih repository

theorem isInProgress_iff_hasRun (hg : s.Guarded) (ht : Tasked history s) (ha : Attributed history s)
    (hnone : ¬s.HasJob repository) :
    s.guard.isInProgress repository = true ↔ s.HasRun repository := by
  rw [hg.inProgress_iff_holder]
  constructor
  · rintro (⟨i, r, hr, rfl⟩ | ⟨l, hl, rfl⟩)
    · exact ⟨r, List.mem_of_getElem? hr.1, hg.permit_of_isLive hr⟩
    -- a background task that has not begun goes with a job that is not finished
    · obtain ⟨j, hj, hopen⟩ := Ledger.isOpen_iff.1 (ht.of_mem_launches hl).1
      exact absurd ⟨l.job, j, hj, ha.launched l hl j hj, hopen⟩ hnone
  · rintro ⟨r, hr, hpermit⟩
    obtain ⟨i, hi⟩ := List.mem_iff_getElem?.1 hr
    have hown := hg.owned r hr
    rw [hpermit] at hown
    split at hown
    · next hlive =>
        cases hown
        exact .inl ⟨i, r, ⟨hi, hlive⟩, rfl⟩
    · cases hown

theorem acquire_of_cooling (hfree : s.guard.isInProgress repository = false)
    (hcooling : s.IsCooling m.instant repository)
    (hcooldown : (s.guard.lookup repository).cooldown ≤ Duration.ofSeconds (UInt64.size - 1)) :
    ∃ r, r.code = .rateLimited ∧ (s.acquire m repository).value = (s, .refused r) := by
  obtain ⟨time, htime, hlt⟩ := hcooling
  have hdenial := Guard.denial?_of_free hfree m.instant
  rw [htime, Option.bind_some, if_pos hlt] at hdenial
  have hle : (s.guard.lookup repository).cooldown - (m.instant - time) ≤
      Duration.ofSeconds (UInt64.size - 1) := Nat.le_trans (Nat.sub_le _ _) hcooldown
  obtain ⟨r, hr, hcode⟩ := Refusal.exists_rateLimited hle repository
  refine ⟨r, hcode, ?_⟩
  simp [acquire, Guard.acquire, hdenial, refusal?, hr]

theorem acquire_of_free (hfree : s.guard.isInProgress repository = false)
    (hwarm : ¬s.IsCooling m.instant repository) :
    (s.acquire m repository).value =
      ({ s with guard := (s.guard.markInProgress repository).value }, .admitted ⟨repository⟩) := by
  have hdenial : s.guard.denial? m.instant repository = none := by
    rw [Guard.denial?_of_free hfree]
    cases htime : (s.guard.lookup repository).completedAt with
    | none => rfl
    | some time => exact if_neg fun hlt => hwarm ⟨time, htime, hlt⟩
  simp [acquire, Guard.acquire, hdenial, Guard.markInProgress]

theorem triggers_of_refused {refusal : Refusal} (hnone : s.ledger.outstanding? repository = none)
    (h : (s.acquire m repository).value = (s, .refused refusal)) (draws : List String) :
    (s.triggerSync m repository).value = (s, .refused refusal) ∧
      ∃ x, s.triggerAsync? m draws repository = some x ∧ x.value = (s, .refused refusal) := by
  unfold triggerSync triggerAsync?
  simp only [hnone, h, true_and]
  exact ⟨_, rfl, rfl⟩

theorem triggerSync_of_outstanding {j : Job} (h : s.ledger.outstanding? repository = some j)
    (m : Moment) :
    (s.triggerSync m repository).value = (s, .refused (.inProgress repository (some j.id))) := by
  simp only [triggerSync, h]

theorem Effect.cooldown_eq (he : Effect s d t) (repository : String) :
    (t.guard.lookup repository).cooldown = (s.guard.lookup repository).cooldown := by
  cases he with
  | accept => exact Guard.cooldown_markInProgress ..
  | enter => exact Guard.cooldown_markInProgress ..
  | work =>
      unfold putRun
      split
      · exact Guard.cooldown_release ..
      · rfl
  | settle => rw [guard_conclude]
  | _ => rfl

theorem Reached.cooldown_eq (h : Reached limits threshold history s) (repository : String) :
    (s.guard.lookup repository).cooldown = limits.cooldown := by
  induction h with
  | new => simp [Service.new, Guard.new, Guard.lookup]
  | step _ hs ih => exact (hs.effect.cooldown_eq repository).trans ih

theorem triggerSync_of_free (hnone : s.ledger.outstanding? repository = none)
    (hfree : s.guard.isInProgress repository = false)
    (hwarm : ¬s.IsCooling m.instant repository) :
    ∃ t, (s.triggerSync m repository).value = (t, .admitted s.runs.length) ∧
      t.runs = s.runs ++ [.new repository (some ⟨repository⟩)] ∧ t.ledger = s.ledger ∧
      t.launches = s.launches := by
  unfold triggerSync
  simp only [hnone, acquire_of_free hfree hwarm]
  exact ⟨_, rfl, rfl, rfl, rfl⟩

theorem Regulated.triggerAsync?_of_free (h : Regulated limits threshold history s)
    (hnone : s.ledger.outstanding? repository = none)
    (hfree : s.guard.isInProgress repository = false)
    (hwarm : ¬s.IsCooling m.instant repository) {draws : List String}
    (hdraw : ∃ id ∈ draws, (s.ledger.evict m.instant).value.1.get? id = none) :
    ∃ x t a, s.triggerAsync? m draws repository = some x ∧ x.value = (t, .admitted a) ∧
      a.repository = repository ∧ t.runs = s.runs ∧
      t.ledger.get? a.jobId = some (.new a.jobId repository m) ∧
      t.launches = s.launches ++ [⟨a.jobId, repository, ⟨repository⟩⟩] ∧
      ∀ later, ∃ y, t.launch? later a.jobId = some y ∧ y.value.2 = s.runs.length ∧
        y.value.1.runs = s.runs ++ [.new repository (some ⟨repository⟩)] := by
  obtain ⟨created, hcreated⟩ := Ledger.exists_create? hdraw repository
  have hstarted : ∃ x, s.triggerAsync? m draws repository = some x ∧ x.value =
      ({ s with
          guard := (s.guard.markInProgress repository).value
          ledger := created.value.1
          launches := s.launches ++ [⟨created.value.2, repository, ⟨repository⟩⟩] },
        .admitted (.started created.value.2 repository)) := by
    unfold triggerAsync?
    simp only [hnone, acquire_of_free hfree hwarm, hcreated]
    exact ⟨_, rfl, rfl⟩
  obtain ⟨x, hx, hvalue⟩ := hstarted
  have hnext := (h.step (.enter hnone hx hvalue)).invariants.2.1
  refine ⟨x, _, .started created.value.2 repository, hx, hvalue, rfl, rfl, ?_, rfl,
    fun later => ?_⟩
  · exact ((Ledger.get?_create? hcreated).2 _).trans (if_pos rfl)
  · exact hnext.launch? (List.mem_append_right _ (List.mem_singleton_self _)) later

/-- An outstanding job is named before a run that goes on, and a run that goes on before the
cooldown. -/
theorem admission_by_precedence (h : Regulated limits threshold history s) (repository : String)
    (m : Moment) (draws : List String) :
    (∀ id j, s.ledger.get? id = some j → j.repository = repository →
      j.status.isTerminal = false →
      (∃ e, (s.triggerSync m repository).value = (s, .refused e) ∧ e.code = .updateInProgress ∧
        e.hint = s!"Poll job {id} for the result of the running update") ∧
      ∃ x a, s.triggerAsync? m draws repository = some x ∧ x.value = (s, .admitted a) ∧
        a.jobId = id ∧ a.repository = repository) ∧
    (¬s.HasJob repository → s.HasRun repository →
      ∃ e, e.code = .updateInProgress ∧ e.hint = "Retry once the running update has finished" ∧
        (s.triggerSync m repository).value = (s, .refused e) ∧
        ∃ x, s.triggerAsync? m draws repository = some x ∧ x.value = (s, .refused e)) ∧
    (¬s.HasJob repository → ¬s.HasRun repository → s.IsCooling m.instant repository →
      (s.guard.lookup repository).cooldown ≤ Duration.ofSeconds (UInt64.size - 1) →
      ∃ refusal, refusal.code = .rateLimited ∧
        (s.triggerSync m repository).value = (s, .refused refusal) ∧
        ∃ x, s.triggerAsync? m draws repository = some x ∧ x.value = (s, .refused refusal)) ∧
    (¬s.HasJob repository → ¬s.HasRun repository → ¬s.IsCooling m.instant repository →
      (∃ t, (s.triggerSync m repository).value = (t, .admitted s.runs.length) ∧
        t.runs = s.runs ++ [.new repository (some ⟨repository⟩)] ∧ t.ledger = s.ledger ∧
        t.launches = s.launches) ∧
      ((∃ id ∈ draws, (s.ledger.evict m.instant).value.1.get? id = none) →
        ∃ x t a, s.triggerAsync? m draws repository = some x ∧ x.value = (t, .admitted a) ∧
          a.repository = repository ∧ t.runs = s.runs ∧
          t.ledger.get? a.jobId = some (.new a.jobId repository m) ∧
          t.launches = s.launches ++ [⟨a.jobId, repository, ⟨repository⟩⟩] ∧
          ∀ later, ∃ y, t.launch? later a.jobId = some y ∧ y.value.2 = s.runs.length ∧
            y.value.1.runs = s.runs ++ [.new repository (some ⟨repository⟩)])) ∧
    (∀ i r, s.IsLive i r → r.repository = repository →
      (∃ e, (s.triggerSync m repository).value.2 = .refused e ∧ e.code = .updateInProgress) ∧
      ∀ x e, s.triggerAsync? m draws repository = some x → x.value.2 = .refused e →
        e.code = .updateInProgress) ∧
    ((∀ i, (s.triggerSync m repository).value.2 ≠ .admitted i) →
      (s.triggerSync m repository).value.1 = s) ∧
    (∀ x, s.triggerAsync? m draws repository = some x →
      (s.HasJob repository ∨ ∀ a, x.value.2 ≠ .admitted a) → x.value.1 = s) ∧
    ((s.guard.lookup repository).completedAt.isSome = true ↔ s.HasEnded repository) ∧
    ∀ u : UpdateSettings, limits = .ofSettings u → Reached limits threshold history s →
      (s.guard.lookup repository).cooldown = .ofSeconds u.cooldownSecs.toNat ∧
        (s.guard.lookup repository).cooldown ≤ Duration.ofSeconds (UInt64.size - 1) := by
  obtain ⟨hg, ht, ha⟩ := h.invariants
  have free (hnone : ¬s.HasJob repository) (hidle : ¬s.HasRun repository) :
      s.guard.isInProgress repository = false := by
    rw [← Bool.not_eq_true, isInProgress_iff_hasRun hg ht ha hnone]
    exact hidle
  refine ⟨?_, ?_, ?_, ?_, ?_, ?_, ?_, h.completedAt_iff repository, ?_⟩
  · rintro id j hj rfl hopen
    have hout := ht.sound.outstanding?_eq_some hj hopen
    rw [← ht.sound.named id j hj]
    exact ⟨⟨_, triggerSync_of_outstanding hout m, rfl, rfl⟩,
      triggerAsync?_of_outstanding hout m draws⟩
  · intro hnone hrun
    have hbusy := (isInProgress_iff_hasRun hg ht ha hnone).2 hrun
    exact ⟨_, rfl, rfl, triggers_of_refused (outstanding?_eq_none_iff.2 hnone)
      (acquire_of_inProgress hbusy m) draws⟩
  · intro hnone hidle hcooling hcooldown
    obtain ⟨refusal, hcode, hrefused⟩ := acquire_of_cooling (free hnone hidle) hcooling hcooldown
    exact ⟨refusal, hcode, triggers_of_refused (outstanding?_eq_none_iff.2 hnone) hrefused draws⟩
  · intro hnone hidle hwarm
    have hout := outstanding?_eq_none_iff.2 hnone
    exact ⟨triggerSync_of_free hout (free hnone hidle) hwarm,
      h.triggerAsync?_of_free hout (free hnone hidle) hwarm⟩
  · rintro i r hr rfl
    have hbusy := (hg.inProgress_iff_holder r.repository).2 (.inl ⟨i, r, hr, rfl⟩)
    obtain ⟨job, hsync⟩ := triggerSync_of_inProgress hbusy m
    obtain ⟨y, hy, -, hasync⟩ := triggerAsync?_of_inProgress hbusy m draws
    refine ⟨⟨_, congrArg Prod.snd hsync, rfl⟩, fun x e hx he => ?_⟩
    cases hx.symm.trans hy
    rcases hasync with hrefused | ⟨j, -, hjoined⟩
    · cases he.symm.trans hrefused
      rfl
    · cases he.symm.trans hjoined
  · intro hrefused
    rcases s.triggerSync_cases m repository with ⟨-, -, hstarted⟩ | ⟨a, hkept, -⟩
    · exact absurd (congrArg Prod.snd hstarted) (hrefused _)
    · rw [hkept]
  · rintro x hx hrefused
    rcases triggerAsync?_cases hx with ⟨y, hout, -, -, hstarted⟩ | ⟨hkept, -⟩
    · rcases hrefused with hjob | hrefused
      · exact absurd hjob (outstanding?_eq_none_iff.1 hout)
      · exact absurd (congrArg Prod.snd hstarted) (hrefused _)
    · exact hkept
  · rintro u rfl hr
    have hcooldown := hr.cooldown_eq repository
    refine ⟨hcooldown, ?_⟩
    rw [hcooldown]
    exact Nat.mul_le_mul_right _ (Nat.le_pred_of_lt u.cooldownSecs.toNat_lt_size)

theorem admission_by_precedence_after_timeout :
    ∃ before late after ended relaxed, Regulated ⟨5, 30, 100, 10⟩ 100 before late ∧
      Regulated ⟨5, 30, 100, 10⟩ 100 after ended ∧ Regulated ⟨5, 30, 100, 10⟩ 100 after relaxed ∧
      (∀ m, ∃ refusal, refusal.code = .updateInProgress ∧
        refusal.hint = "Retry once the running update has finished" ∧
        (late.triggerSync m "a").value = (late, .refused refusal)) ∧
      (∃ refusal, refusal.code = .rateLimited ∧
        (ended.triggerSync ⟨12, .ofEpoch 0 0⟩ "a").value = (ended, .refused refusal)) ∧
      ∃ t, (relaxed.triggerSync ⟨12, .ofEpoch 0 0⟩ "a").value = (t, .admitted 1) := by
  let moment (seconds : Nat) : Moment := ⟨seconds, .ofEpoch 0 0⟩
  have entered : Regulated ⟨5, 30, 100, 10⟩ 100 _ _ :=
    Regulated.new.step (@Step.enter _ (moment 0) ["j"] "a" _ _ (.started "j" "a") rfl rfl rfl)
  have launched := entered.step (@Step.launch _ (moment 1) "j" _ rfl)
  have begun := launched.step (@Step.begin _ 0 _ rfl)
  have expired := begun.step (@Step.expire _ (moment 6) 0 _ rfl)
  have late := expired.step (@Step.settle _ (moment 7) 0 _ rfl)
  have ended := late.step (@Step.crash _ (moment 9) 0 "out of memory" _ _ rfl rfl)
  have relaxed := @Regulated.setCooldown _ _ _ _ "a" 3 ended
  have idle {s : Service} {r : Run} (hruns : s.runs = [r]) (hpermit : r.permit = none) :
      ¬s.HasRun "a" := by
    rintro ⟨q, hq, hheld⟩
    rw [hruns, List.mem_singleton] at hq
    rw [hq, hpermit] at hheld
    cases hheld
  refine ⟨_, _, _, _, _, late, ended, relaxed, fun m => ?_, ?_, ?_⟩
  · obtain ⟨-, hbusy, -⟩ := admission_by_precedence late "a" m []
    obtain ⟨refusal, hcode, hhint, hsync, -⟩ :=
      hbusy (outstanding?_eq_none_iff.1 rfl) ⟨_, List.mem_cons_self .., rfl⟩
    exact ⟨refusal, hcode, hhint, hsync⟩
  · obtain ⟨-, -, hcooling, -⟩ := admission_by_precedence ended "a" (moment 12) []
    obtain ⟨refusal, hcode, hsync, -⟩ := hcooling (outstanding?_eq_none_iff.1 rfl) (idle rfl rfl)
      ⟨9, rfl, by decide⟩ (by decide)
    exact ⟨refusal, hcode, hsync⟩
  · obtain ⟨-, -, -, hfree, -⟩ := admission_by_precedence relaxed "a" (moment 12) []
    obtain ⟨⟨t, hsync, -⟩, -⟩ := hfree (outstanding?_eq_none_iff.1 rfl) (idle rfl rfl) (by
      rintro ⟨time, htime, hlt⟩
      cases htime
      exact absurd hlt (by decide))
    exact ⟨t, hsync⟩

end Service

end IndexRefresh
