import IndexRefresh.Proofs.Counting
import IndexRefresh.Proofs.Service.Effect

namespace IndexRefresh

namespace Guard

theorem isInProgress_markInProgress (g : Guard) (repository other : String) :
    (g.markInProgress repository).value.isInProgress other =
      (decide (other = repository) || g.isInProgress other) := by
  by_cases h : other = repository
  · subst h
    simp [markInProgress, isInProgress]
  · simp [markInProgress, isInProgress, lookup_put_of_ne _ _ h, h]

theorem isInProgress_release (g : Guard) (now : Duration) (p : Permit) (other : String) :
    (g.release now p).value.isInProgress other =
      (!decide (other = p.repository) && g.isInProgress other) := by
  by_cases h : other = p.repository
  · subst h
    simp [release, markComplete, isInProgress]
  · simp [release, markComplete, isInProgress, lookup_put_of_ne _ _ h, h]

end Guard

namespace Service

def permitCount (s : Service) (repository : String) : Nat :=
  s.launches.countP (fun l => l.permit = ⟨repository⟩) +
    s.runs.countP (fun r => r.permit = some ⟨repository⟩)

/-- The guard knows of every permit, no repository has two, and a run holds one as long as it is
live. -/
structure Guarded (s : Service) : Prop where
  counted : ∀ repository,
    s.permitCount repository = if s.guard.isInProgress repository then 1 else 0
  owned : ∀ r ∈ s.runs, r.permit = if r.isLive then some ⟨r.repository⟩ else none
  launched : ∀ l ∈ s.launches, l.permit = ⟨l.repository⟩

theorem guarded_new (limits : Limits) (threshold : UInt64) : (new limits threshold).Guarded where
  counted repository := by simp [permitCount, new, Guard.new, Guard.isInProgress, Guard.lookup]
  owned r hr := by simp [new] at hr
  launched l hl := by simp [new] at hl

theorem Guarded.congr {s t : Service} (h : s.Guarded) (hg : t.guard = s.guard)
    (hr : t.runs = s.runs) (hl : t.launches = s.launches) : t.Guarded where
  counted repository := by simpa only [permitCount, hg, hr, hl] using h.counted repository
  owned := by simpa only [hr] using h.owned
  launched := by simpa only [hl] using h.launched

theorem guarded_putRun {s : Service} {m : Moment} {i : Nat} {r r' : Run} (h : s.Guarded)
    (hr : s.runs[i]? = some r) (hlive : r.isLive = true) (hrepository : r'.repository = r.repository)
    (hpermit : r'.permit = r.permit) : (s.putRun m i r').value.Guarded := by
  have hown : r.permit = some ⟨r.repository⟩ := by
    simpa [hlive] using h.owned r (List.mem_of_getElem? hr)
  cases hlive' : r'.isLive with
  | true =>
      rw [putRun_of_isLive hlive']
      refine ⟨fun repository => ?_, fun q hq => ?_, h.launched⟩
      · have hset := Counting.countP_set_add
          (p := fun r => decide (r.permit = some ⟨repository⟩)) hr r'
        have := h.counted repository
        simp only [permitCount, hpermit] at *
        omega
      · rcases List.mem_or_eq_of_mem_set hq with hq | rfl
        · exact h.owned q hq
        · rw [hlive', hpermit, hown, hrepository]
          rfl
  | false =>
      have hp : r'.permit = some ⟨r.repository⟩ := hpermit.trans hown
      simp only [putRun, hlive', hp, Traced.value_map]
      refine ⟨fun repository => ?_, fun q hq => ?_, h.launched⟩
      · have hset := Counting.countP_set_add
          (p := fun r => decide (r.permit = some ⟨repository⟩)) hr { r' with permit := none }
        have hc := h.counted repository
        simp only [permitCount, Guard.isInProgress_release, hown, Option.some.injEq,
          Permit.mk.injEq, reduceCtorEq, decide_false, Bool.false_eq_true, if_false] at *
        by_cases heq : repository = r.repository
        · subst heq
          simp only [decide_true, Bool.not_true, Bool.false_and, if_true, Bool.false_eq_true,
            if_false] at *
          split at hc <;> omega
        · have hne : ¬r.repository = repository := fun he => heq he.symm
          simp only [heq, hne, decide_false, Bool.not_false, Bool.true_and, Bool.false_eq_true,
            if_false] at *
          omega
      · rcases List.mem_or_eq_of_mem_set hq with hq | rfl
        · exact h.owned q hq
        · have : ({ r' with permit := none } : Run).isLive = false := hlive'
          simp [this]

theorem Effect.guarded {s t : Service} {d : Deed} (he : Effect s d t) (h : s.Guarded) :
    t.Guarded := by
  cases he with
  | decline => exact h
  | @accept m repository hnone hfree =>
      refine ⟨fun other => ?_, fun r hr => ?_, h.launched⟩
      · have hc := h.counted other
        simp only [spawn, permitCount, List.countP_append, List.countP_singleton, Run.new,
          Guard.isInProgress_markInProgress] at *
        by_cases heq : other = repository
        · subst heq
          simp only [hfree, Bool.false_eq_true, if_false, decide_true, Bool.true_or, if_true] at *
          omega
        · have hne : ¬repository = other := fun he => heq he.symm
          simp only [heq, hne, Option.some.injEq, Permit.mk.injEq, decide_false, Bool.false_or,
            Bool.false_eq_true, if_false] at *
          omega
      · rcases List.mem_append.1 hr with hr | hr
        · exact h.owned r hr
        · rw [List.mem_singleton.1 hr]
          rfl
  | @enter m repository draws x hnone hfree hx =>
      refine ⟨fun other => ?_, h.owned, fun l hl => ?_⟩
      · have hc := h.counted other
        simp only [permitCount, List.countP_append, List.countP_singleton,
          Guard.isInProgress_markInProgress] at *
        by_cases heq : other = repository
        · subst heq
          simp only [hfree, Bool.false_eq_true, if_false, decide_true, Bool.true_or, if_true] at *
          omega
        · have hne : ¬repository = other := fun he => heq he.symm
          simp only [heq, hne, Permit.mk.injEq, decide_false, Bool.false_or, Bool.false_eq_true,
            if_false] at *
          omega
      · rcases List.mem_append.1 hl with hl | hl
        · exact h.launched l hl
        · rw [List.mem_singleton.1 hl]
  | @launch m l hl =>
      refine ⟨fun other => ?_, fun r hr => ?_, fun k hk => ?_⟩
      · have hc := h.counted other
        have hmoved := Counting.countP_erase_add (p := fun l => decide (l.permit = ⟨other⟩)) hl
        simp only [spawn, permitCount, List.countP_append, List.countP_singleton, Run.new,
          Option.some.injEq] at *
        change _ = if s.guard.isInProgress other then 1 else 0
        omega
      · rcases List.mem_append.1 hr with hr | hr
        · exact h.owned r hr
        · rw [List.mem_singleton.1 hr]
          simp [Run.new, Run.isLive, h.launched l hl]
      · exact h.launched k (List.mem_of_mem_erase hk)
  | work hr hlive hrepository hpermit _ => exact guarded_putRun h hr hlive hrepository hpermit
  | @expire w r hw hr hlive =>
      have hput : (s.putRun ⟨0, .ofEpoch 0 0⟩ w.run r.cancel).value.Guarded :=
        guarded_putRun h hr hlive rfl rfl
      rw [putRun_of_isLive (by exact hlive)] at hput
      exact hput.congr rfl rfl rfl
  | settle => exact h.congr (by simp) (by simp) (by simp)
  | abandon => exact h.congr rfl rfl rfl
  | sweep => exact h.congr rfl rfl rfl

theorem Reached.guarded {limits : Limits} {threshold : UInt64} {history : List Deed} {s : Service}
    (h : Reached limits threshold history s) : s.Guarded := by
  induction h with
  | new => exact guarded_new limits threshold
  | step _ hs ih => exact hs.effect.guarded ih

def IsLive (s : Service) (i : Nat) (r : Run) : Prop :=
  s.runs[i]? = some r ∧ r.isLive = true

theorem Guarded.permit_of_isLive {s : Service} (h : s.Guarded) {i : Nat} {r : Run}
    (hr : s.IsLive i r) : r.permit = some ⟨r.repository⟩ := by
  simpa [hr.2] using h.owned r (List.mem_of_getElem? hr.1)

theorem Guarded.permitCount_of_isLive {s : Service} (h : s.Guarded) {i : Nat} {r : Run}
    (hr : s.IsLive i r) : s.permitCount r.repository = 1 := by
  have hpos : 0 < s.runs.countP fun q => q.permit = some ⟨r.repository⟩ :=
    List.countP_pos_iff.2 ⟨r, List.mem_of_getElem? hr.1, by simpa using h.permit_of_isLive hr⟩
  have hc := h.counted r.repository
  unfold permitCount at *
  split at hc <;> omega

theorem Guarded.inProgress_iff {s : Service} (h : s.Guarded) (repository : String) :
    s.guard.isInProgress repository = true ↔ s.permitCount repository = 1 := by
  have hc := h.counted repository
  split at hc
  · next hg => exact ⟨fun _ => hc, fun _ => hg⟩
  · next hg => exact ⟨fun hg' => absurd hg' hg, fun h1 => by omega⟩

theorem Guarded.eq_of_isLive {s : Service} (h : s.Guarded) {i j : Nat} {r q : Run}
    (hr : s.IsLive i r) (hq : s.IsLive j q) (heq : r.repository = q.repository) : i = j := by
  have hle : s.runs.countP (fun p => p.permit = some ⟨r.repository⟩) ≤ 1 := by
    have := h.permitCount_of_isLive hr
    unfold permitCount at this
    omega
  refine Counting.eq_of_countP_le_one hle hr.1 hq.1 ?_ ?_
  · simpa using h.permit_of_isLive hr
  · simpa [heq] using h.permit_of_isLive hq

theorem Guarded.holder {s : Service} (h : s.Guarded) {repository : String}
    (hp : s.permitCount repository = 1) :
    (∃ i r, s.IsLive i r ∧ r.repository = repository) ∨
      ∃ l ∈ s.launches, l.repository = repository := by
  rcases Nat.eq_zero_or_pos (s.launches.countP fun l => l.permit = ⟨repository⟩) with hl | hl
  · refine .inl ?_
    have hpos : 0 < s.runs.countP fun r => r.permit = some ⟨repository⟩ := by
      unfold permitCount at hp
      omega
    obtain ⟨r, hr, hper⟩ := List.countP_pos_iff.1 hpos
    have hown := h.owned r hr
    obtain ⟨i, hi⟩ := List.mem_iff_getElem?.1 hr
    rw [of_decide_eq_true hper] at hown
    split at hown
    · next hlive =>
        cases hown
        exact ⟨i, r, ⟨hi, hlive⟩, rfl⟩
    · cases hown
  · obtain ⟨l, hmem, hper⟩ := List.countP_pos_iff.1 hl
    have hown := h.launched l hmem
    rw [of_decide_eq_true hper] at hown
    exact .inr ⟨l, hmem, (Permit.mk.inj hown).symm⟩

theorem Guarded.inProgress_iff_holder {s : Service} (h : s.Guarded) (repository : String) :
    s.guard.isInProgress repository = true ↔
      (∃ i r, s.IsLive i r ∧ r.repository = repository) ∨
        ∃ l ∈ s.launches, l.repository = repository := by
  constructor
  · intro hg
    exact h.holder ((h.inProgress_iff repository).1 hg)
  · intro hheld
    rw [h.inProgress_iff]
    rcases hheld with ⟨i, r, hr, rfl⟩ | ⟨l, hl, rfl⟩
    · exact h.permitCount_of_isLive hr
    · have hpos : 0 < s.launches.countP fun k => k.permit = ⟨l.repository⟩ :=
        List.countP_pos_iff.2 ⟨l, hl, by simpa using h.launched l hl⟩
      have hc := h.counted l.repository
      unfold permitCount at *
      split at hc <;> omega

theorem triggerSync_of_inProgress {s : Service} {repository : String}
    (h : s.guard.isInProgress repository = true) (m : Moment) :
    ∃ job, (s.triggerSync m repository).value =
      (s, .refused (.inProgress repository job)) := by
  unfold triggerSync
  cases s.ledger.outstanding? repository with
  | some j => exact ⟨some j.id, rfl⟩
  | none => exact ⟨none, by simp [acquire_of_inProgress h m]⟩

theorem triggerAsync?_of_inProgress {s : Service} {repository : String}
    (h : s.guard.isInProgress repository = true) (m : Moment) (draws : List String) :
    ∃ x, s.triggerAsync? m draws repository = some x ∧ x.value.1 = s ∧
      (x.value.2 = .refused (.inProgress repository none) ∨
        ∃ j, s.ledger.outstanding? repository = some j ∧
          x.value.2 = .admitted (.outstanding j.id repository)) := by
  unfold triggerAsync?
  cases s.ledger.outstanding? repository with
  | some j => exact ⟨_, rfl, rfl, .inr ⟨j, rfl, rfl⟩⟩
  | none => exact ⟨_, by simp only [acquire_of_inProgress h m]; rfl, rfl, .inl rfl⟩

theorem Effect.free_of_ended {s t : Service} {d : Deed} (he : Effect s d t) (h : s.Guarded)
    {i : Nat} {r q : Run} (hr : s.IsLive i r) (hq : t.runs[i]? = some q)
    (hend : q.isLive = false) : t.guard.isInProgress r.repository = false := by
  have hlt : i < s.runs.length := (List.getElem?_eq_some_iff.1 hr.1).1
  have kept (hsame : t.runs[i]? = s.runs[i]?) : t.guard.isInProgress r.repository = false := by
    rw [hsame, hr.1] at hq
    cases hq
    rw [hr.2] at hend
    cases hend
  cases he with
  | decline => exact kept rfl
  | accept => exact kept (List.getElem?_append_left hlt)
  | enter => exact kept rfl
  | launch => exact kept (List.getElem?_append_left hlt)
  | @work m j w p p' hp hlive hrepository hpermit _ =>
      cases hlive' : p'.isLive with
      | true =>
          rw [putRun_of_isLive hlive'] at hq ⊢
          by_cases hij : j = i
          · subst hij
            rw [List.getElem?_set_self hlt] at hq
            cases hq
            rw [hlive'] at hend
            cases hend
          · rw [List.getElem?_set_ne hij, hr.1] at hq
            cases hq
            rw [hr.2] at hend
            cases hend
      | false =>
          have hper := hpermit.trans (h.permit_of_isLive ⟨hp, hlive⟩)
          simp only [putRun, hlive', hper, Traced.value_map] at hq ⊢
          by_cases hij : j = i
          · subst hij
            cases hp.symm.trans hr.1
            simp [Guard.isInProgress_release]
          · rw [List.getElem?_set_ne hij, hr.1] at hq
            cases hq
            rw [hr.2] at hend
            cases hend
  | @expire w p hw hp hlive =>
      by_cases hij : w.run = i
      · subst hij
        rw [List.getElem?_set_self hlt] at hq
        cases hq
        exact absurd hend (by simpa [Run.isLive, Run.cancel] using hlive)
      · exact kept (List.getElem?_set_ne hij)
  | settle => exact kept (by simp)
  | abandon => exact kept rfl
  | sweep => exact kept rfl

theorem Effect.isLive_of_not_work {s t : Service} {d : Deed} (he : Effect s d t) {i : Nat}
    {r : Run} (hr : s.IsLive i r) (hd : ∀ w, d ≠ .work i w) :
    ∃ q, t.IsLive i q ∧ q.repository = r.repository ∧ q.permit = r.permit := by
  have hlt : i < s.runs.length := (List.getElem?_eq_some_iff.1 hr.1).1
  have kept (hsame : t.runs[i]? = s.runs[i]?) :
      ∃ q, t.IsLive i q ∧ q.repository = r.repository ∧ q.permit = r.permit :=
    ⟨r, ⟨hsame.trans hr.1, hr.2⟩, rfl, rfl⟩
  cases he with
  | decline => exact kept rfl
  | accept => exact kept (List.getElem?_append_left hlt)
  | enter => exact kept rfl
  | launch => exact kept (List.getElem?_append_left hlt)
  | @work m j w p p' hp hlive hrepository hpermit _ =>
      have hij : j ≠ i := by
        intro hij
        exact hd w (hij ▸ rfl)
      refine kept ?_
      unfold putRun
      split <;> exact List.getElem?_set_ne hij
  | @expire w p hw hp hlive =>
      by_cases hij : w.run = i
      · subst hij
        cases hp.symm.trans hr.1
        exact ⟨r.cancel, ⟨List.getElem?_set_self hlt, hlive⟩, rfl, rfl⟩
      · exact kept (List.getElem?_set_ne hij)
  | settle => exact kept (by simp)
  | abandon => exact kept rfl
  | sweep => exact kept rfl

theorem exclusive_runs {limits : Limits} {threshold : UInt64} {history : List Deed} {s : Service}
    (h : Reached limits threshold history s) :
    (∀ i j r q, s.IsLive i r → s.IsLive j q → r.repository = q.repository → i = j) ∧
    (∀ i r, s.IsLive i r → r.permit = some ⟨r.repository⟩ ∧ s.permitCount r.repository = 1) ∧
    (∀ r ∈ s.runs, r.isLive = false → r.permit = none) ∧
    (∀ repository, s.permitCount repository ≤ 1 ∧
      (s.guard.isInProgress repository = true ↔ s.permitCount repository = 1) ∧
      (s.guard.isInProgress repository = true ↔
        (∃ i r, s.IsLive i r ∧ r.repository = repository) ∨
          ∃ l ∈ s.launches, l.repository = repository)) ∧
    (∀ i r, s.IsLive i r → ∀ m draws,
      (∃ job, (s.triggerSync m r.repository).value =
        (s, .refused (.inProgress r.repository job))) ∧
      ∃ x, s.triggerAsync? m draws r.repository = some x ∧ x.value.1 = s ∧
        (x.value.2 = .refused (.inProgress r.repository none) ∨
          ∃ j, s.ledger.outstanding? r.repository = some j ∧
            x.value.2 = .admitted (.outstanding j.id r.repository))) ∧
    (∀ d t i r, Step s d t → s.IsLive i r →
      ((∀ w, d ≠ .work i w) →
        ∃ q, t.IsLive i q ∧ q.repository = r.repository ∧ q.permit = r.permit) ∧
      ∀ q, t.runs[i]? = some q → q.isLive = false →
        q.permit = none ∧ t.guard.isInProgress r.repository = false) := by
  have hg := h.guarded
  refine ⟨fun i j r q hr hq => hg.eq_of_isLive hr hq,
    fun i r hr => ⟨hg.permit_of_isLive hr, hg.permitCount_of_isLive hr⟩, ?_, ?_, ?_, ?_⟩
  · intro r hr hend
    simpa [hend] using hg.owned r hr
  · intro repository
    refine ⟨?_, hg.inProgress_iff repository, hg.inProgress_iff_holder repository⟩
    have hc := hg.counted repository
    split at hc <;> omega
  · intro i r hr m draws
    have hbusy := (hg.inProgress_iff_holder r.repository).2 (.inl ⟨i, r, hr, rfl⟩)
    exact ⟨triggerSync_of_inProgress hbusy m, triggerAsync?_of_inProgress hbusy m draws⟩
  · intro d t i r hs hr
    refine ⟨hs.effect.isLive_of_not_work hr, fun q hq hend => ⟨?_, ?_⟩⟩
    · simpa [hend] using (hs.effect.guarded hg).owned q (List.mem_of_getElem? hq)
    · exact hs.effect.free_of_ended hg hr hq hend

theorem exclusive_runs_after_timeout :
    ∃ history s,
      Reached ⟨5, 0, 100, 10⟩ 100 history s ∧ s.watches = [] ∧
      s.IsLive 0 ⟨"a", true, .waits .loading, some ⟨"a"⟩⟩ ∧ s.permitCount "a" = 1 ∧
      ∀ m, ∃ job, (s.triggerSync m "a").value = (s, .refused (.inProgress "a" job)) := by
  have accepted : Reached ⟨5, 0, 100, 10⟩ 100 [.accept "a" 0] _ :=
    Reached.new.step (.accept (m := ⟨0, .ofEpoch 0 0⟩) rfl)
  have begun := accepted.step (.begin (i := 0) rfl)
  have expired := begun.step (.expire (m := ⟨9, .ofEpoch 0 0⟩) (i := 0) rfl)
  have settled := expired.step (.settle (m := ⟨9, .ofEpoch 0 0⟩) (i := 0) rfl)
  obtain ⟨-, hown, -, -, hblocked, -⟩ := exclusive_runs settled
  have outlived := hown 0 ⟨"a", true, .waits .loading, some ⟨"a"⟩⟩ ⟨rfl, rfl⟩
  have blocked := hblocked 0 ⟨"a", true, .waits .loading, some ⟨"a"⟩⟩ ⟨rfl, rfl⟩
  exact ⟨_, _, settled, rfl, ⟨rfl, rfl⟩, outlived.2, fun m => (blocked m []).1⟩

end Service

end IndexRefresh
