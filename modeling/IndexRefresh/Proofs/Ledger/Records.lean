import IndexRefresh.Ledger

namespace IndexRefresh

namespace Job

def advanced (j : Job) (m : Moment) (status : JobStatus) : Job :=
  if j.status.isTerminal || (j.status == .running && status == .pending) then j
  else if status == .running then { j with startedAt := some m.stamp, status := status }
  else if status.isTerminal then { j with finishedAt := some m.stamp, status := status }
  else { j with status := status }

def finished (j : Job) (m : Moment) (v : Ledger.Verdict) : Job :=
  if j.status.isTerminal then j
  else { v.record j with status := v.status, finishedAt := some m.stamp }

theorem exists_advanced_eq (j : Job) (m : Moment) (status : JobStatus) :
    ∃ startedAt finishedAt moved, j.advanced m status =
      { j with startedAt := startedAt, finishedAt := finishedAt, status := moved } := by
  unfold advanced
  split
  · exact ⟨_, _, _, rfl⟩
  · split
    · exact ⟨_, _, _, rfl⟩
    · split
      · exact ⟨_, _, _, rfl⟩
      · exact ⟨_, _, _, rfl⟩

@[simp] theorem id_advanced (j : Job) (m : Moment) (status : JobStatus) :
    (j.advanced m status).id = j.id := by
  obtain ⟨_, _, _, h⟩ := j.exists_advanced_eq m status
  rw [h]

@[simp] theorem repository_advanced (j : Job) (m : Moment) (status : JobStatus) :
    (j.advanced m status).repository = j.repository := by
  obtain ⟨_, _, _, h⟩ := j.exists_advanced_eq m status
  rw [h]

@[simp] theorem result_advanced (j : Job) (m : Moment) (status : JobStatus) :
    (j.advanced m status).result = j.result := by
  obtain ⟨_, _, _, h⟩ := j.exists_advanced_eq m status
  rw [h]

@[simp] theorem error_advanced (j : Job) (m : Moment) (status : JobStatus) :
    (j.advanced m status).error = j.error := by
  obtain ⟨_, _, _, h⟩ := j.exists_advanced_eq m status
  rw [h]

@[simp] theorem id_finished (j : Job) (m : Moment) (v : Ledger.Verdict) :
    (j.finished m v).id = j.id := by
  unfold finished
  split
  · rfl
  · cases v <;> rfl

@[simp] theorem repository_finished (j : Job) (m : Moment) (v : Ledger.Verdict) :
    (j.finished m v).repository = j.repository := by
  unfold finished
  split
  · rfl
  · cases v <;> rfl

@[simp] theorem created_advanced (j : Job) (m : Moment) (status : JobStatus) :
    (j.advanced m status).created = j.created := by
  obtain ⟨_, _, _, h⟩ := j.exists_advanced_eq m status
  rw [h]

@[simp] theorem createdAt_advanced (j : Job) (m : Moment) (status : JobStatus) :
    (j.advanced m status).createdAt = j.createdAt := by
  obtain ⟨_, _, _, h⟩ := j.exists_advanced_eq m status
  rw [h]

@[simp] theorem created_finished (j : Job) (m : Moment) (v : Ledger.Verdict) :
    (j.finished m v).created = j.created := by
  unfold finished
  split
  · rfl
  · cases v <;> rfl

@[simp] theorem createdAt_finished (j : Job) (m : Moment) (v : Ledger.Verdict) :
    (j.finished m v).createdAt = j.createdAt := by
  unfold finished
  split
  · rfl
  · cases v <;> rfl

theorem finishedAt_finished {j : Job} (hopen : j.status.isTerminal = false) (m : Moment)
    (v : Ledger.Verdict) : (j.finished m v).finishedAt = some m.stamp := by
  simp [finished, hopen]

theorem isTerminal_advanced_running (j : Job) (m : Moment) :
    (j.advanced m .running).status.isTerminal = j.status.isTerminal := by
  unfold advanced
  split
  · rfl
  · next hopen =>
      have hopen : j.status.isTerminal = false := by simpa using hopen
      rw [hopen]
      rfl

theorem isTerminal_finished (j : Job) (m : Moment) (v : Ledger.Verdict) :
    (j.finished m v).status.isTerminal = true := by
  unfold finished
  split
  · next h => exact h
  · cases v <;> rfl

end Job

namespace Ledger

def isOpen (l : Ledger) (id : String) : Bool :=
  (l.get? id).any fun j => !j.status.isTerminal

theorem isOpen_iff {l : Ledger} {id : String} :
    l.isOpen id = true ↔ ∃ j, l.get? id = some j ∧ j.status.isTerminal = false := by
  unfold isOpen
  cases l.get? id with
  | none => simp
  | some j => simp

theorem get?_evict (l : Ledger) (now : Duration) (id : String) :
    (l.evict now).value.1.get? id =
      (l.get? id).filter fun j => !j.isExpired now l.maxAge :=
  Table.get?_filter ..

theorem get?_of_get?_evict {l : Ledger} {now : Duration} {id : String} {j : Job}
    (h : (l.evict now).value.1.get? id = some j) : l.get? id = some j := by
  rw [get?_evict] at h
  exact (Option.filter_eq_some_iff.1 h).1

theorem get?_evict_of_not_isExpired {l : Ledger} {now : Duration} {id : String} {j : Job}
    (h : l.get? id = some j) (hyoung : j.isExpired now l.maxAge = false) :
    (l.evict now).value.1.get? id = some j := by
  rw [get?_evict, h]
  simp [Option.filter_some, hyoung]

theorem get?_evict_of_not_isTerminal {l : Ledger} (now : Duration) {id : String} {j : Job}
    (h : l.get? id = some j) (hopen : j.status.isTerminal = false) :
    (l.evict now).value.1.get? id = some j :=
  get?_evict_of_not_isExpired h (by simp [Job.isExpired, hopen])

@[simp] theorem isOpen_evict (l : Ledger) (now : Duration) (id : String) :
    (l.evict now).value.1.isOpen id = l.isOpen id := by
  rw [Bool.eq_iff_iff, isOpen_iff, isOpen_iff]
  constructor
  · rintro ⟨j, hj, hopen⟩
    exact ⟨j, get?_of_get?_evict hj, hopen⟩
  · rintro ⟨j, hj, hopen⟩
    exact ⟨j, get?_evict_of_not_isTerminal now hj hopen, hopen⟩

theorem get?_create? {l : Ledger} {m : Moment} {repository : String} {draws : List String}
    {x : Traced (Ledger × String)} (h : l.create? m repository draws = some x) :
    (l.evict m.instant).value.1.get? x.value.2 = none ∧
      ∀ id, x.value.1.get? id =
        if id = x.value.2 then some (.new id repository m)
        else (l.evict m.instant).value.1.get? id := by
  obtain ⟨new, hnew, rfl⟩ := Option.map_eq_some_iff.1 h
  have hfree := List.find?_some hnew
  refine ⟨by simpa using hfree, fun id => ?_⟩
  change Table.get? (Table.insert _ new _) id = if id = new then _ else _
  rw [Table.get?_insert]
  split
  · next heq => rw [heq]
  · rfl

theorem exists_create? {l : Ledger} {m : Moment} {draws : List String}
    (h : ∃ id ∈ draws, (l.evict m.instant).value.1.get? id = none) (repository : String) :
    ∃ x, l.create? m repository draws = some x := by
  obtain ⟨id, hid, hfree⟩ := h
  cases hfind : draws.find? fun id => ((l.evict m.instant).value.1.get? id).isNone with
  | none =>
      have htaken := List.find?_eq_none.1 hfind id hid
      simp [hfree] at htaken
  | some new => exact ⟨_, Option.map_eq_some_iff.2 ⟨new, hfind, rfl⟩⟩

theorem isOpen_of_create? {l : Ledger} {m : Moment} {repository : String} {draws : List String}
    {x : Traced (Ledger × String)} (h : l.create? m repository draws = some x) :
    l.isOpen x.value.2 = false := by
  rw [← isOpen_evict l m.instant, isOpen, (get?_create? h).1]
  rfl

theorem isOpen_create? {l : Ledger} {m : Moment} {repository : String} {draws : List String}
    {x : Traced (Ledger × String)} (h : l.create? m repository draws = some x) (id : String) :
    x.value.1.isOpen id = (decide (id = x.value.2) || l.isOpen id) := by
  rw [← isOpen_evict l m.instant, isOpen, (get?_create? h).2, isOpen]
  split
  · next heq => simp [heq, Job.new, JobStatus.isTerminal]
  · next hne => simp [hne]

theorem get?_advance (l : Ledger) (m : Moment) (id : String) (status : JobStatus)
    (other : String) :
    (l.advance m id status).value.1.get? other =
      if other = id then (l.get? id).map (·.advanced m status) else l.get? other := by
  unfold advance
  cases hj : l.get? id with
  | none =>
      dsimp only
      split
      · next heq => rw [heq, hj, Option.map_none]
      · rfl
  | some j =>
      dsimp only
      split
      · next hkept =>
          split
          · next heq => rw [heq, hj, Option.map_some, Job.advanced, if_pos hkept]
          · rfl
      · next hmoved =>
          change Table.get? (Table.insert _ id _) other = _
          rw [Table.get?_insert]
          split
          · rw [Option.map_some, Job.advanced, if_neg hmoved]
            split
            · rfl
            · split <;> rfl
          · rfl

theorem get?_finish (l : Ledger) (m : Moment) (id : String) (v : Verdict) (other : String) :
    (l.finish m id v).value.1.get? other =
      if other = id then (l.get? id).map (·.finished m v) else l.get? other := by
  unfold finish
  cases hj : l.get? id with
  | none =>
      dsimp only
      split
      · next heq => rw [heq, hj, Option.map_none]
      · rfl
  | some j =>
      dsimp only
      split
      · next hdone =>
          split
          · next heq => rw [heq, hj, Option.map_some, Job.finished, if_pos hdone]
          · rfl
      · next hopen =>
          change Table.get? (Table.insert _ id _) other = _
          rw [Table.get?_insert]
          split
          · rw [Option.map_some, Job.finished, if_neg hopen]
          · rfl

@[simp] theorem maxAge_advance (l : Ledger) (m : Moment) (id : String) (status : JobStatus) :
    (l.advance m id status).value.1.maxAge = l.maxAge := by
  unfold advance
  split
  · rfl
  · split <;> rfl

@[simp] theorem maxAge_finish (l : Ledger) (m : Moment) (id : String) (v : Verdict) :
    (l.finish m id v).value.1.maxAge = l.maxAge := by
  unfold finish
  split
  · rfl
  · split <;> rfl

theorem maxAge_create? {l : Ledger} {m : Moment} {repository : String} {draws : List String}
    {x : Traced (Ledger × String)} (h : l.create? m repository draws = some x) :
    x.value.1.maxAge = l.maxAge := by
  obtain ⟨id, -, rfl⟩ := Option.map_eq_some_iff.1 h
  rfl

@[simp] theorem isOpen_advance_running (l : Ledger) (m : Moment) (id other : String) :
    (l.advance m id .running).value.1.isOpen other = l.isOpen other := by
  unfold isOpen
  rw [get?_advance]
  split
  · next heq =>
      rw [heq]
      cases l.get? id with
      | none => rfl
      | some j => simp [Job.isTerminal_advanced_running]
  · rfl

theorem isOpen_finish (l : Ledger) (m : Moment) (id : String) (v : Verdict) (other : String) :
    (l.finish m id v).value.1.isOpen other = (!decide (other = id) && l.isOpen other) := by
  unfold isOpen
  rw [get?_finish]
  split
  · next heq =>
      cases l.get? id with
      | none => simp [heq]
      | some j => simp [heq, Job.isTerminal_finished]
  · next hne => simp [hne]

def IsOutstanding (l : Ledger) (repository id : String) : Prop :=
  ∃ j, l.get? id = some j ∧ j.repository = repository ∧ j.status.isTerminal = false

section

variable {l : Ledger} {repository id other : String} {m : Moment}

theorem isOutstanding_evict {now : Duration} :
    (l.evict now).value.1.IsOutstanding repository id ↔ l.IsOutstanding repository id := by
  constructor
  · rintro ⟨j, hj, hrest⟩
    exact ⟨j, get?_of_get?_evict hj, hrest⟩
  · rintro ⟨j, hj, hrepository, hopen⟩
    exact ⟨j, get?_evict_of_not_isTerminal now hj hopen, hrepository, hopen⟩

theorem isOutstanding_create? {draws : List String} {x : Traced (Ledger × String)}
    (h : l.create? m other draws = some x) :
    x.value.1.IsOutstanding repository id ↔
      id = x.value.2 ∧ other = repository ∨ l.IsOutstanding repository id := by
  obtain ⟨hfree, hget⟩ := get?_create? h
  have hnone : ¬l.IsOutstanding repository x.value.2 := by
    rintro ⟨j, hj, -, hopen⟩
    rw [get?_evict_of_not_isTerminal m.instant hj hopen] at hfree
    cases hfree
  have hkept : (l.evict m.instant).value.1.IsOutstanding repository id ↔
      l.IsOutstanding repository id := isOutstanding_evict
  by_cases heq : id = x.value.2
  · subst heq
    have hnew : x.value.1.IsOutstanding repository x.value.2 ↔ other = repository := by
      simp [IsOutstanding, hget, Job.new, JobStatus.isTerminal]
    simp [hnew, hnone]
  · rw [← hkept]
    simp [IsOutstanding, hget, heq]

theorem isOutstanding_advance_running :
    (l.advance m other .running).value.1.IsOutstanding repository id ↔
      l.IsOutstanding repository id := by
  unfold IsOutstanding
  rw [get?_advance]
  split
  · next heq =>
      rw [heq]
      cases l.get? other with
      | none => simp
      | some j => simp [Job.isTerminal_advanced_running]
  · exact Iff.rfl

theorem isOutstanding_finish {v : Verdict} :
    (l.finish m other v).value.1.IsOutstanding repository id ↔
      id ≠ other ∧ l.IsOutstanding repository id := by
  unfold IsOutstanding
  rw [get?_finish]
  split
  · next heq =>
      cases l.get? other with
      | none => simp [heq]
      | some j => simp [heq, Job.isTerminal_finished]
  · next hne => simp [hne]

end

theorem foldl_later_eq_none_iff (newest : Option Job) (js : List Job) :
    js.foldl later newest = none ↔ newest = none ∧ js = [] := by
  induction js generalizing newest with
  | nil => simp
  | cons j js ih =>
      rw [List.foldl_cons, ih]
      cases newest with
      | none => simp [later]
      | some n =>
          simp only [later]
          split <;> simp

theorem mem_of_foldl_later {newest : Option Job} {js : List Job} {j : Job}
    (h : js.foldl later newest = some j) : newest = some j ∨ j ∈ js := by
  induction js generalizing newest with
  | nil => exact .inl h
  | cons k js ih =>
      rw [List.foldl_cons] at h
      rcases ih h with hnew | hmem
      · cases newest with
        | none =>
            rw [later, Option.some.injEq] at hnew
            exact .inr (hnew ▸ List.mem_cons_self ..)
        | some n =>
            simp only [later] at hnew
            split at hnew
            · exact .inl hnew
            · exact .inr (Option.some.inj hnew ▸ List.mem_cons_self ..)
      · exact .inr (List.mem_cons_of_mem _ hmem)

theorem outstanding?_eq_none_iff {l : Ledger} {repository : String} :
    l.outstanding? repository = none ↔
      ∀ id j, l.get? id = some j → j.isOutstanding repository = false := by
  unfold outstanding?
  rw [foldl_later_eq_none_iff, List.filter_eq_nil_iff]
  constructor
  · rintro ⟨-, hall⟩ id j hj
    simpa using hall j (Table.mem_values.2 ⟨id, hj⟩)
  · intro hall
    refine ⟨rfl, fun j hj => ?_⟩
    obtain ⟨id, hid⟩ := Table.mem_values.1 hj
    simpa using hall id j hid

theorem get?_of_outstanding? {l : Ledger} {repository : String} {j : Job}
    (h : l.outstanding? repository = some j) :
    ∃ id, l.get? id = some j ∧ j.repository = repository ∧ j.status.isTerminal = false := by
  unfold outstanding? at h
  rcases mem_of_foldl_later h with hnone | hmem
  · cases hnone
  · obtain ⟨hvalue, hout⟩ := List.mem_filter.1 hmem
    obtain ⟨id, hid⟩ := Table.mem_values.1 hvalue
    simp only [Job.isOutstanding, Bool.and_eq_true, beq_iff_eq, Bool.not_eq_true'] at hout
    exact ⟨id, hid, hout.1, hout.2⟩

structure Sound (l : Ledger) : Prop where
  named : ∀ id j, l.get? id = some j → j.id = id
  single : ∀ id other j k, l.get? id = some j → l.get? other = some k →
    j.status.isTerminal = false → k.status.isTerminal = false → j.repository = k.repository →
    id = other

theorem sound_new (maxAge : Duration) : (new maxAge).Sound where
  named id j h := by simp [new, get?] at h
  single id other j k h := by simp [new, get?] at h

theorem Sound.of_reduced {l t : Ledger} (h : l.Sound)
    (hsub : ∀ id j, t.get? id = some j → ∃ k, l.get? id = some k ∧ j.id = k.id ∧
      j.repository = k.repository ∧ (j.status.isTerminal = false → k.status.isTerminal = false)) :
    t.Sound where
  named id j hj := by
    obtain ⟨k, hk, hid, -, -⟩ := hsub id j hj
    exact hid.trans (h.named id k hk)
  single id other j k hj hk hjopen hkopen heq := by
    obtain ⟨j', hj', -, hjrep, hjsub⟩ := hsub id j hj
    obtain ⟨k', hk', -, hkrep, hksub⟩ := hsub other k hk
    exact h.single id other j' k' hj' hk' (hjsub hjopen) (hksub hkopen)
      (hjrep.symm.trans (heq.trans hkrep))

theorem Sound.evict {l : Ledger} (h : l.Sound) (now : Duration) : (l.evict now).value.1.Sound :=
  h.of_reduced fun _ j hj => ⟨j, get?_of_get?_evict hj, rfl, rfl, fun hopen => hopen⟩

theorem Sound.advance_running {l : Ledger} (h : l.Sound) (m : Moment) (id : String) :
    (l.advance m id .running).value.1.Sound := by
  refine h.of_reduced fun other j hj => ?_
  rw [get?_advance] at hj
  split at hj
  · next heq =>
      obtain ⟨k, hk, rfl⟩ := Option.map_eq_some_iff.1 hj
      refine ⟨k, heq ▸ hk, k.id_advanced m _, k.repository_advanced m _, fun hopen => ?_⟩
      rwa [Job.isTerminal_advanced_running] at hopen
  · exact ⟨j, hj, rfl, rfl, fun hopen => hopen⟩

theorem Sound.finish {l : Ledger} (h : l.Sound) (m : Moment) (id : String) (v : Verdict) :
    (l.finish m id v).value.1.Sound := by
  refine h.of_reduced fun other j hj => ?_
  rw [get?_finish] at hj
  split at hj
  · next heq =>
      obtain ⟨k, hk, rfl⟩ := Option.map_eq_some_iff.1 hj
      refine ⟨k, heq ▸ hk, k.id_finished m v, k.repository_finished m v, fun hopen => ?_⟩
      rw [Job.isTerminal_finished] at hopen
      cases hopen
  · exact ⟨j, hj, rfl, rfl, fun hopen => hopen⟩

theorem Sound.create? {l : Ledger} (h : l.Sound) {m : Moment} {repository : String}
    {draws : List String} {x : Traced (Ledger × String)}
    (hx : l.create? m repository draws = some x) (hnone : l.outstanding? repository = none) :
    x.value.1.Sound := by
  obtain ⟨-, hget⟩ := get?_create? hx
  have free (id : String) (j : Job) (hj : (l.evict m.instant).value.1.get? id = some j)
      (hopen : j.status.isTerminal = false) : j.repository ≠ repository := by
    intro heq
    have hout := outstanding?_eq_none_iff.1 hnone id j (get?_of_get?_evict hj)
    simp [Job.isOutstanding, heq, hopen] at hout
  have cleared := h.evict m.instant
  refine ⟨fun id j hj => ?_, fun id other j k hj hk hjopen hkopen heq => ?_⟩
  · rw [hget] at hj
    split at hj
    · cases hj
      rfl
    · exact cleared.named id j hj
  · rw [hget] at hj hk
    split at hj
    · next hid =>
        cases hj
        split at hk
        · next hother => rw [hid, hother]
        · exact absurd heq.symm (free other k hk hkopen)
    · split at hk
      · cases hk
        exact absurd heq (free id j hj hjopen)
      · exact cleared.single id other j k hj hk hjopen hkopen heq

theorem Sound.outstanding?_eq_some {l : Ledger} (h : l.Sound) {id : String} {j : Job}
    (hj : l.get? id = some j) (hopen : j.status.isTerminal = false) :
    l.outstanding? j.repository = some j := by
  cases hout : l.outstanding? j.repository with
  | none =>
      have := outstanding?_eq_none_iff.1 hout id j hj
      simp [Job.isOutstanding, hopen] at this
  | some k =>
      obtain ⟨other, hk, hrep, hkopen⟩ := get?_of_outstanding? hout
      have heq := h.single id other j k hj hk hopen hkopen hrep.symm
      rw [← heq, hj] at hk
      exact hk.symm

end Ledger

end IndexRefresh
