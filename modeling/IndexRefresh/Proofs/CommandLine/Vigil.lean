import IndexRefresh.CommandLine.Vigil
import IndexRefresh.Proofs.Ledger.Sweeping

namespace IndexRefresh

theorem Moment.le_later (a b : Moment) : a.instant ≤ (a.later b).instant := by
  unfold later
  split
  · next hlt => exact Nat.le_of_lt hlt
  · exact Nat.le_refl _

theorem Moment.le_later_right (a b : Moment) : b.instant ≤ (a.later b).instant := by
  unfold later
  split
  · exact Nat.le_refl _
  · next hge => exact Nat.not_lt.1 hge

theorem Moment.later_le {a b : Moment} {time : Duration} (ha : a.instant ≤ time)
    (hb : b.instant ≤ time) : (a.later b).instant ≤ time := by
  unfold later
  split
  · exact hb
  · exact ha

namespace CommandLine

namespace Inquiry

variable {q : Inquiry} {since time limit : Duration}

theorem le_of_mem_between (h : time ∈ q.between since limit) : time ≤ limit := by
  obtain ⟨k, hk, rfl⟩ := List.mem_map.1 h
  have hk := List.mem_range'_1.1 hk
  have hcount : k ≤ q.count limit := by omega
  have hle := Nat.mul_le_of_le_div _ _ _ hcount
  have hstarted : q.start < limit := by
    rcases Nat.lt_or_ge q.start limit with hlt | hge
    · exact hlt
    · rw [count, Nat.sub_eq_zero_of_le hge, Nat.zero_div] at hcount
      omega
  simp only [tick, Duration] at *
  omega

end Inquiry

namespace Vigil

variable {v : Vigil} {s : Sweep} {job : Job} {time limit : Duration} {q : Option Inquiry}
  {m : Moment}

structure Awaits (s : Sweep) (time : Duration) (job : Job) (v : Vigil) : Prop where
  entered : v.service.ledger.get? job.id = some job
  isOpen : job.status.isTerminal = false
  answer : v.answer = none
  sweep : s.InStep time v.sweep

theorem Awaits.mono (h : v.Awaits s time job) (hle : time ≤ limit) : v.Awaits s limit job where
  entered := h.entered
  isOpen := h.isOpen
  answer := h.answer
  sweep := h.sweep.mono hle

theorem lt_due_sweepTo (h : 0 < v.sweep.interval) : time < (v.sweepTo time).value.sweep.due :=
  Sweep.lt_due_upTo h v.service.ledger

theorem Awaits.sweepTo (h : v.Awaits s limit job) (hs : 0 < s.interval) (hle : time ≤ limit) :
    (v.sweepTo time).value.Awaits s limit job where
  entered := Sweep.get?_upTo_of_isTerminal_eq_false h.entered h.isOpen
  isOpen := h.isOpen
  answer := h.answer
  sweep := h.sweep.upTo hs hle v.service.ledger

theorem Awaits.ask (h : v.Awaits s limit job) (hs : 0 < s.interval) (hle : time ≤ limit) :
    (v.ask job.id time).value.Awaits s limit job := by
  have hswept := h.sweepTo hs hle
  have htold : (v.sweepTo time).value.service.jobStatus job.id = .ok job.view := by
    simp only [Service.jobStatus, hswept.entered]
  have hopen : isFinal (.ok job.view) = false := h.isOpen
  simp only [Vigil.ask, h.answer, Option.isSome_none, Bool.false_eq_true, if_false, htold, hopen]
  exact {
    entered := hswept.entered
    isOpen := h.isOpen
    answer := rfl
    sweep := hswept.sweep }

theorem Awaits.askAll (hs : 0 < s.interval) {times : List Duration}
    (hle : ∀ time ∈ times, time ≤ limit) (h : v.Awaits s limit job) :
    (v.askAll job.id times).value.Awaits s limit job := by
  induction times generalizing v with
  | nil => exact h
  | cons time times ih =>
      have hasked := h.ask hs (hle time (List.mem_cons_self ..))
      exact ih (fun t ht => hle t (List.mem_cons_of_mem _ ht)) hasked

theorem Awaits.askDue (h : v.Awaits s limit job) (hs : 0 < s.interval)
    (hq : ∀ i ∈ q, i.job = job.id) : (v.askDue limit q).value.Awaits s limit job := by
  cases q with
  | none => exact h
  | some i =>
      rw [Vigil.askDue, hq i rfl]
      exact h.askAll hs fun time ht => Inquiry.le_of_mem_between ht

theorem Awaits.upTo (h : v.Awaits s v.now.instant job) (hs : 0 < s.interval)
    (hq : ∀ i ∈ q, i.job = job.id) (m : Moment) :
    (v.upTo q m).value.Awaits s (v.now.later m).instant job ∧
      (v.now.later m).instant < (v.upTo q m).value.sweep.due := by
  have hasked := (h.mono (v.now.le_later m)).askDue hs hq
  have hswept := hasked.sweepTo hs (Nat.le_refl _)
  refine ⟨?_, lt_due_sweepTo (hasked.sweep.interval ▸ hs)⟩
  exact {
    entered := hswept.entered
    isOpen := hswept.isOpen
    answer := hswept.answer
    sweep := hswept.sweep }

theorem service_sweepTo (v : Vigil) (time : Duration) :
    ∃ l, (v.sweepTo time).value.service = { v.service with ledger := l } ∧
      l.maxAge = v.service.ledger.maxAge :=
  ⟨_, rfl, Sweep.maxAge_upTo ..⟩

theorem service_ask (v : Vigil) (id : String) (time : Duration) :
    ∃ l, (v.ask id time).value.service = { v.service with ledger := l } ∧
      l.maxAge = v.service.ledger.maxAge := by
  unfold ask
  split
  · exact ⟨_, rfl, rfl⟩
  · exact v.service_sweepTo time

theorem now_ask (v : Vigil) (id : String) (time : Duration) : (v.ask id time).value.now = v.now := by
  unfold ask
  split
  · rfl
  · rfl

theorem service_askAll (v : Vigil) (id : String) (times : List Duration) :
    ∃ l, (v.askAll id times).value.service = { v.service with ledger := l } ∧
      l.maxAge = v.service.ledger.maxAge := by
  induction times generalizing v with
  | nil => exact ⟨_, rfl, rfl⟩
  | cons time times ih =>
      obtain ⟨k, hk, hage⟩ := v.service_ask id time
      obtain ⟨l, hl, hages⟩ := ih (v.ask id time).value
      rw [hk] at hl hages
      exact ⟨l, hl, hages.trans hage⟩

theorem service_askDue (v : Vigil) (time : Duration) (q : Option Inquiry) :
    ∃ l, (v.askDue time q).value.service = { v.service with ledger := l } ∧
      l.maxAge = v.service.ledger.maxAge := by
  cases q with
  | none => exact ⟨_, rfl, rfl⟩
  | some i => exact v.service_askAll i.job _

theorem service_upTo (v : Vigil) (q : Option Inquiry) (m : Moment) :
    ∃ l, (v.upTo q m).value.service = { v.service with ledger := l } ∧
      l.maxAge = v.service.ledger.maxAge := by
  obtain ⟨k, hk, hage⟩ := v.service_askDue (v.now.later m).instant q
  obtain ⟨l, hl, hages⟩ := (v.askDue (v.now.later m).instant q).value.service_sweepTo
    (v.now.later m).instant
  rw [hk] at hl hages
  exact ⟨l, hl, hages.trans hage⟩

theorem ask_of_isTerminal (hs : 0 < v.sweep.interval) (hanswer : v.answer = none)
    (hjob : v.service.ledger.get? job.id = some job) (hdone : job.status.isTerminal = true)
    (time : Duration) :
    (v.ask job.id time).value.answer = some (.ok job.view) ∧
        (¬∃ k, v.sweep.tick k ≤ time ∧
          v.service.ledger.maxAge < job.age (v.sweep.tick k)) ∨
      (v.ask job.id time).value.answer =
          some (.error (.jobNotFound job.id v.service.ledger.maxAge)) ∧
        ∃ k, v.sweep.tick k ≤ time ∧ v.service.ledger.maxAge < job.age (v.sweep.tick k) := by
  have hcases := Sweep.get?_upTo hs hjob time
  simp only [Job.isExpired, hdone, Bool.true_and, decide_eq_true_eq] at hcases
  simp only [ask, hanswer, Option.isSome_none, Bool.false_eq_true, if_false, Service.jobStatus]
  rcases hcases with ⟨hevicted, hnone⟩ | ⟨hkept, hsome⟩
  · refine .inr ⟨?_, hevicted⟩
    change (v.sweepTo time).value.service.ledger.get? job.id = none at hnone
    have hage : (v.sweepTo time).value.service.ledger.maxAge = v.service.ledger.maxAge :=
      Sweep.maxAge_upTo ..
    simp only [hnone, hage, isFinal, if_true]
  · refine .inl ⟨?_, hkept⟩
    change (v.sweepTo time).value.service.ledger.get? job.id = some job at hsome
    have hfinal : isFinal (.ok job.view) = true := hdone
    simp only [hsome, hfinal, if_true]

end Vigil

end CommandLine

end IndexRefresh
