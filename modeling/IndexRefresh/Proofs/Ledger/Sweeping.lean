import IndexRefresh.Ledger.Sweep
import IndexRefresh.Proofs.Ledger.Records

namespace IndexRefresh

namespace Sweep

variable {s u : Sweep} {l : Ledger} {id : String} {j : Job} {time limit : Duration}

def tick (s : Sweep) (k : Nat) : Duration :=
  s.due + k * s.interval

theorem lt_dueCount_iff (h : 0 < s.interval) {k : Nat} : k < s.dueCount time ↔ s.tick k ≤ time := by
  unfold dueCount tick
  split
  · next hlt =>
      have hle := Nat.le_add_right s.due (k * s.interval)
      exact ⟨fun hk => absurd hk (Nat.not_lt_zero k), fun hk => by simp only [Duration] at *; omega⟩
  · next hge =>
      rw [Nat.lt_succ_iff, Nat.le_div_iff_mul_le h]
      simp only [Duration] at *
      omega

def rounds (s : Sweep) (l : Ledger) (n : Nat) : Traced Ledger :=
  (List.range n).foldl
    (fun (t : Traced Ledger) k =>
      let next := t.value.evict (s.due + k * s.interval)
      ⟨next.value.1, t.events ++ next.events⟩)
    (.quiet l)

theorem upTo_eq (s : Sweep) (time : Duration) (l : Ledger) :
    s.upTo time l = (s.rounds l (s.dueCount time)).map fun l =>
      (l, { s with due := s.tick (s.dueCount time) }) :=
  rfl

theorem value_rounds_succ (s : Sweep) (l : Ledger) (n : Nat) :
    (s.rounds l (n + 1)).value = ((s.rounds l n).value.evict (s.tick n)).value.1 := by
  unfold rounds
  rw [List.range_succ, List.foldl_append]
  rfl

@[simp] theorem maxAge_rounds (s : Sweep) (l : Ledger) (n : Nat) :
    (s.rounds l n).value.maxAge = l.maxAge := by
  induction n with
  | zero => rfl
  | succ n ih =>
      rw [value_rounds_succ]
      exact ih

theorem get?_rounds (s : Sweep) (l : Ledger) (id : String) (n : Nat) :
    (s.rounds l n).value.get? id =
      (l.get? id).filter fun j => (List.range n).all fun k => !j.isExpired (s.tick k) l.maxAge := by
  induction n with
  | zero => cases h : l.get? id <;> simp [rounds, h, Option.filter_some]
  | succ n ih =>
      rw [value_rounds_succ, Ledger.get?_evict, ih, maxAge_rounds, Option.filter_filter]
      simp [List.range_succ, Bool.and_comm]

@[simp] theorem maxAge_upTo (s : Sweep) (time : Duration) (l : Ledger) :
    (s.upTo time l).value.1.maxAge = l.maxAge :=
  maxAge_rounds ..

@[simp] theorem interval_upTo (s : Sweep) (time : Duration) (l : Ledger) :
    (s.upTo time l).value.2.interval = s.interval :=
  rfl

theorem lt_due_upTo (h : 0 < s.interval) (l : Ledger) :
    time < (s.upTo time l).value.2.due :=
  Nat.lt_of_not_le fun hle => Nat.lt_irrefl _ ((lt_dueCount_iff h).2 hle)

theorem get?_upTo_of_isTerminal_eq_false (h : l.get? id = some j)
    (hopen : j.status.isTerminal = false) : (s.upTo time l).value.1.get? id = some j := by
  rw [upTo_eq, Traced.value_map, get?_rounds, h]
  simp [Option.filter_some, Job.isExpired, hopen]

theorem get?_upTo (hs : 0 < s.interval) (h : l.get? id = some j) (time : Duration) :
    (∃ k, s.tick k ≤ time ∧ j.isExpired (s.tick k) l.maxAge = true) ∧
        (s.upTo time l).value.1.get? id = none ∨
      (¬∃ k, s.tick k ≤ time ∧ j.isExpired (s.tick k) l.maxAge = true) ∧
        (s.upTo time l).value.1.get? id = some j := by
  rw [upTo_eq, Traced.value_map, get?_rounds, h, Option.filter_some]
  simp only [← lt_dueCount_iff hs]
  cases hall : (List.range (s.dueCount time)).all fun k => !j.isExpired (s.tick k) l.maxAge with
  | false =>
      simp only [List.all_eq_false, List.mem_range, Bool.not_eq_true', Bool.not_eq_false] at hall
      exact .inl ⟨hall, rfl⟩
  | true =>
      simp only [List.all_eq_true, List.mem_range, Bool.not_eq_true'] at hall
      refine .inr ⟨?_, rfl⟩
      rintro ⟨k, hk, hold⟩
      rw [hall k hk] at hold
      cases hold

/-- The sweeps of one schedule that come after a time are those of another. -/
structure InStep (s : Sweep) (time : Duration) (u : Sweep) : Prop where
  interval : u.interval = s.interval
  due : ∃ n, u.due = s.tick n
  le : ∀ k, time < s.tick k → u.due ≤ s.tick k

theorem InStep.refl (s : Sweep) (time : Duration) : s.InStep time s where
  interval := rfl
  due := ⟨0, by simp [tick]⟩
  le k _ := Nat.le_add_right ..

theorem InStep.mono (h : s.InStep time u) (hle : time ≤ limit) : s.InStep limit u where
  interval := h.interval
  due := h.due
  le k hk := h.le k (Nat.lt_of_le_of_lt hle hk)

theorem InStep.exists_tick (h : s.InStep time u) (k : Nat) :
    ∃ n, u.tick k = s.tick (n + k) := by
  obtain ⟨n, hn⟩ := h.due
  refine ⟨n, ?_⟩
  simp only [tick] at hn ⊢
  rw [hn, h.interval, Nat.add_mul, Nat.add_assoc]

theorem InStep.exists_of_lt (h : s.InStep time u) (hs : 0 < s.interval) {k : Nat}
    (hk : time < s.tick k) : ∃ n, s.tick k = u.tick n := by
  obtain ⟨n, hn⟩ := h.due
  have hle := h.le k hk
  rw [hn] at hle
  have hnk : n * s.interval ≤ k * s.interval := Nat.le_of_add_le_add_left hle
  have hnk : n ≤ k := Nat.le_of_mul_le_mul_right hnk hs
  refine ⟨k - n, ?_⟩
  simp only [tick] at hn ⊢
  rw [hn, h.interval, Nat.add_assoc, ← Nat.add_mul, Nat.add_sub_cancel' hnk]

theorem InStep.upTo (h : s.InStep limit u) (hs : 0 < s.interval) (hle : time ≤ limit) (l : Ledger) :
    s.InStep limit (u.upTo time l).value.2 where
  interval := h.interval
  due := by
    obtain ⟨n, hn⟩ := h.exists_tick (u.dueCount time)
    exact ⟨_, hn⟩
  le k hk := by
    obtain ⟨n, hn⟩ := h.exists_of_lt hs hk
    have hu : 0 < u.interval := h.interval ▸ hs
    have hlater : ¬n < u.dueCount time := by
      rw [lt_dueCount_iff hu, ← hn]
      exact Nat.not_le.2 (Nat.lt_of_le_of_lt hle hk)
    rw [hn]
    exact Nat.add_le_add_left (Nat.mul_le_mul_right _ (Nat.not_lt.1 hlater)) _

def Evicts (s : Sweep) (maxAge since limit : Duration) (j : Job) : Prop :=
  ∃ k, since < s.tick k ∧ s.tick k ≤ limit ∧ maxAge < j.age (s.tick k)

theorem InStep.evicts_iff (h : s.InStep time u) (hs : 0 < s.interval) (hdue : time < u.due)
    (maxAge limit : Duration) (j : Job) :
    s.Evicts maxAge time limit j ↔ ∃ k, u.tick k ≤ limit ∧ maxAge < j.age (u.tick k) := by
  constructor
  · rintro ⟨k, hk, hrest⟩
    obtain ⟨n, hn⟩ := h.exists_of_lt hs hk
    exact ⟨n, hn ▸ hrest⟩
  · rintro ⟨n, hrest⟩
    obtain ⟨k, hk⟩ := h.exists_tick n
    refine ⟨k + n, ?_, hk ▸ hrest⟩
    rw [← hk]
    exact Nat.lt_of_lt_of_le hdue (Nat.le_add_right ..)

end Sweep

end IndexRefresh
