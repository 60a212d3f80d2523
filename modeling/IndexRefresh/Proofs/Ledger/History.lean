import IndexRefresh.Proofs.Ledger.Records

namespace IndexRefresh

def JobStatus.rank : JobStatus → Nat
  | .pending => 0
  | .running => 1
  | _ => 2

inductive Move where
  | advance (status : JobStatus)
  | finish (v : Ledger.Verdict)

def Move.target : Move → JobStatus
  | .advance status => status
  | .finish v => v.status

namespace Job

structure Consistent (j : Job) : Prop where
  finished : j.finishedAt.isSome = j.status.isTerminal
  started : j.status = .pending → j.startedAt = none
  result : j.result.isSome = true → j.status = .completed
  error : j.error.isSome = true → j.status = .failed ∨ j.status = .timedOut

structure Continues (j k : Job) : Prop where
  rank : j.status.rank ≤ k.status.rank
  settled : j.status.isTerminal = true → k = j

def Admits (j : Job) (status : JobStatus) : Prop :=
  j.status.isTerminal = false ∧ ¬(j.status = .running ∧ status = .pending)

def moved (j : Job) (m : Moment) : Move → Job
  | .advance status => j.advanced m status
  | .finish v => j.finished m v

inductive Becomes (j : Job) : Job → Prop where
  | refl : Becomes j j
  | moved {k : Job} (h : Becomes j k) (m : Moment) (move : Move) : Becomes j (k.moved m move)

variable {j k n : Job} {m : Moment} {status : JobStatus} {move : Move}

theorem consistent_new (id repository : String) (m : Moment) :
    (new id repository m).Consistent where
  finished := rfl
  started _ := rfl
  result h := by cases h
  error h := by cases h

theorem Consistent.eq_none_of_open (h : j.Consistent) (hopen : j.status.isTerminal = false) :
    j.finishedAt = none ∧ j.result = none ∧ j.error = none := by
  refine ⟨?_, ?_, ?_⟩
  · rw [← Option.not_isSome_iff_eq_none, h.finished, hopen]
    exact Bool.false_ne_true
  · rw [← Option.not_isSome_iff_eq_none]
    intro hsome
    rw [h.result hsome] at hopen
    cases hopen
  · rw [← Option.not_isSome_iff_eq_none]
    intro hsome
    rcases h.error hsome with heq | heq <;> rw [heq] at hopen <;> cases hopen

theorem Consistent.result_or_error (h : j.Consistent) : j.result = none ∨ j.error = none := by
  cases hresult : j.result with
  | none => exact .inl rfl
  | some r =>
      refine .inr (Option.not_isSome_iff_eq_none.1 fun hsome => ?_)
      have hdone : j.status = .completed := h.result (by rw [hresult]; rfl)
      rcases h.error hsome with heq | heq <;> rw [hdone] at heq <;> cases heq

theorem Continues.refl (j : Job) : j.Continues j :=
  ⟨Nat.le_refl _, fun _ => rfl⟩

theorem Continues.trans (h : j.Continues k) (hk : k.Continues n) : j.Continues n where
  rank := Nat.le_trans h.rank hk.rank
  settled hdone := by
    have heq := h.settled hdone
    subst heq
    exact hk.settled hdone

theorem admits_iff :
    j.Admits status ↔
      ¬(j.status.isTerminal || (j.status == .running && status == .pending)) = true := by
  simp [Admits]

theorem admits_status_iff (v : Ledger.Verdict) :
    j.Admits v.status ↔ ¬j.status.isTerminal = true := by
  cases v <;> simp [Admits, Ledger.Verdict.status]

theorem rank_le_of_admits (h : j.Admits status) : j.status.rank ≤ status.rank := by
  obtain ⟨hopen, hback⟩ := h
  cases hj : j.status with
  | pending => exact Nat.zero_le _
  | running =>
      cases status with
      | pending => exact absurd ⟨hj, rfl⟩ hback
      | _ => decide
  | _ =>
      rw [hj] at hopen
      cases hopen

theorem advanced_of_admits (h : j.Admits status) :
    j.advanced m status =
      { j with
        startedAt := if status = .running then some m.stamp else j.startedAt
        finishedAt := if status.isTerminal = true then some m.stamp else j.finishedAt
        status := status } := by
  rw [advanced, if_neg (admits_iff.1 h)]
  cases status <;> rfl

theorem finished_of_admits {v : Ledger.Verdict} (h : j.Admits v.status) :
    j.finished m v = { v.record j with status := v.status, finishedAt := some m.stamp } :=
  if_neg ((admits_status_iff v).1 h)

theorem moved_of_not_admits (h : ¬j.Admits move.target) : j.moved m move = j := by
  cases move with
  | advance status => exact if_pos (Decidable.not_not.1 fun hgo => h (admits_iff.2 hgo))
  | finish v => exact if_pos (Decidable.not_not.1 fun hgo => h ((admits_status_iff v).2 hgo))

theorem status_moved (h : j.Admits move.target) : (j.moved m move).status = move.target := by
  cases move with
  | advance status => exact congrArg Job.status (advanced_of_admits h)
  | finish v => exact congrArg Job.status (finished_of_admits h)

@[simp] theorem id_moved (j : Job) (m : Moment) (move : Move) : (j.moved m move).id = j.id := by
  cases move with
  | advance status => exact j.id_advanced m status
  | finish v => exact j.id_finished m v

theorem Consistent.of_advance (h : j.Consistent) (hgo : j.Admits status) :
    (j.advanced m status).Consistent := by
  obtain ⟨hfinished, hresult, herror⟩ := h.eq_none_of_open hgo.1
  rw [advanced_of_admits hgo]
  refine ⟨?_, ?_, by simp [hresult], by simp [herror]⟩
  · cases status <;> simp [hfinished, JobStatus.isTerminal]
  · rintro rfl
    -- only a job that is still pending stays so, and then nothing has started it
    have hpending : j.status = .pending := by
      cases hj : j.status with
      | pending => rfl
      | running => exact absurd ⟨hj, rfl⟩ hgo.2
      | _ =>
          have hopen := hgo.1
          rw [hj] at hopen
          cases hopen
    exact h.started hpending

theorem Consistent.of_finish (h : j.Consistent) {v : Ledger.Verdict} (hgo : j.Admits v.status) :
    (j.finished m v).Consistent := by
  obtain ⟨-, hresult, herror⟩ := h.eq_none_of_open hgo.1
  rw [finished_of_admits hgo]
  cases v with
  | completed r => exact ⟨rfl, nofun, fun _ => rfl, by simp [Ledger.Verdict.record, herror]⟩
  | failed message =>
      exact ⟨rfl, nofun, by simp [Ledger.Verdict.record, hresult], fun _ => .inl rfl⟩
  | timedOut => exact ⟨rfl, nofun, by simp [Ledger.Verdict.record, hresult], fun _ => .inr rfl⟩

theorem Consistent.moved (h : j.Consistent) (m : Moment) (move : Move) :
    (j.moved m move).Consistent := by
  by_cases hgo : j.Admits move.target
  · cases move with
    | advance status => exact h.of_advance hgo
    | finish v => exact h.of_finish hgo
  · rw [moved_of_not_admits hgo]
    exact h

theorem continues_moved (j : Job) (m : Moment) (move : Move) :
    j.Continues (j.moved m move) := by
  by_cases hgo : j.Admits move.target
  · refine ⟨?_, fun hdone => ?_⟩
    · rw [status_moved hgo]
      exact rank_le_of_admits hgo
    · rw [hgo.1] at hdone
      cases hdone
  · rw [moved_of_not_admits hgo]
    exact .refl j

theorem Becomes.continues (h : j.Becomes k) : j.Continues k := by
  induction h with
  | refl => exact .refl j
  | moved _ m move ih => exact ih.trans (continues_moved _ m move)

theorem Becomes.trans (h : j.Becomes k) (hk : k.Becomes n) : j.Becomes n := by
  induction hk with
  | refl => exact h
  | moved _ m move ih => exact ih.moved m move

end Job

inductive LedgerDeed where
  | create (m : Moment) (repository id : String)
  | move (m : Moment) (id : String) (move : Move)
  | evict (now : Duration)

def LedgerDeed.sweptAt? : LedgerDeed → Option Duration
  | .create m _ _ => some m.instant
  | .move _ _ _ => none
  | .evict now => some now

namespace Ledger

def move (l : Ledger) (m : Moment) (id : String) : Move → Ledger × Bool
  | .advance status => (l.advance m id status).value
  | .finish v => (l.finish m id v).value

inductive Step (l : Ledger) : LedgerDeed → Ledger → Prop where
  | create {m : Moment} {repository : String} {draws : List String} {x : Traced (Ledger × String)}
      (h : l.create? m repository draws = some x) :
      Step l (.create m repository x.value.2) x.value.1
  | move (m : Moment) (id : String) (move : Move) : Step l (.move m id move) (l.move m id move).1
  | evict (now : Duration) : Step l (.evict now) (l.evict now).value.1

inductive Run : Ledger → List LedgerDeed → Ledger → Prop where
  | done (l : Ledger) : Run l [] l
  | step {l t u : Ledger} {d : LedgerDeed} {deeds : List LedgerDeed} (hs : l.Step d t)
      (h : Run t deeds u) : Run l (d :: deeds) u

def Sweeps (l : Ledger) (id : String) (j : Job) (deeds : List LedgerDeed) : Prop :=
  ∃ first d rest t k now, deeds = first ++ d :: rest ∧ l.Run first t ∧ t.get? id = some k ∧
    j.Continues k ∧ d.sweptAt? = some now ∧ k.isExpired now l.maxAge = true

def Evicts (l : Ledger) (id : String) (j : Job) (deeds : List LedgerDeed) : Prop :=
  ∃ first d rest t k now, deeds = first ++ d :: rest ∧ l.Run first t ∧ t.get? id = some k ∧
    j.Becomes k ∧ d.sweptAt? = some now ∧ k.isExpired now l.maxAge = true

def Tidy (l : Ledger) : Prop :=
  ∀ id j, l.get? id = some j → j.id = id ∧ j.Consistent

variable {l t : Ledger} {d : LedgerDeed} {deeds : List LedgerDeed} {m : Moment} {move : Move}
  {id : String} {j : Job}

theorem get?_move (l : Ledger) (m : Moment) (id : String) (move : Move) (other : String) :
    (l.move m id move).1.get? other =
      if other = id then (l.get? id).map (·.moved m move) else l.get? other := by
  cases move with
  | advance status => exact get?_advance l m id status other
  | finish v => exact get?_finish l m id v other

theorem move_of_admits (hj : l.get? id = some j) (h : j.Admits move.target) :
    (l.move m id move).2 = true := by
  cases move with
  | advance status =>
      simp only [Ledger.move, advance, hj]
      split
      · next hstay => exact absurd hstay (Job.admits_iff.1 h)
      · rfl
  | finish v =>
      simp only [Ledger.move, finish, hj]
      split
      · next hdone => exact absurd hdone ((Job.admits_status_iff v).1 h)
      · rfl

theorem move_of_not_admits (h : ∀ j, l.get? id = some j → ¬j.Admits move.target) :
    l.move m id move = (l, false) := by
  cases move with
  | advance status =>
      simp only [Ledger.move, advance]
      split
      · rfl
      · next j hj =>
          split
          · rfl
          · next hgo => exact absurd (Job.admits_iff.2 hgo) (h j hj)
  | finish v =>
      simp only [Ledger.move, finish]
      split
      · rfl
      · next j hj =>
          split
          · rfl
          · next hgo => exact absurd ((Job.admits_status_iff v).2 hgo) (h j hj)

theorem move_eq_true_iff :
    (l.move m id move).2 = true ↔ ∃ j, l.get? id = some j ∧ j.Admits move.target := by
  constructor
  · intro htrue
    apply Classical.byContradiction
    intro hnone
    rw [move_of_not_admits fun j hj hgo => hnone ⟨j, hj, hgo⟩] at htrue
    cases htrue
  · rintro ⟨j, hj, hgo⟩
    exact move_of_admits hj hgo

theorem Step.maxAge_eq (hs : l.Step d t) : t.maxAge = l.maxAge := by
  cases hs with
  | create h =>
      obtain ⟨new, -, rfl⟩ := Option.map_eq_some_iff.1 h
      rfl
  | move m id move =>
      cases move with
      | advance status =>
          simp only [Ledger.move, advance]
          split
          · rfl
          · split <;> rfl
      | finish v =>
          simp only [Ledger.move, finish]
          split
          · rfl
          · split <;> rfl
  | evict => rfl

theorem Step.get? (hs : l.Step d t) (hj : l.get? id = some j) :
    (t.get? id = some j ∨
        ∃ m move, d = .move m id move ∧ t.get? id = some (j.moved m move)) ∨
      ∃ now, d.sweptAt? = some now ∧ j.isExpired now l.maxAge = true := by
  have evicted (now : Duration) :
      (l.evict now).value.1.get? id = some j ∨ j.isExpired now l.maxAge = true := by
    cases hold : j.isExpired now l.maxAge with
    | true => exact .inr rfl
    | false => exact .inl (get?_evict_of_not_isExpired hj hold)
  cases hs with
  | @create m repository draws x h =>
      obtain ⟨hfree, hget⟩ := get?_create? h
      rcases evicted m.instant with hkept | hold
      · refine .inl (.inl ?_)
        rw [hget, if_neg, hkept]
        rintro rfl
        rw [hfree] at hkept
        cases hkept
      · exact .inr ⟨_, rfl, hold⟩
  | move m other move =>
      rw [get?_move]
      split
      · next heq =>
          subst heq
          rw [hj]
          exact .inl (.inr ⟨m, move, rfl, rfl⟩)
      · exact .inl (.inl hj)
  | evict now =>
      rcases evicted now with hkept | hold
      · exact .inl (.inl hkept)
      · exact .inr ⟨_, rfl, hold⟩

theorem Evicts.sweeps (h : l.Evicts id j deeds) : l.Sweeps id j deeds := by
  obtain ⟨first, d, rest, t, k, now, hdeeds, hrun, hk, hjk, hrest⟩ := h
  exact ⟨first, d, rest, t, k, now, hdeeds, hrun, hk, hjk.continues, hrest⟩

theorem Evicts.cons (hs : l.Step d t) {k : Job} (hjk : j.Becomes k) (h : t.Evicts id k deeds) :
    l.Evicts id j (d :: deeds) := by
  obtain ⟨first, e, rest, u, n, now, rfl, hrun, hn, hkn, hsweep, hold⟩ := h
  rw [hs.maxAge_eq] at hold
  exact ⟨d :: first, e, rest, u, n, now, rfl, .step hs hrun, hn, hjk.trans hkn, hsweep, hold⟩

theorem Run.becomes (h : l.Run deeds t) (hj : l.get? id = some j) :
    (∃ k, t.get? id = some k ∧ j.Becomes k) ∨ l.Evicts id j deeds := by
  -- a sweep that comes later finds what the record has become by then
  induction h generalizing j with
  | done l => exact .inl ⟨j, hj, .refl⟩
  | @step l t u d deeds hs _ ih =>
      have onward (k : Job) (hjk : j.Becomes k) (hk : t.get? id = some k) :
          (∃ n, u.get? id = some n ∧ j.Becomes n) ∨ l.Evicts id j (d :: deeds) := by
        rcases ih hk with ⟨n, hn, hkn⟩ | hevicted
        · exact .inl ⟨n, hn, hjk.trans hkn⟩
        · exact .inr (hevicted.cons hs hjk)
      rcases hs.get? hj with (hk | ⟨m, move, -, hk⟩) | ⟨now, hsweep, hold⟩
      · exact onward j .refl hk
      · exact onward _ (Job.Becomes.refl.moved m move) hk
      · exact .inr ⟨[], _, _, _, j, now, rfl, .done _, hj, .refl, hsweep, hold⟩

theorem Run.continues (h : l.Run deeds t) (hj : l.get? id = some j) :
    (∃ k, t.get? id = some k ∧ j.Continues k) ∨ l.Sweeps id j deeds :=
  (h.becomes hj).imp (fun ⟨k, hk, hjk⟩ => ⟨k, hk, hjk.continues⟩) Evicts.sweeps

theorem tidy_new (maxAge : Duration) : (new maxAge).Tidy := by
  intro id j hj
  cases hj

theorem Step.tidy (hs : l.Step d t) (h : l.Tidy) : t.Tidy := by
  intro id j hj
  cases hs with
  | create hx =>
      rw [(get?_create? hx).2] at hj
      split at hj
      · next heq =>
          cases hj
          rw [heq]
          exact ⟨rfl, Job.consistent_new _ _ _⟩
      · exact h id j (get?_of_get?_evict hj)
  | move m other move =>
      rw [get?_move] at hj
      split at hj
      · next heq =>
          obtain ⟨k, hk, rfl⟩ := Option.map_eq_some_iff.1 hj
          obtain ⟨hid, hconsistent⟩ := h other k hk
          exact ⟨by rw [Job.id_moved, hid, heq], hconsistent.moved m move⟩
      · exact h id j hj
  | evict now => exact h id j (get?_of_get?_evict hj)

theorem Run.tidy (h : l.Run deeds t) (hl : l.Tidy) : t.Tidy := by
  induction h with
  | done l => exact hl
  | step hs _ ih => exact ih (hs.tidy hl)

theorem get?_of_create? {repository : String} {draws : List String} {x : Traced (Ledger × String)}
    (h : l.create? m repository draws = some x) :
    x.value.1.get? x.value.2 = some (.new x.value.2 repository m) ∧
      ∀ id j, l.get? id = some j → j.isExpired m.instant l.maxAge = false →
        id ≠ x.value.2 ∧ x.value.1.get? id = some j := by
  obtain ⟨hfree, hget⟩ := get?_create? h
  refine ⟨by rw [hget, if_pos rfl], fun id j hj hyoung => ?_⟩
  have hkept := get?_evict_of_not_isExpired hj hyoung
  have hne : id ≠ x.value.2 := by
    rintro rfl
    rw [hfree] at hkept
    cases hkept
  exact ⟨hne, by rw [hget, if_neg hne, hkept]⟩

theorem jobs_only_move_on {maxAge : Duration} {history : List LedgerDeed}
    (h : (new maxAge).Run history l) :
    (∀ id j, l.get? id = some j → j.id = id ∧ j.Consistent ∧ (j.result = none ∨ j.error = none)) ∧
    (∀ m repository draws x, l.create? m repository draws = some x →
      x.value.1.get? x.value.2 = some (.new x.value.2 repository m) ∧
      ∀ id j, l.get? id = some j → j.isExpired m.instant l.maxAge = false →
        id ≠ x.value.2 ∧ x.value.1.get? id = some j) ∧
    (∀ deeds t id j, l.Run deeds t → l.get? id = some j →
      (∃ k, t.get? id = some k ∧ j.Continues k) ∨ l.Sweeps id j deeds) ∧
    ∀ m id move,
      ((l.move m id move).2 = true ↔ ∃ j, l.get? id = some j ∧ j.status.isTerminal = false ∧
        ¬(j.status = .running ∧ move.target = .pending)) ∧
      ((l.move m id move).2 = true →
        ∃ k, (l.move m id move).1.get? id = some k ∧ k.status = move.target) ∧
      ((l.move m id move).2 = false → (l.move m id move).1 = l) ∧
      ∀ other, other ≠ id → (l.move m id move).1.get? other = l.get? other := by
  refine ⟨fun id j hj => ?_, fun m repository draws x hx => get?_of_create? hx,
    fun deeds t id j hrun hj => hrun.continues hj,
    fun m id move => ⟨move_eq_true_iff, fun htrue => ?_, fun hfalse => ?_, fun other hne => ?_⟩⟩
  · obtain ⟨hid, hconsistent⟩ := h.tidy (tidy_new maxAge) id j hj
    exact ⟨hid, hconsistent, hconsistent.result_or_error⟩
  · obtain ⟨j, hj, hgo⟩ := move_eq_true_iff.1 htrue
    exact ⟨j.moved m move, by rw [get?_move, if_pos rfl, hj, Option.map_some], Job.status_moved hgo⟩
  · rw [move_of_not_admits fun j hj hgo => ?_]
    rw [move_of_admits hj hgo] at hfalse
    cases hfalse
  · rw [get?_move, if_neg hne]

theorem jobs_only_move_on_past_timeout :
    ∃ history l j, (new 60).Run history l ∧ l.get? "u" = some j ∧ j.status = .timedOut ∧
      j.error.isSome = true ∧ j.result = none ∧
      (∀ m, (l.move m "u" (.advance .completed)).1 = l) ∧
      ∀ deeds t, l.Run deeds t → t.get? "u" = some j ∨ l.Sweeps "u" j deeds := by
  let moment (seconds : Nat) : Moment := ⟨seconds, .ofEpoch 0 0⟩
  have created : (new 60).Step _ _ := @Step.create _ (moment 0) "a" ["u"] _ rfl
  have run : (new 60).Run _ _ :=
    .step created (.step (.move (moment 1) "u" (.advance .running))
      (.step (.move (moment 2) "u" (.finish .timedOut)) (.done _)))
  obtain ⟨-, -, hkept, hmove⟩ := jobs_only_move_on run
  refine ⟨_, _, _, run, rfl, rfl, rfl, rfl, fun m => ?_, fun deeds t ht => ?_⟩
  · obtain ⟨hiff, -, hrefused, -⟩ := hmove m "u" (.advance .completed)
    exact hrefused rfl
  · rcases hkept deeds t "u" _ ht rfl with ⟨k, hk, hcontinues⟩ | hswept
    · rw [hcontinues.settled rfl] at hk
      exact .inl hk
    · exact .inr hswept

end Ledger

end IndexRefresh
