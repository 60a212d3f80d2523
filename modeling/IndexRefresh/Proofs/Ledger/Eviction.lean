import IndexRefresh.Proofs.Ledger.History
import IndexRefresh.Proofs.Ledger.Sweeping

namespace IndexRefresh

namespace Job

variable {j k : Job}

theorem isExpired_iff {now maxAge : Duration} :
    j.isExpired now maxAge = true ↔ j.status.isTerminal = true ∧ maxAge < now - j.created := by
  rw [isExpired, Bool.and_eq_true, decide_eq_true_iff]
  rfl

structure Shares (j k : Job) : Prop where
  id : k.id = j.id
  repository : k.repository = j.repository
  created : k.created = j.created
  createdAt : k.createdAt = j.createdAt

theorem shares_moved (j : Job) (m : Moment) (move : Move) : j.Shares (j.moved m move) := by
  cases move with
  | advance status =>
      exact ⟨j.id_advanced .., j.repository_advanced .., j.created_advanced ..,
        j.createdAt_advanced ..⟩
  | finish v =>
      exact ⟨j.id_finished .., j.repository_finished .., j.created_finished ..,
        j.createdAt_finished ..⟩

theorem Becomes.shares (h : j.Becomes k) : j.Shares k := by
  induction h with
  | refl => exact ⟨rfl, rfl, rfl, rfl⟩
  | @moved k _ m move ih =>
      have hmove := k.shares_moved m move
      exact ⟨hmove.id.trans ih.id, hmove.repository.trans ih.repository,
        hmove.created.trans ih.created, hmove.createdAt.trans ih.createdAt⟩

end Job

namespace Ledger

variable {l t u : Ledger} {d : LedgerDeed} {deeds : List LedgerDeed} {id repository : String}
  {j : Job} {m : Moment}

theorem Run.maxAge_eq (h : l.Run deeds t) : t.maxAge = l.maxAge := by
  induction h with
  | done l => rfl
  | step hs _ ih => exact ih.trans hs.maxAge_eq

theorem Run.snoc (h : l.Run deeds t) (hs : t.Step d u) : l.Run (deeds ++ [d]) u := by
  induction h with
  | done l => exact .step hs (.done u)
  | step hfirst _ ih => exact .step hfirst (ih hs)

theorem get?_evict_eq_some_iff {now : Duration} :
    (l.evict now).value.1.get? id = some j ↔
      l.get? id = some j ∧ ¬(j.status.isTerminal = true ∧ l.maxAge < now - j.created) := by
  rw [get?_evict, Option.filter_eq_some_iff, ← Job.isExpired_iff]
  simp

theorem exists_evicted (l : Ledger) (now : Duration) :
    ∃ gone : List String, gone.Nodup ∧ (l.evict now).value.2 = gone.length ∧
      ∀ id, id ∈ gone ↔ ∃ j, l.get? id = some j ∧
        j.status.isTerminal = true ∧ l.maxAge < now - j.created := by
  let old := l.jobs.filter fun j => j.isExpired now l.maxAge
  refine ⟨old.keys, old.nodup_keys, ?_, fun id => ?_⟩
  · have hsize := l.jobs.size_eq_add fun j => j.isExpired now l.maxAge
    change l.jobs.size - _ = old.keys.length
    rw [hsize, Table.length_keys]
    exact Nat.add_sub_cancel ..
  · rw [Table.mem_keys]
    simp only [old, Table.get?_filter, Option.filter_eq_some_iff, Job.isExpired_iff]
    rfl

theorem evict_evict (l : Ledger) (now : Duration) :
    ((l.evict now).value.1.evict now).value = ((l.evict now).value.1, 0) := by
  let kept := l.jobs.filter fun j => !j.isExpired now l.maxAge
  have hkept : kept.filter (fun j => !j.isExpired now l.maxAge) = kept :=
    Table.filter_filter_self ..
  change (({ l with jobs := kept.filter fun j => !j.isExpired now l.maxAge } : Ledger),
    kept.size - (kept.filter fun j => !j.isExpired now l.maxAge).size) = ({ l with jobs := kept }, 0)
  rw [hkept, Nat.sub_self]

theorem created_le_of_foldl_later {newest : Option Job} {js : List Job}
    (h : js.foldl later newest = some j) :
    (∀ n, newest = some n → n.created ≤ j.created) ∧ ∀ k ∈ js, k.created ≤ j.created := by
  induction js generalizing newest with
  | nil =>
      refine ⟨fun n hn => ?_, fun k hk => absurd hk List.not_mem_nil⟩
      rw [List.foldl_nil, hn, Option.some.injEq] at h
      exact Nat.le_of_eq (congrArg Job.created h)
  | cons k js ih =>
      obtain ⟨hnewest, hrest⟩ := ih h
      cases newest with
      | none =>
          have hk : k.created ≤ j.created := hnewest k rfl
          refine ⟨fun n hn => ?_, List.forall_mem_cons.2 ⟨hk, hrest⟩⟩
          cases hn
      | some n =>
          -- whichever of the two goes on, the other is not newer
          have hboth : n.created ≤ j.created ∧ k.created ≤ j.created := by
            simp only [later] at hnewest
            split at hnewest
            · next hlt =>
                have hn : n.created ≤ j.created := hnewest n rfl
                exact ⟨hn, Nat.le_trans (Nat.le_of_lt hlt) hn⟩
            · next hge =>
                have hk : k.created ≤ j.created := hnewest k rfl
                exact ⟨Nat.le_trans (Nat.not_lt.1 hge) hk, hk⟩
          refine ⟨fun n' hn' => ?_, List.forall_mem_cons.2 ⟨hboth.2, hrest⟩⟩
          cases hn'
          exact hboth.1

theorem created_le_of_outstanding? (h : l.outstanding? repository = some j) {k : Job}
    (hk : l.get? id = some k) (hrepository : k.repository = repository)
    (hopen : k.status.isTerminal = false) : k.created ≤ j.created := by
  refine (created_le_of_foldl_later h).2 k (List.mem_filter.2 ⟨Table.mem_values.2 ⟨id, hk⟩, ?_⟩)
  simp [Job.isOutstanding, hrepository, hopen]

theorem outstanding?_evict (l : Ledger) (now : Duration) (repository : String) :
    (l.evict now).value.1.outstanding? repository = l.outstanding? repository := by
  have hvalues : (l.evict now).value.1.jobs.values =
      l.jobs.values.filter fun j => !j.isExpired now l.maxAge :=
    Table.values_filter ..
  have hopen (j : Job) : (j.isOutstanding repository && !j.isExpired now l.maxAge) =
      j.isOutstanding repository := by
    cases hdone : j.status.isTerminal <;> simp [Job.isOutstanding, Job.isExpired, hdone]
  rw [outstanding?, hvalues, List.filter_filter]
  simp only [hopen]
  rfl

theorem Run.get?_of_untouched (h : l.Run deeds t) (hj : l.get? id = some j)
    (hopen : j.status.isTerminal = false) (hstill : ∀ m move, .move m id move ∉ deeds) :
    t.get? id = some j := by
  induction h with
  | done l => exact hj
  | step hs _ ih =>
      rcases hs.get? hj with (hk | ⟨m, move, rfl, -⟩) | ⟨now, -, hold⟩
      · exact ih hk fun m move hmem => hstill m move (List.mem_cons_of_mem _ hmem)
      · exact absurd (List.mem_cons_self ..) (hstill m move)
      · rw [(Job.isExpired_iff.1 hold).1] at hopen
        cases hopen

theorem run_upTo (s : Sweep) (time : Duration) (l : Ledger) :
    ∃ deeds, l.Run deeds (s.upTo time l).value.1 ∧
      deeds = (List.range (s.dueCount time)).map fun k => .evict (s.tick k) := by
  rw [Sweep.upTo_eq, Traced.value_map]
  refine ⟨_, ?_, rfl⟩
  induction s.dueCount time with
  | zero => exact .done l
  | succ n ih =>
      rw [List.range_succ, List.map_append, Sweep.value_rounds_succ]
      exact ih.snoc (.evict _)

theorem outstanding?_eq_none_iff_all_finished :
    l.outstanding? repository = none ↔
      ∀ id j, l.get? id = some j → j.repository = repository → j.status.isTerminal = true := by
  rw [outstanding?_eq_none_iff]
  simp [Job.isOutstanding]

theorem Tidy.outstanding? (hl : l.Tidy) (h : l.outstanding? repository = some j) :
    l.get? j.id = some j ∧ j.repository = repository ∧ j.status.isTerminal = false := by
  obtain ⟨id, hj, hrest⟩ := get?_of_outstanding? h
  rw [(hl id j hj).1]
  exact ⟨hj, hrest⟩

theorem only_old_finished_jobs_go {maxAge : Duration} {history : List LedgerDeed}
    (h : (new maxAge).Run history l) :
    (∀ now,
      (∀ id j, (l.evict now).value.1.get? id = some j ↔
        l.get? id = some j ∧ ¬(j.status.isTerminal = true ∧ maxAge < now - j.created)) ∧
      (∃ gone : List String, gone.Nodup ∧ (l.evict now).value.2 = gone.length ∧
        ∀ id, id ∈ gone ↔ ∃ j, l.get? id = some j ∧
          j.status.isTerminal = true ∧ maxAge < now - j.created) ∧
      ((l.evict now).value.1.evict now).value = ((l.evict now).value.1, 0) ∧
      ∀ repository, (l.evict now).value.1.outstanding? repository = l.outstanding? repository) ∧
    (∀ m repository draws x, l.create? m repository draws = some x →
      (∀ id, x.value.1.get? id =
        if id = x.value.2 then some (.new id repository m)
        else (l.evict m.instant).value.1.get? id) ∧
      (l.evict m.instant).value.1.get? x.value.2 = none ∧
      ∀ deeds t, x.value.1.Run deeds t →
        (∃ k, t.get? x.value.2 = some k ∧ (Job.new x.value.2 repository m).Becomes k) ∨
          x.value.1.Evicts x.value.2 (.new x.value.2 repository m) deeds) ∧
    (∀ deeds t id j, l.Run deeds t → l.get? id = some j →
      ((∃ k, t.get? id = some k ∧ (t.get? id).map Job.view = some k.view ∧
          j.Becomes k ∧ j.Shares k) ∨
        l.Evicts id j deeds) ∧
      (j.status.isTerminal = false → (∀ m move, .move m id move ∉ deeds) →
        t.get? id = some j)) ∧
    (∀ (s : Sweep) time, ∃ deeds, l.Run deeds (s.upTo time l).value.1 ∧
      deeds = (List.range (s.dueCount time)).map fun k => .evict (s.tick k)) ∧
    ∀ repository,
      (l.outstanding? repository = none ↔
        ∀ id j, l.get? id = some j → j.repository = repository → j.status.isTerminal = true) ∧
      ∀ j, l.outstanding? repository = some j →
        (l.get? j.id = some j ∧ j.repository = repository ∧ j.status.isTerminal = false) ∧
        ∀ id k, l.get? id = some k → k.repository = repository → k.status.isTerminal = false →
          k.created ≤ j.created := by
  have hage : l.maxAge = maxAge := h.maxAge_eq
  subst hage
  have htidy : l.Tidy := h.tidy (tidy_new _)
  refine ⟨fun now => ⟨fun id j => get?_evict_eq_some_iff, exists_evicted l now, evict_evict l now,
      outstanding?_evict l now⟩,
    fun m repository draws x hx => ⟨(get?_create? hx).2, (get?_create? hx).1,
      fun deeds t hrun => hrun.becomes (get?_of_create? hx).1⟩,
    fun deeds t id j hrun hj => ⟨?_, hrun.get?_of_untouched hj⟩,
    fun s time => run_upTo s time l,
    fun repository => ⟨outstanding?_eq_none_iff_all_finished, fun j hj =>
      ⟨htidy.outstanding? hj, fun id k => created_le_of_outstanding? hj⟩⟩⟩
  rcases hrun.becomes hj with ⟨k, hk, hjk⟩ | hevicted
  · exact .inl ⟨k, hk, by rw [hk, Option.map_some], hjk, hjk.shares⟩
  · exact .inr hevicted

theorem only_old_finished_jobs_go_past_the_limit :
    ∃ history l u w, (new 60).Run history l ∧ l.get? "u" = some u ∧ u.status = .timedOut ∧
      (l.evict 60).value.1.get? "u" = some u ∧ (l.evict 61).value.1.get? "u" = none ∧
      l.outstanding? "a" = some w ∧ w.id = "w" ∧
      (l.evict 61).value.1.outstanding? "a" = some w ∧
      ∀ deeds t, l.Run deeds t → (∀ m move, .move m "w" move ∉ deeds) → t.get? "w" = some w := by
  let moment (seconds : Nat) : Moment := ⟨seconds, .ofEpoch 0 0⟩
  let x := ((new 60).create? (moment 0) "a" ["u"]).get rfl
  let ended := (x.value.1.move (moment 2) "u" (.finish .timedOut)).1
  let y := (ended.create? (moment 3) "a" ["v"]).get (by decide +kernel)
  let z := (y.value.1.create? (moment 4) "a" ["u", "w"]).get (by decide +kernel)
  have run : (new 60).Run _ z.value.1 :=
    .step (.create (Option.some_get _).symm) (.step (.move (moment 2) "u" (.finish .timedOut))
      (.step (.create (Option.some_get _).symm) (.step (.create (Option.some_get _).symm)
        (.done _))))
  obtain ⟨u, hu, hended⟩ := Option.map_eq_some_iff.1
    (show (z.value.1.get? "u").map Job.status = some .timedOut by decide +kernel)
  obtain ⟨w, hw, hid⟩ := Option.map_eq_some_iff.1
    (show (z.value.1.outstanding? "a").map Job.id = some "w" by decide +kernel)
  obtain ⟨hevict, -, hkept, -, houtstanding⟩ := only_old_finished_jobs_go run
  refine ⟨_, _, u, w, run, hu, hended, ?_, by decide +kernel, hw, hid, ?_, ?_⟩
  · exact ((hevict 60).1 "u" u).2 ⟨hu, fun hold => Nat.not_lt.2 (Nat.sub_le ..) hold.2⟩
  · rw [(hevict 61).2.2.2, hw]
  · intro deeds t hrun hstill
    obtain ⟨hheld, -, hopen⟩ := ((houtstanding "a").2 w hw).1
    exact (hkept deeds t "w" w hrun (hid ▸ hheld)).2 hopen hstill

end Ledger

end IndexRefresh
