import IndexRefresh.Proofs.Counting
import IndexRefresh.Proofs.Ledger.Records
import IndexRefresh.Proofs.Service.Runs

namespace IndexRefresh

def Deed.runAfter (d : Deed) (id : String) (run : Option Nat) : Option Nat :=
  match d with
  | .enter _ job => if job = id then none else run
  | .launch job i => if job = id then some i else run
  | _ => run

namespace Service

def runOf? (id : String) (history : List Deed) : Option Nat :=
  history.foldl (fun run d => d.runAfter id run) none

theorem runOf?_append_singleton (id : String) (history : List Deed) (d : Deed) :
    runOf? id (history ++ [d]) = d.runAfter id (runOf? id history) := by
  simp [runOf?]

theorem mem_of_runOf? {id : String} {history : List Deed} {i : Nat}
    (h : runOf? id history = some i) : .launch id i ∈ history := by
  suffices hrun : ∀ run, history.foldl (fun run d => d.runAfter id run) run = some i →
      run = some i ∨ .launch id i ∈ history by
    rcases hrun none h with hnone | hmem
    · cases hnone
    · exact hmem
  clear h
  induction history with
  | nil => exact fun run hrun => .inl hrun
  | cons d history ih =>
      intro run hrun
      rw [List.foldl_cons] at hrun
      rcases ih _ hrun with hafter | hmem
      · cases d with
        | enter repository job =>
            simp only [Deed.runAfter] at hafter
            split at hafter
            · cases hafter
            · exact .inl hafter
        | launch job k =>
            simp only [Deed.runAfter] at hafter
            split at hafter
            · next heq =>
                cases hafter
                exact .inr (heq ▸ List.mem_cons_self ..)
            · exact .inl hafter
        | _ => exact .inl hafter
      · exact .inr (List.mem_cons_of_mem _ hmem)

@[simp] theorem ledger_putRun (s : Service) (m : Moment) (i : Nat) (r : Run) :
    (s.putRun m i r).value.ledger = s.ledger := by
  unfold putRun
  split <;> rfl

@[simp] theorem watches_putRun (s : Service) (m : Moment) (i : Nat) (r : Run) :
    (s.putRun m i r).value.watches = s.watches := by
  unfold putRun
  split <;> rfl

@[simp] theorem launches_putRun (s : Service) (m : Moment) (i : Nat) (r : Run) :
    (s.putRun m i r).value.launches = s.launches := by
  unfold putRun
  split <;> rfl

def taskCount (s : Service) (id : String) : Nat :=
  s.launches.countP (fun l => l.job = id) + s.watches.countP (fun w => w.client = .job id)

/-- A job has a background task as long as it is not finished, and each task starts one run. -/
structure Tasked (history : List Deed) (s : Service) : Prop where
  sound : s.ledger.Sound
  counted : ∀ id, s.taskCount id = if s.ledger.isOpen id then 1 else 0
  entered : ∀ id, history.countP (fun d => d.entered? = some id) =
    s.launches.countP (fun l => l.job = id) + history.countP (fun d => d.launched? = some id)
  started : history.filterMap Deed.started? = List.range s.runs.length
  owned : ∀ w ∈ s.watches, ∀ id, w.client = .job id → runOf? id history = some w.run

theorem tasked_new (limits : Limits) (threshold : UInt64) : Tasked [] (new limits threshold) where
  sound := Ledger.sound_new limits.jobMaxAge
  counted id := by simp [taskCount, new, Ledger.new, Ledger.isOpen, Ledger.get?]
  entered id := by simp [new]
  started := by simp [new]
  owned w hw := by simp [new] at hw

theorem Tasked.of_mem_launches {history : List Deed} {s : Service} (h : Tasked history s)
    {l : Launch} (hl : l ∈ s.launches) :
    s.ledger.isOpen l.job = true ∧ ∀ w ∈ s.watches, w.client ≠ .job l.job := by
  have hpos : 0 < s.launches.countP fun k => k.job = l.job :=
    List.countP_pos_iff.2 ⟨l, hl, by simp⟩
  have hc := h.counted l.job
  unfold taskCount at hc
  split at hc
  · next hopen =>
      refine ⟨hopen, fun w hw heq => ?_⟩
      have : 0 < s.watches.countP fun v => v.client = .job l.job :=
        List.countP_pos_iff.2 ⟨w, hw, by simpa using heq⟩
      omega
  · omega

theorem Tasked.isOpen_of_client {history : List Deed} {s : Service} (h : Tasked history s)
    {w : Watch} {id : String} (hw : w ∈ s.watches) (hid : w.client = .job id) :
    s.ledger.isOpen id = true := by
  have hpos : 0 < s.watches.countP fun v => v.client = .job id :=
    List.countP_pos_iff.2 ⟨w, hw, by simpa using hid⟩
  have hc := h.counted id
  unfold taskCount at hc
  split at hc
  · next hopen => exact hopen
  · omega

theorem Effect.sound {s t : Service} {d : Deed} (he : Effect s d t) (h : s.ledger.Sound) :
    t.ledger.Sound := by
  cases he with
  | decline => exact h
  | accept => exact h
  | enter hnone _ hx => exact h.create? hx hnone
  | launch => exact h.advance_running ..
  | work =>
      rw [ledger_putRun]
      exact h
  | expire => exact h
  | @settle m w c hw =>
      unfold conclude
      split
      · exact h
      · exact h.finish ..
  | abandon => exact h
  | sweep => exact h.evict _

theorem taskCount_settle {s : Service} {m : Moment} {w : Watch} {c : Conclusion}
    (hw : w ∈ s.watches) (id : String) :
    (s.conclude m w c).value.1.taskCount id + (if w.client = .job id then 1 else 0) =
      s.taskCount id := by
  have hc := Counting.countP_erase_add (p := fun v => decide (v.client = .job id)) hw
  simp only [decide_eq_true_eq] at hc
  unfold taskCount conclude
  split <;> dsimp only <;> omega

theorem Effect.counted {history : List Deed} {s t : Service} {d : Deed} (he : Effect s d t)
    (h : Tasked history s) (id : String) :
    t.taskCount id = if t.ledger.isOpen id then 1 else 0 := by
  have hc := h.counted id
  cases he with
  | decline => exact hc
  | accept =>
      simp only [taskCount, spawn, List.countP_append, List.countP_singleton, reduceCtorEq,
        decide_false, Bool.false_eq_true, if_false, Nat.add_zero]
      exact hc
  | @enter m repository draws x hnone hfree hx =>
      have hfresh := Ledger.isOpen_of_create? hx
      simp only [taskCount, List.countP_append, List.countP_singleton,
        Ledger.isOpen_create? hx] at hc ⊢
      by_cases heq : id = x.value.2
      · subst heq
        simp only [hfresh, Bool.false_eq_true, if_false] at hc
        simp only [decide_true, Bool.true_or, if_true]
        omega
      · have hne : ¬x.value.2 = id := fun he => heq he.symm
        simp only [heq, hne, decide_false, Bool.false_or, Bool.false_eq_true, if_false]
        omega
  | @launch m l hl =>
      have hmoved := Counting.countP_erase_add (p := fun l => decide (l.job = id)) hl
      simp only [taskCount, spawn, List.countP_append, List.countP_singleton,
        Ledger.isOpen_advance_running, Client.job.injEq] at hc ⊢
      omega
  | work => simpa [taskCount] using hc
  | expire hw hr hlive =>
      have hsame (w : Watch) (i : Nat) :
          (if w.run = i then { w with gaveUp := true } else w).client = w.client := by
        split <;> rfl
      simpa [taskCount, List.countP_map, Function.comp_def, hsame] using hc
  | @settle m w c hw =>
      have hmoved := taskCount_settle (m := m) (c := c) hw id
      have hopen (hid : w.client = .job id) := h.isOpen_of_client hw hid
      rw [hc] at hmoved
      cases hw' : w.client with
      | caller =>
          simpa [hw', ledger_conclude_caller hw'] using hmoved
      | job other =>
          rw [ledger_conclude_job hw', Ledger.isOpen_finish]
          by_cases heq : id = other
          · subst heq
            rw [if_pos (hopen hw'), if_pos hw'] at hmoved
            simp only [decide_true, Bool.not_true, Bool.false_and, Bool.false_eq_true, if_false]
            omega
          · have hne : ¬other = id := fun he => heq he.symm
            simp only [hw', Client.job.injEq, hne, if_false] at hmoved
            simpa [heq] using hmoved
  | @abandon i =>
      have hsame : (s.abandon i).watches.countP (fun w => w.client = .job id) =
          s.watches.countP fun w => w.client = .job id := by
        unfold Service.abandon
        rw [List.countP_filter]
        refine List.countP_congr fun w _ => ?_
        cases w.client with
        | caller => simp
        | job other => simp
      unfold taskCount
      rw [hsame]
      exact hc
  | sweep => simpa [taskCount] using hc

theorem Effect.entered {history : List Deed} {s t : Service} {d : Deed} (he : Effect s d t)
    (h : Tasked history s) (id : String) :
    (history ++ [d]).countP (fun d => d.entered? = some id) =
      t.launches.countP (fun l => l.job = id) +
        (history ++ [d]).countP (fun d => d.launched? = some id) := by
  have hc := h.entered id
  simp only [List.countP_append, List.countP_singleton]
  generalize history.countP (fun d => decide (d.entered? = some id)) = entered at hc ⊢
  generalize history.countP (fun d => decide (d.launched? = some id)) = begun at hc ⊢
  cases he with
  | enter =>
      simp only [Deed.entered?, Deed.launched?, List.countP_append, List.countP_singleton,
        Option.some.injEq, reduceCtorEq, decide_false, Bool.false_eq_true, if_false]
      omega
  | @launch m l hl =>
      have hmoved := Counting.countP_erase_add (p := fun l => decide (l.job = id)) hl
      simp only [spawn, Deed.entered?, Deed.launched?, Option.some.injEq, reduceCtorEq,
        decide_false, Bool.false_eq_true, if_false]
      omega
  | work => simpa [Deed.entered?, Deed.launched?] using hc
  | settle => simpa [Deed.entered?, Deed.launched?] using hc
  | _ => simpa [Deed.entered?, Deed.launched?, spawn, Service.abandon] using hc

theorem Effect.started {history : List Deed} {s t : Service} {d : Deed} (he : Effect s d t)
    (h : Tasked history s) :
    (history ++ [d]).filterMap Deed.started? = List.range t.runs.length := by
  have hr := h.started
  rw [List.filterMap_append, hr]
  cases he with
  | accept => simp [Deed.started?, spawn, List.range_succ]
  | launch => simp [Deed.started?, spawn, List.range_succ]
  | work => simp [Deed.started?]
  | settle => simp [Deed.started?]
  | _ => simp [Deed.started?, Service.abandon]

theorem Effect.owned {history : List Deed} {s t : Service} {d : Deed} (he : Effect s d t)
    (h : Tasked history s) {w : Watch} (hw : w ∈ t.watches) {id : String}
    (hid : w.client = .job id) : runOf? id (history ++ [d]) = some w.run := by
  rw [runOf?_append_singleton]
  cases he with
  | accept =>
      rcases List.mem_append.1 hw with hw | hw
      · exact h.owned w hw id hid
      · rw [List.mem_singleton.1 hw] at hid
        cases hid
  | @enter m repository draws x hnone hfree hx =>
      have hopen := h.isOpen_of_client hw hid
      have hne : ¬x.value.2 = id := by
        intro heq
        rw [← heq, Ledger.isOpen_of_create? hx] at hopen
        cases hopen
      simpa [Deed.runAfter, hne] using h.owned w hw id hid
  | @launch m l hl =>
      rcases List.mem_append.1 hw with hw | hw
      · have hne : ¬l.job = id := by
          intro heq
          exact (h.of_mem_launches hl).2 w hw (heq ▸ hid)
        simpa [Deed.runAfter, hne] using h.owned w hw id hid
      · rw [List.mem_singleton.1 hw] at hid ⊢
        cases hid
        simp [Deed.runAfter]
  | work =>
      rw [watches_putRun] at hw
      exact h.owned w hw id hid
  | expire =>
      obtain ⟨v, hv, rfl⟩ := List.mem_map.1 hw
      have hvid : v.client = .job id := by
        split at hid <;> exact hid
      have hrun := h.owned v hv id hvid
      split <;> exact hrun
  | settle =>
      rw [watches_conclude] at hw
      exact h.owned w (List.mem_of_mem_erase hw) id hid
  | abandon => exact h.owned w (List.mem_filter.1 hw).1 id hid
  | _ => exact h.owned w hw id hid

theorem Effect.tasked {history : List Deed} {s t : Service} {d : Deed} (he : Effect s d t)
    (h : Tasked history s) : Tasked (history ++ [d]) t where
  sound := he.sound h.sound
  counted := he.counted h
  entered := he.entered h
  started := he.started h
  owned _ hw _ hid := he.owned h hw hid

theorem Reached.tasked {limits : Limits} {threshold : UInt64} {history : List Deed} {s : Service}
    (h : Reached limits threshold history s) : Tasked history s := by
  induction h with
  | new => exact tasked_new limits threshold
  | step _ hs ih => exact hs.effect.tasked ih

theorem Effect.records {history : List Deed} {s t : Service} {d : Deed} (he : Effect s d t)
    (h : Tasked history s) (id : String) :
    t.ledger.get? id = s.ledger.get? id ∨
      (∃ repository, d = .enter repository id) ∨
      (∃ i, d = .launch id i) ∨
      (∃ i answer, d = .settle i answer ∧ runOf? id history = some i) ∨
      (t.ledger.get? id = none ∧
        ∃ j, s.ledger.get? id = some j ∧ j.status.isTerminal = true) := by
  have evicted (now : Duration) :
      (s.ledger.evict now).value.1.get? id = s.ledger.get? id ∨
        ((s.ledger.evict now).value.1.get? id = none ∧
          ∃ j, s.ledger.get? id = some j ∧ j.status.isTerminal = true) := by
    cases hj : s.ledger.get? id with
    | none =>
        rw [Ledger.get?_evict, hj]
        exact .inl rfl
    | some j =>
        cases hopen : j.status.isTerminal with
        | false => exact .inl (Ledger.get?_evict_of_not_isTerminal now hj hopen)
        | true =>
            rw [Ledger.get?_evict, hj, Option.filter_some]
            split
            · exact .inl rfl
            · exact .inr ⟨rfl, j, rfl, hopen⟩
  cases he with
  | decline => exact .inl rfl
  | accept => exact .inl rfl
  | @enter m repository draws x hnone hfree hx =>
      rw [(Ledger.get?_create? hx).2]
      split
      · next heq => exact .inr (.inl ⟨repository, by rw [heq]⟩)
      · rcases evicted m.instant with hsame | hgone
        · exact .inl hsame
        · exact .inr (.inr (.inr (.inr hgone)))
  | @launch m l hl =>
      by_cases heq : id = l.job
      · exact .inr (.inr (.inl ⟨s.runs.length, by rw [heq]⟩))
      · refine .inl ?_
        change (s.ledger.advance m l.job .running).value.1.get? id = _
        rw [Ledger.get?_advance, if_neg heq]
  | work =>
      rw [ledger_putRun]
      exact .inl rfl
  | expire => exact .inl rfl
  | @settle m w c hw =>
      by_cases hid : w.client = .job id
      · exact .inr (.inr (.inr (.inl ⟨w.run, _, rfl, h.owned w hw id hid⟩)))
      · refine .inl ?_
        unfold conclude
        split
        · rfl
        · next other hother =>
            have hne : ¬id = other := by
              intro heq
              exact hid (heq ▸ hother)
            change (s.ledger.finish m other _).value.1.get? id = _
            rw [Ledger.get?_finish, if_neg hne]
  | abandon => exact .inl rfl
  | sweep =>
      rcases evicted _ with hsame | hgone
      · exact .inl hsame
      · exact .inr (.inr (.inr (.inr hgone)))

theorem Tasked.launch? {history : List Deed} {s : Service} (h : Tasked history s) {l : Launch}
    (hl : l ∈ s.launches) (m : Moment) :
    ∃ x, s.launch? m l.job = some x ∧ x.value.2 = s.runs.length ∧
      x.value.1.runs = s.runs ++ [.new l.repository (some l.permit)] := by
  have hle : s.launches.countP (fun k => k.job = l.job) ≤ 1 := by
    have hc := h.counted l.job
    unfold taskCount at hc
    split at hc <;> omega
  cases hfind : s.launches.find? (·.job = l.job) with
  | none =>
      rw [List.find?_eq_none] at hfind
      exact absurd (by simp) (hfind l hl)
  | some k =>
      have hjob := List.find?_some hfind
      have hk : k = l := Counting.eq_of_mem_of_countP_le_one hle
        (List.mem_of_find?_eq_some hfind) hl hjob (by simp)
      subst hk
      exact ⟨_, by rw [Service.launch?, hfind]; rfl, rfl, rfl⟩

theorem triggerAsync?_of_outstanding {s : Service} {repository : String} {j : Job}
    (h : s.ledger.outstanding? repository = some j) (m : Moment) (draws : List String) :
    ∃ x a, s.triggerAsync? m draws repository = some x ∧ x.value = (s, .admitted a) ∧
      a.jobId = j.id ∧ a.repository = repository := by
  exact ⟨_, _, by simp only [triggerAsync?, h]; rfl, rfl, rfl, rfl⟩

theorem one_task_per_job {limits : Limits} {threshold : UInt64} {history : List Deed} {s : Service}
    (h : Reached limits threshold history s) :
    (∀ id other j k, s.ledger.get? id = some j → s.ledger.get? other = some k →
      j.status.isTerminal = false → k.status.isTerminal = false → j.repository = k.repository →
      id = other) ∧
    (∀ id, history.countP (fun d => d.entered? = some id) =
        s.launches.countP (fun l => l.job = id) +
          history.countP (fun d => d.launched? = some id) ∧
      s.taskCount id = if s.ledger.isOpen id then 1 else 0) ∧
    (∀ l ∈ s.launches, ∀ m, ∃ x, s.launch? m l.job = some x ∧ x.value.2 = s.runs.length ∧
      x.value.1.runs = s.runs ++ [.new l.repository (some l.permit)]) ∧
    history.filterMap Deed.started? = List.range s.runs.length ∧
    (∀ i, ∀ d ∈ history, ∀ e ∈ history, d.started? = some i → e.started? = some i → d = e) ∧
    (∀ id i, runOf? id history = some i → .launch id i ∈ history) ∧
    (∀ d t id, Step s d t → t.ledger.get? id = s.ledger.get? id ∨
      (∃ repository, d = .enter repository id) ∨
      (∃ i, d = .launch id i) ∨
      (∃ i answer, d = .settle i answer ∧ runOf? id history = some i) ∨
      (t.ledger.get? id = none ∧
        ∃ j, s.ledger.get? id = some j ∧ j.status.isTerminal = true)) ∧
    (∀ id j, s.ledger.get? id = some j → j.status.isTerminal = false → ∀ m draws,
      ∃ x a, s.triggerAsync? m draws j.repository = some x ∧ x.value = (s, .admitted a) ∧
        a.jobId = id ∧ a.repository = j.repository) := by
  have ht := h.tasked
  refine ⟨ht.sound.single, fun id => ⟨ht.entered id, ht.counted id⟩,
    fun l hl m => ht.launch? hl m, ht.started, ?_, fun id i => mem_of_runOf?, ?_, ?_⟩
  · intro i d hd e he hdi hei
    have hnodup : (history.filterMap Deed.started?).Nodup := by
      rw [ht.started]
      exact List.nodup_range
    exact Counting.eq_of_nodup_filterMap hnodup hd he hdi hei
  · intro d t id hs
    exact hs.effect.records ht id
  · intro id j hj hopen m draws
    rw [← ht.sound.named id j hj]
    exact triggerAsync?_of_outstanding (ht.sound.outstanding?_eq_some hj hopen) m draws

theorem one_task_per_job_after_crash :
    ∃ history s,
      Reached ⟨5, 0, 100, 10⟩ 100 history s ∧ s.guard.isInProgress "a" = false ∧
      (s.ledger.get? "j").map Job.status = some .running ∧ s.taskCount "j" = 1 ∧
      ∀ m draws, ∃ x a, s.triggerAsync? m draws "a" = some x ∧ x.value = (s, .admitted a) ∧
        a.jobId = "j" ∧ a.repository = "a" := by
  have entered : Reached ⟨5, 0, 100, 10⟩ 100 [.enter "a" "j"] _ :=
    Reached.new.step (@Step.enter _ ⟨0, .ofEpoch 0 0⟩ ["j"] "a" _ _ (.started "j" "a") rfl rfl rfl)
  have launched := entered.step (@Step.launch _ ⟨1, .ofEpoch 0 0⟩ "j" _ rfl)
  have begun := launched.step (@Step.begin _ 0 _ rfl)
  have crashed := begun.step (@Step.crash _ ⟨2, .ofEpoch 0 0⟩ 0 "out of memory" _ _ rfl rfl)
  obtain ⟨-, hcount, -, -, -, -, -, hjoined⟩ := one_task_per_job crashed
  exact ⟨_, _, crashed, rfl, rfl, (hcount "j").2, hjoined "j" _ rfl rfl⟩

end Service

end IndexRefresh
