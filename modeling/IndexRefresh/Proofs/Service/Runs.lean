import IndexRefresh.Proofs.Service.Effect

namespace IndexRefresh

namespace Service

variable {s t : Service} {i j : Nat} {d : Deed}

theorem runs_putRun (s : Service) (m : Moment) (i : Nat) (q : Run) :
    ∃ permit, (s.putRun m i q).value.runs = s.runs.set i { q with permit := permit } := by
  unfold putRun
  split
  · exact ⟨none, rfl⟩
  · exact ⟨q.permit, rfl⟩

theorem getElem?_putRun_self (hi : i < s.runs.length) (m : Moment) (q : Run) :
    ∃ permit, (s.putRun m i q).value.runs[i]? = some { q with permit := permit } := by
  unfold putRun
  split
  · exact ⟨none, List.getElem?_set_self hi⟩
  · exact ⟨q.permit, List.getElem?_set_self hi⟩

theorem getElem?_putRun_of_ne (hij : i ≠ j) (m : Moment) (q : Run) :
    (s.putRun m i q).value.runs[j]? = s.runs[j]? := by
  unfold putRun
  split <;> exact List.getElem?_set_ne hij

theorem getElem?_putRun {m : Moment} {r q : Run} (hi : i < s.runs.length)
    (hq : (s.putRun m i r).value.runs[j]? = some q) :
    (j = i ∧ q.repository = r.repository ∧ q.state = r.state) ∨
      (j ≠ i ∧ s.runs[j]? = some q) := by
  by_cases hij : j = i
  · subst hij
    obtain ⟨permit, hself⟩ := getElem?_putRun_self hi m r
    cases hself.symm.trans hq
    exact .inl ⟨rfl, rfl, rfl⟩
  · exact .inr ⟨hij, (getElem?_putRun_of_ne (Ne.symm hij) m r).symm.trans hq⟩

theorem getElem?_append_new {runs : List Run} {repository : String} {permit : Option Permit}
    {q : Run} (hq : (runs ++ [.new repository permit])[j]? = some q) :
    runs[j]? = some q ∨ (runs.length ≤ j ∧ q.state = .admitted) := by
  rw [List.getElem?_append] at hq
  split at hq
  · exact .inl hq
  · next hge =>
      rw [List.mem_singleton.1 (List.mem_of_getElem? hq)]
      exact .inr ⟨Nat.not_lt.1 hge, rfl⟩

theorem Effect.state_cases (h : Effect s d t) {q : Run} (hq : t.runs[j]? = some q) :
    (s.runs.length ≤ j ∧ q.state = .admitted) ∨
    ∃ r, s.runs[j]? = some r ∧ q.repository = r.repository ∧
      (q.state = r.state ∨ ∃ w, d = .work j w ∧ r.state.Follows s.threshold w q.state) := by
  cases h with
  | decline => exact .inr ⟨q, hq, rfl, .inl rfl⟩
  | accept =>
      rcases getElem?_append_new hq with hq | hnew
      · exact .inr ⟨q, hq, rfl, .inl rfl⟩
      · exact .inl hnew
  | enter => exact .inr ⟨q, hq, rfl, .inl rfl⟩
  | launch =>
      rcases getElem?_append_new hq with hq | hnew
      · exact .inr ⟨q, hq, rfl, .inl rfl⟩
      · exact .inl hnew
  | @work m i w r r' hr hlive hrepository hpermit hstate =>
      have hi : i < s.runs.length := (List.getElem?_eq_some_iff.1 hr).1
      rcases getElem?_putRun hi hq with ⟨rfl, hrep, hst⟩ | ⟨-, hq⟩
      · exact .inr ⟨r, hr, hrep.trans hrepository, .inr ⟨w, rfl, hst ▸ hstate⟩⟩
      · exact .inr ⟨q, hq, rfl, .inl rfl⟩
  | @expire w r hw hr hlive =>
      have hi : w.run < s.runs.length := (List.getElem?_eq_some_iff.1 hr).1
      by_cases hij : w.run = j
      · subst hij
        rw [List.getElem?_set_self hi] at hq
        cases hq
        exact .inr ⟨r, hr, rfl, .inl rfl⟩
      · rw [List.getElem?_set_ne hij] at hq
        exact .inr ⟨q, hq, rfl, .inl rfl⟩
  | settle =>
      rw [runs_conclude] at hq
      exact .inr ⟨q, hq, rfl, .inl rfl⟩
  | abandon => exact .inr ⟨q, hq, rfl, .inl rfl⟩
  | sweep => exact .inr ⟨q, hq, rfl, .inl rfl⟩

@[simp] theorem length_runs_putRun (s : Service) (m : Moment) (i : Nat) (r : Run) :
    (s.putRun m i r).value.runs.length = s.runs.length := by
  unfold putRun
  split <;> simp [Traced.quiet]

theorem Effect.length_le (h : Effect s d t) : s.runs.length ≤ t.runs.length := by
  cases h with
  | accept => simp [spawn]
  | launch => simp [spawn]
  | work => simp
  | expire => simp
  | settle => simp
  | _ => exact Nat.le_refl _

theorem Effect.exists_run (h : Effect s d t) {r : Run} (hr : s.runs[i]? = some r) :
    ∃ q, t.runs[i]? = some q ∧ q.repository = r.repository := by
  have hlt : i < s.runs.length := (List.getElem?_eq_some_iff.1 hr).1
  have hlt' : i < t.runs.length := Nat.lt_of_lt_of_le hlt h.length_le
  refine ⟨t.runs[i], List.getElem?_eq_getElem hlt', ?_⟩
  rcases h.state_cases (List.getElem?_eq_getElem hlt') with ⟨hge, -⟩ | ⟨r', hr', hrep, -⟩
  · omega
  · rw [hr] at hr'
    cases hr'
    exact hrep

theorem Effect.exists_same (h : Effect s d t) {r : Run} (hr : s.runs[i]? = some r)
    (hd : ∀ w, d ≠ .work i w) :
    ∃ q, t.runs[i]? = some q ∧ q.repository = r.repository ∧ q.state = r.state := by
  obtain ⟨q, hq, hrepository⟩ := h.exists_run hr
  refine ⟨q, hq, hrepository, ?_⟩
  rcases h.state_cases hq with ⟨hge, -⟩ | ⟨r', hr', -, hstate⟩
  · have hlt : i < s.runs.length := (List.getElem?_eq_some_iff.1 hr).1
    omega
  · obtain rfl : r' = r := Option.some.inj (hr'.symm.trans hr)
    rcases hstate with hsame | ⟨w, hw, -⟩
    · exact hsame
    · exact absurd hw (hd w)

theorem answerRun?_state {m : Moment} {listener : Listener} {elapsedMs : UInt64}
    {reply : (st : Stage) → st.Reply} {x : Traced Service} {r q : Run} {st : Stage}
    (h : s.answerRun? m listener elapsedMs i reply = some x) (hr : s.runs[i]? = some r)
    (hst : r.state = .waits st) (hq : x.value.runs[i]? = some q) :
    q.repository = r.repository ∧
      ((∃ next, q.state = .waits next ∧ st.Follows s.threshold (reply st) next) ∨
        ∃ e, q.state = .ended e) := by
  obtain ⟨r', y, hr', hy, hv⟩ := answerRun?_cases h
  obtain rfl : r' = r := Option.some.inj (hr'.symm.trans hr)
  obtain ⟨st', hst', hgo⟩ := Run.answer?_cases hy
  obtain rfl : st' = st := by
    rw [hst'] at hst
    exact RunState.waits.inj hst
  have hlt : i < s.runs.length := (List.getElem?_eq_some_iff.1 hr).1
  rw [hv] at hq
  rcases getElem?_putRun hlt hq with ⟨-, hrep, hstate⟩ | ⟨hne, -⟩
  · rw [hgo] at hrep hstate
    refine ⟨by simpa using hrep, ?_⟩
    cases hp : ((r'.task s.threshold listener).resume ⟨r'.cancelled, m.stamp, elapsedMs⟩ st'
        (reply st')).value with
    | waits next =>
        rw [hp] at hstate
        exact .inl ⟨next, hstate, UpdateTask.follows_of_resume hp⟩
    | ended e =>
        rw [hp] at hstate
        exact .inr ⟨e, hstate⟩
  · exact absurd rfl hne

theorem exists_answer {r : Run} {st next : Stage} {reply : st.Reply} (hr : s.runs[i]? = some r)
    (hst : r.state = .waits st) (hcancelled : r.cancelled = false)
    (h : st.Follows s.threshold reply next) :
    ∃ m x, s.answerRun? m .silent 0 i (st.replyTo reply) = some x ∧
      x.value = { s with runs := s.runs.set i { r with state := .waits next } } := by
  obtain ⟨stamp, hresume⟩ := UpdateTask.resume_of_follows h r.repository .silent
  have hvalue : ((r.task s.threshold .silent).resume ⟨r.cancelled, stamp, 0⟩ st
      (st.replyTo reply st)).value = .waits next := by
    rw [Stage.replyTo_self, hcancelled]
    exact hresume
  have hanswer : r.answer? s.threshold .silent stamp 0 (st.replyTo reply) =
      some (((r.task s.threshold .silent).resume ⟨r.cancelled, stamp, 0⟩ st
        (st.replyTo reply st)).map r.goTo) := by
    unfold Run.answer?
    rw [hst]
  have hrun : (s.runs[i]?.bind (·.answer? s.threshold .silent stamp 0 (st.replyTo reply))) =
      some (((r.task s.threshold .silent).resume ⟨r.cancelled, stamp, 0⟩ st
        (st.replyTo reply st)).map r.goTo) := by
    rw [hr]
    exact hanswer
  refine ⟨⟨0, stamp⟩, _, congrArg (Option.map _) hrun, ?_⟩
  simp only [Traced.value_after, Traced.value_map, hvalue]
  exact putRun_of_isLive rfl

end Service

end IndexRefresh
