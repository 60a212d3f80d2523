import IndexRefresh.Proofs.Service.Admission

namespace IndexRefresh

inductive Chore where
  | begin
  | answer (m : Moment) (listener : Listener) (elapsedMs : UInt64) (stage : Stage)
      (reply : stage.Reply)
  | interrupt (m : Moment)
  | crash (m : Moment) (detail : String)
  | drop (m : Moment)
  | expire (m : Moment)
  | settle (m : Moment)
  | abandon

inductive Request where
  | triggerSync (m : Moment) (repository : String)
  | triggerAsync (m : Moment) (draws : List String) (repository : String)
  | setCooldown (repository : String) (cooldown : Duration)
  | launch (m : Moment) (job : String)
  | run (i : Nat) (c : Chore)
  | sweep (now : Duration)

inductive Response where
  | admission (a : Admission Nat)
  | background (a : Admission JobAnswer)
  | launched (run : Nat)
  | settled (answer : Option SyncAnswer)
  | done

namespace Service

def chore? (s : Service) (i : Nat) : Chore → Option (Service × Response)
  | .begin => (s.beginRun? i).map fun t => (t, .done)
  | .answer m listener elapsedMs stage reply =>
      if s.runs[i]?.bind Run.stage? = some stage then
        (s.answerRun? m listener elapsedMs i (stage.replyTo reply)).map fun x => (x.value, .done)
      else none
  | .interrupt m => (s.interruptRun? m i).map fun x => (x.value, .done)
  | .crash m detail => (s.crashRun? m i detail).map fun x => (x.value, .done)
  | .drop m => (s.dropRun? m i).map fun x => (x.value, .done)
  | .expire m => (s.expire? m i).map fun x => (x.value, .done)
  | .settle m => (s.settle? m i).map fun x => (x.value.1, .settled x.value.2)
  | .abandon => some (s.abandon i, .done)

def perform? (s : Service) : Request → Option (Service × Response)
  | .triggerSync m repository =>
      let x := (s.triggerSync m repository).value
      some (x.1, .admission x.2)
  | .triggerAsync m draws repository =>
      (s.triggerAsync? m draws repository).map fun x => (x.value.1, .background x.value.2)
  | .setCooldown repository cooldown =>
      some ({ s with guard := s.guard.setCooldown repository cooldown }, .done)
  | .launch m job => (s.launch? m job).map fun x => (x.value.1, .launched x.value.2)
  | .run i c => s.chore? i c
  | .sweep now => some ((s.sweep now).value.1, .done)

end Service

structure Entry where
  source : Service
  request : Request
  response : Response

inductive Performed (limits : Limits) (threshold : UInt64) : List Entry → Service → Prop where
  | new : Performed limits threshold [] (.new limits threshold)
  | step {es : List Entry} {s t : Service} {q : Request} {a : Response}
      (h : Performed limits threshold es s) (hq : s.perform? q = some (t, a)) :
      Performed limits threshold (⟨s, q, a⟩ :: es) t

namespace Service

variable {limits : Limits} {threshold : UInt64} {es : List Entry} {s t : Service} {q : Request}
  {a : Response} {i : Nat} {c : Chore}

theorem crashRun?_step {m : Moment} {detail : String} {x : Traced Service}
    (h : s.crashRun? m i detail = some x) : ∃ d, Step s d x.value := by
  obtain ⟨r, q, hr, hq, -⟩ := crashRun?_cases h
  obtain ⟨stage, hstage, -⟩ := Run.crash?_cases hq
  have hwaits : s.runs[i]?.bind Run.stage? = some stage := by simp [hr, Run.stage?, hstage]
  exact ⟨_, .crash hwaits h⟩

theorem chore?_step (h : s.chore? i c = some (t, a)) : ∃ d, Step s d t := by
  cases c with
  | begin =>
      obtain ⟨x, hx, hv⟩ := Option.map_eq_some_iff.1 h
      cases hv
      exact ⟨_, .begin hx⟩
  | answer m listener elapsedMs stage reply =>
      simp only [chore?] at h
      split at h
      · next hstage =>
          obtain ⟨x, hx, hv⟩ := Option.map_eq_some_iff.1 h
          cases hv
          exact ⟨_, .answer hstage hx⟩
      · cases h
  | interrupt m =>
      obtain ⟨x, hx, hv⟩ := Option.map_eq_some_iff.1 h
      cases hv
      exact ⟨_, .interrupt hx⟩
  | crash m detail =>
      obtain ⟨x, hx, hv⟩ := Option.map_eq_some_iff.1 h
      cases hv
      exact crashRun?_step hx
  | drop m =>
      obtain ⟨x, hx, hv⟩ := Option.map_eq_some_iff.1 h
      cases hv
      exact ⟨_, .drop hx⟩
  | expire m =>
      obtain ⟨x, hx, hv⟩ := Option.map_eq_some_iff.1 h
      cases hv
      exact ⟨_, .expire hx⟩
  | settle m =>
      obtain ⟨x, hx, hv⟩ := Option.map_eq_some_iff.1 h
      cases hv
      exact ⟨_, .settle hx⟩
  | abandon =>
      cases h
      exact ⟨_, .abandon⟩

theorem triggerSync_step (s : Service) (m : Moment) (repository : String) :
    ∃ d, Step s d (s.triggerSync m repository).value.1 := by
  rcases hx : (s.triggerSync m repository).value with ⟨t, i | r | detail⟩
  · exact ⟨_, .accept hx⟩
  · exact ⟨_, .declineSync hx (by simp)⟩
  · exact ⟨_, .declineSync hx (by simp)⟩

theorem triggerAsync?_step {m : Moment} {draws : List String} {repository : String}
    {x : Traced (Service × Admission JobAnswer)}
    (h : s.triggerAsync? m draws repository = some x) : ∃ d, Step s d x.value.1 := by
  rcases triggerAsync?_cases h with ⟨y, hnone, -, -, hv⟩ | ⟨-, hdeclined⟩
  · rw [hv]
    exact ⟨_, .enter hnone h hv⟩
  · exact ⟨_, .declineAsync h (Prod.ext rfl rfl) hdeclined⟩

theorem perform?_step (h : s.perform? q = some (t, a)) :
    (∃ d, Step s d t) ∨ ∃ repository cooldown,
      t = { s with guard := s.guard.setCooldown repository cooldown } := by
  cases q with
  | triggerSync m repository =>
      cases h
      exact .inl (s.triggerSync_step m repository)
  | triggerAsync m draws repository =>
      obtain ⟨x, hx, hv⟩ := Option.map_eq_some_iff.1 h
      cases hv
      exact .inl (triggerAsync?_step hx)
  | setCooldown repository cooldown =>
      cases h
      exact .inr ⟨repository, cooldown, rfl⟩
  | launch m job =>
      obtain ⟨x, hx, hv⟩ := Option.map_eq_some_iff.1 h
      cases hv
      exact .inl ⟨_, .launch hx⟩
  | run i c => exact .inl (chore?_step h)
  | sweep now =>
      cases h
      exact .inl ⟨_, .sweep⟩

end Service

theorem Performed.regulated {limits : Limits} {threshold : UInt64} {es : List Entry} {s : Service}
    (h : Performed limits threshold es s) :
    ∃ history, Service.Regulated limits threshold history s := by
  induction h with
  | new => exact ⟨_, .new⟩
  | step _ hq ih =>
      obtain ⟨history, hs⟩ := ih
      rcases Service.perform?_step hq with ⟨d, hd⟩ | ⟨repository, cooldown, rfl⟩
      · exact ⟨_, hs.step hd⟩
      · exact ⟨_, hs.setCooldown⟩

end IndexRefresh
