import Mathlib.Logic.Relation
import IndexRefresh.Proofs.Service.Requests
import IndexRefresh.Rehearsal

namespace IndexRefresh

namespace Service

def Goes : Service → Service → Prop :=
  Relation.ReflTransGen fun s t => ∃ d, Step s d t

theorem Step.goes {s t : Service} {d : Deed} (h : Step s d t) : s.Goes t :=
  .single ⟨d, h⟩

theorem Reached.goes {limits : Limits} {threshold : UInt64} {history : List Deed} {s t : Service}
    (h : Reached limits threshold history s) (hgoes : s.Goes t) :
    ∃ history, Reached limits threshold history t := by
  induction hgoes with
  | refl => exact ⟨history, h⟩
  | tail _ hs ih =>
      obtain ⟨history, h⟩ := ih
      obtain ⟨d, hd⟩ := hs
      exact ⟨_, h.step hd⟩

theorem answerRun?_step {s : Service} {m : Moment} {listener : Listener} {elapsedMs : UInt64}
    {i : Nat} {reply : (st : Stage) → st.Reply} {x : Traced Service}
    (h : s.answerRun? m listener elapsedMs i reply = some x) : ∃ d, Step s d x.value := by
  obtain ⟨r, t, hr, ht, -⟩ := answerRun?_cases h
  obtain ⟨stage, hstage, -⟩ := Run.answer?_cases ht
  have hwaits : s.runs[i]?.bind Run.stage? = some stage := by simp [hr, Run.stage?, hstage]
  exact ⟨_, .answer hwaits h⟩

theorem goes_of_tend? {s : Service} {m : Moment} {i : Nat}
    {x : Traced (Service × Option SyncAnswer)} (h : s.tend? m i = some x) :
    s.Goes x.value.1 := by
  unfold tend? at h
  rcases Option.or_eq_some_iff.1 h with hsettled | ⟨-, hlater⟩
  · exact (Step.settle hsettled).goes
  · obtain ⟨expired, hexpired, hlater⟩ := Option.bind_eq_some_iff.1 hlater
    obtain ⟨settled, hsettled, hx⟩ := Option.bind_eq_some_iff.1 hlater
    cases hx
    exact (Step.expire hexpired).goes.trans (Step.settle hsettled).goes

end Service

namespace Rehearsal

/-- What a play does to the service of a rehearsal are steps of that service. -/
def GoesFrom {α : Type} (r : Rehearsal) (p : Play α) : Prop :=
  r.service.Goes (p.run r).2.service

def Serves {α : Type} (p : Play α) : Prop :=
  ∀ r, GoesFrom r p

section Rules

variable {α β : Type} {p : Play α} {f : α → Play β} {r : Rehearsal}

theorem serves_pure (a : α) : Serves (pure a) :=
  fun _ => .refl

theorem goesFrom_bind (hp : GoesFrom r p) (hf : ∀ a, Serves (f a)) : GoesFrom r (p >>= f) :=
  hp.trans (hf _ _)

theorem Serves.bind (hp : Serves p) (hf : ∀ a, Serves (f a)) : Serves (p >>= f) :=
  fun r => goesFrom_bind (hp r) hf

theorem serves_get_bind {f : Rehearsal → Play β} (h : ∀ r, GoesFrom r (f r)) :
    Serves (get >>= f) :=
  h

theorem goesFrom_modify {g : Rehearsal → Rehearsal} (h : r.service.Goes (g r).service) :
    GoesFrom r (modify g) :=
  h

theorem goesFrom_set {r' : Rehearsal} (h : r.service.Goes r'.service) : GoesFrom r (set r') :=
  h

theorem serves_modify {g : Rehearsal → Rehearsal} (h : ∀ r, (g r).service = r.service) :
    Serves (modify g) := by
  intro r
  refine goesFrom_modify ?_
  rw [h r]
  exact .refl

theorem serves_forIn {γ : Type} (xs : List γ) (b : β) {f : γ → β → Play (ForInStep β)}
    (h : ∀ x b, Serves (f x b)) : Serves (forIn xs b f) := by
  induction xs generalizing b with
  | nil => exact serves_pure b
  | cons x xs ih =>
      rw [List.forIn_cons]
      refine (h x b).bind fun step => ?_
      cases step with
      | done b => exact serves_pure b
      | yield b => exact ih b

end Rules

/-! ## What tasks do -/

theorem serves_emit (events : List Event) : Serves (emit events) :=
  serves_modify fun _ => rfl

theorem serves_moment : Serves moment :=
  serves_get_bind fun _ => .refl

theorem serves_wake (w : Wake) : Serves (wake w) :=
  serves_modify fun r => by split <;> rfl

theorem serves_setTimer (due : Duration) (w : Wake) : Serves (setTimer due w) :=
  serves_modify fun _ => rfl

theorem serves_cancelApart (i : Nat) : Serves (cancelApart i) := by
  refine serves_get_bind fun r => ?_
  split
  · exact goesFrom_bind (goesFrom_set .refl) fun _ => serves_wake _
  · exact .refl

theorem goesFrom_putService {r : Rehearsal} {s : Traced Service} (h : r.service.Goes s.value) :
    GoesFrom r (putService s) :=
  goesFrom_bind (goesFrom_modify h) fun _ => serves_emit _

theorem serves_beginRun (ref : RunRef) : Serves (beginRun ref) := by
  intro r
  refine goesFrom_modify ?_
  cases ref with
  | apart i => exact .refl
  | served i =>
      dsimp only
      cases h : r.service.beginRun? i with
      | none => exact .refl
      | some s => exact (Service.Step.begin h).goes

theorem serves_answerRun (ref : RunRef) (reply : (s : Stage) → s.Reply) :
    Serves (answerRun ref reply) := by
  refine serves_moment.bind fun m => serves_get_bind fun r => ?_
  cases ref with
  | served i =>
      dsimp only
      split
      · next s h =>
          obtain ⟨d, hd⟩ := Service.answerRun?_step h
          exact goesFrom_putService hd.goes
      · exact .refl
  | apart i =>
      dsimp only
      split
      · exact goesFrom_bind (goesFrom_modify .refl) fun _ => serves_emit _
      · exact .refl

theorem serves_interruptRun (ref : RunRef) : Serves (interruptRun ref) := by
  refine serves_moment.bind fun m => serves_get_bind fun r => ?_
  cases ref with
  | served i =>
      dsimp only
      split
      · next s h => exact goesFrom_putService (Service.Step.interrupt h).goes
      · exact .refl
  | apart i =>
      dsimp only
      split
      · exact goesFrom_bind (goesFrom_modify .refl) fun _ => serves_emit _
      · exact .refl

theorem serves_crashRun (ref : RunRef) (detail : String) : Serves (crashRun ref detail) := by
  refine serves_moment.bind fun m => serves_get_bind fun r => ?_
  cases ref with
  | served i =>
      dsimp only
      split
      · next s h =>
          obtain ⟨d, hd⟩ := Service.crashRun?_step h
          exact goesFrom_putService hd.goes
      · exact .refl
  | apart i =>
      dsimp only
      split
      · exact goesFrom_modify .refl
      · exact .refl

theorem serves_endCall (p : Pending) (repository : String) (s : Stage) :
    Serves (endCall p repository s) := by
  refine Serves.bind (serves_modify fun _ => rfl) fun _ => ?_
  dsimp only
  split
  · exact serves_crashRun _ _
  · exact serves_answerRun _ _
  · exact serves_get_bind fun r => goesFrom_bind (serves_answerRun _ _ r) fun _ =>
      serves_modify fun _ => rfl

theorem serves_makeCall (ref : RunRef) (repository : String) (s : Stage) :
    Serves (makeCall ref repository s) := by
  refine serves_get_bind fun r => goesFrom_bind (goesFrom_set .refl) fun _ => ?_
  dsimp only
  split
  · exact (serves_cancelApart _).bind fun _ => serves_pure _
  · exact serves_pure _

theorem serves_goOn (ref : RunRef) (fuel : Nat) : Serves (goOn ref fuel) := by
  induction fuel with
  | zero => exact serves_pure ()
  | succ fuel ih =>
      refine serves_get_bind fun r => ?_
      split
      · next run =>
          split
          · split
            · exact serves_wake _ r
            · exact .refl
          · exact goesFrom_bind (serves_beginRun ref r) fun _ => ih
          · next s =>
              split
              · refine goesFrom_bind (goesFrom_modify .refl) fun _ => ?_
                exact (serves_interruptRun ref).bind fun _ => ih
              · split
                · split
                  · exact goesFrom_bind (serves_endCall _ _ _ r) fun _ => ih
                  · exact .refl
                · refine goesFrom_bind (serves_makeCall _ _ _ r) fun p => ?_
                  split
                  · exact (serves_endCall _ _ _).bind fun _ => ih
                  · exact Serves.bind (serves_modify fun _ => rfl) fun _ => serves_setTimer _ _
      · exact .refl

theorem serves_noteAnswer (i : Nat) (answer : Option SyncAnswer) :
    Serves (noteAnswer i answer) := by
  cases answer with
  | none => exact serves_pure ()
  | some a => exact Serves.bind (serves_modify fun _ => rfl) fun _ => serves_wake _

theorem serves_pollWatch (i : Nat) : Serves (pollWatch i) := by
  refine serves_moment.bind fun m => serves_get_bind fun r => ?_
  split
  · next t h =>
      refine goesFrom_bind (goesFrom_modify (Service.goes_of_tend? h)) fun _ => ?_
      refine (serves_emit _).bind fun _ => ?_
      exact (serves_wake _).bind fun _ => serves_noteAnswer _ _
  · exact .refl

theorem serves_watchNew (i : Nat) : Serves (watchNew i) := by
  refine (serves_wake _).bind fun _ => serves_get_bind fun r => ?_
  split
  · split
    · exact serves_pollWatch i r
    · exact serves_setTimer _ _ r
  · exact .refl

theorem serves_pollJob (id : String) : Serves (pollJob id) := by
  refine serves_moment.bind fun m => serves_get_bind fun r => ?_
  split
  · next t h =>
      refine goesFrom_bind (goesFrom_modify (Service.Step.launch h).goes) fun _ => ?_
      exact (serves_emit _).bind fun _ => serves_watchNew _
  · exact .refl

theorem serves_trigger (repository : String) : Serves (trigger repository) := by
  refine serves_moment.bind fun m => serves_get_bind fun r => ?_
  obtain ⟨d, hd⟩ := r.service.triggerSync_step m repository
  refine goesFrom_bind (goesFrom_modify hd.goes) fun _ => (serves_emit _).bind fun _ => ?_
  split
  · exact (serves_watchNew _).bind fun _ => serves_pure _
  · exact serves_pure _
  · exact serves_pure _

theorem serves_pollCaller (k : Nat) : Serves (pollCaller k) := by
  refine serves_get_bind fun r => ?_
  split
  · refine goesFrom_bind (serves_trigger _ r) fun a => ?_
    cases a with
    | inl i => exact serves_get_bind fun r => goesFrom_modify .refl
    | inr a => exact serves_modify fun _ => rfl
  · exact .refl

theorem serves_pollSweep (i : Nat) : Serves (pollSweep i) := by
  refine serves_get_bind fun r => ?_
  split
  · refine goesFrom_bind (goesFrom_modify Service.Step.sweep.goes) fun _ => ?_
    exact (serves_emit _).bind fun _ => serves_setTimer _ _
  · exact .refl

theorem serves_poll (w : Wake) : Serves (poll w) := by
  cases w with
  | run ref => exact serves_goOn ref 16
  | watch i => exact serves_pollWatch i
  | job id => exact serves_pollJob id
  | caller k => exact serves_pollCaller k
  | cancel i => exact serves_cancelApart i
  | sweep i => exact serves_pollSweep i
  | main => exact serves_pure ()

theorem serves_playUntil (isOver : Rehearsal → Bool) (fuel : Nat) :
    Serves (playUntil isOver fuel) := by
  induction fuel with
  | zero => exact serves_pure ()
  | succ fuel ih =>
      refine serves_get_bind fun r => ?_
      split
      · refine goesFrom_bind (goesFrom_set .refl) fun _ => ?_
        exact (serves_poll _).bind fun _ => ih
      · split
        · exact .refl
        · split
          · exact .refl
          · exact goesFrom_bind (goesFrom_set .refl) fun _ => ih

/-! ## What is asked of a rehearsal -/

theorem serves_settle : Serves settle :=
  serves_playUntil _ _

theorem serves_sleep (d : Duration) : Serves (sleep d) := by
  refine serves_get_bind fun r => ?_
  dsimp only
  split
  · exact goesFrom_bind (serves_setTimer _ _ r) fun _ => serves_playUntil _ _
  · exact serves_playUntil _ _ r

theorem serves_update (repository : String) (hasToken cancelled : Bool)
    (cancelAfter : Option Duration) :
    Serves (update repository hasToken cancelled cancelAfter) := by
  have finished (i : Nat) : Serves (do
      wake (.run (.apart i))
      playUntil (fun r => (r.apart[i]?.bind Run.ending?).isSome) budget
      let r ← get
      return r.apart[i]?.bind Run.ending?) :=
    (serves_wake _).bind fun _ => (serves_playUntil _ _).bind fun _ =>
      serves_get_bind fun _ => .refl
  refine serves_get_bind fun r => goesFrom_bind (goesFrom_set .refl) fun _ => ?_
  dsimp only
  split
  · exact (serves_setTimer _ _).bind fun _ => finished _
  · exact finished _

theorem serves_triggerSync (repository : String) : Serves (triggerSync repository) := by
  refine (serves_trigger repository).bind fun a => ?_
  cases a with
  | inr a => exact serves_settle.bind fun _ => serves_pure _
  | inl i =>
      refine (serves_playUntil _ _).bind fun _ => serves_get_bind fun r => ?_
      split <;> exact .refl

theorem serves_triggerAsync (repository : String) : Serves (triggerAsync repository) := by
  refine serves_moment.bind fun m => serves_get_bind fun r => ?_
  dsimp only
  split
  · exact .refl
  · next t h =>
      obtain ⟨d, hd⟩ := Service.triggerAsync?_step h
      refine goesFrom_bind (goesFrom_set hd.goes) fun _ => (serves_emit _).bind fun _ => ?_
      split
      case' isTrue => refine (serves_wake _).bind fun _ => ?_
      all_goals
        refine serves_settle.bind fun _ => ?_
        split <;> exact serves_pure _

theorem serves_spawnCaller (repository : String) : Serves (spawnCaller repository) := by
  refine serves_get_bind fun r => goesFrom_bind (goesFrom_set .refl) fun _ => ?_
  exact (serves_wake _).bind fun _ => serves_settle.bind fun _ => serves_pure _

theorem serves_join (k : Nat) : Serves (join k) := by
  refine (serves_playUntil _ _).bind fun _ => serves_get_bind fun r => ?_
  split <;> exact .refl

theorem serves_evict : Serves evict := by
  refine serves_get_bind fun r => goesFrom_bind (goesFrom_set Service.Step.sweep.goes) fun _ => ?_
  exact (serves_emit _).bind fun _ => serves_pure _

theorem serves_startSweep : Serves startSweep := by
  refine serves_get_bind fun r => goesFrom_bind (goesFrom_set .refl) fun _ => ?_
  exact (serves_setTimer _ _).bind fun _ => serves_settle.bind fun _ => serves_pure _

theorem serves_stopSweep (i : Nat) : Serves (stopSweep i) :=
  Serves.bind (serves_modify fun _ => rfl) fun _ => (serves_emit _).bind fun _ => serves_settle

theorem serves_close : Serves close := by
  refine serves_moment.bind fun m => serves_get_bind fun r => ?_
  refine goesFrom_bind (serves_forIn _ _ (fun i _ => serves_get_bind fun r => ?_) r) fun _ =>
    serves_pure _
  split
  · next s h =>
      exact goesFrom_bind (goesFrom_putService (Service.Step.drop h).goes) fun _ => serves_pure _
  · exact .refl

inductive Move where
  | update (repository : String) (hasToken cancelled : Bool) (cancelAfter : Option Duration)
  | triggerSync (repository : String)
  | triggerAsync (repository : String)
  | spawnCaller (repository : String)
  | join (caller : Nat)
  | sleep (d : Duration)
  | evict
  | startSweep
  | stopSweep (i : Nat)
  | close

def Move.play : Move → Play Unit
  | .update repository hasToken cancelled cancelAfter =>
      discard (Rehearsal.update repository hasToken cancelled cancelAfter)
  | .triggerSync repository => discard (Rehearsal.triggerSync repository)
  | .triggerAsync repository => discard (Rehearsal.triggerAsync repository)
  | .spawnCaller repository => discard (Rehearsal.spawnCaller repository)
  | .join caller => discard (Rehearsal.join caller)
  | .sleep d => Rehearsal.sleep d
  | .evict => discard Rehearsal.evict
  | .startSweep => discard Rehearsal.startSweep
  | .stopSweep i => Rehearsal.stopSweep i
  | .close => Rehearsal.close

theorem Serves.discard {α : Type} {p : Play α} (h : Serves p) : Serves (discard p) :=
  h

theorem Move.serves_play (m : Move) : Serves m.play := by
  cases m with
  | update => exact (serves_update _ _ _ _).discard
  | triggerSync => exact (serves_triggerSync _).discard
  | triggerAsync => exact (serves_triggerAsync _).discard
  | spawnCaller => exact (serves_spawnCaller _).discard
  | join => exact (serves_join _).discard
  | sleep d => exact serves_sleep d
  | evict => exact serves_evict.discard
  | startSweep => exact serves_startSweep.discard
  | stopSweep i => exact serves_stopSweep i
  | close => exact serves_close

theorem serves_moves (moves : List Move) : Serves (moves.forM Move.play) := by
  induction moves with
  | nil => exact serves_pure ()
  | cons m moves ih => exact m.serves_play.bind fun _ => ih

/-- Whatever is rehearsed, the service comes to no state that it could not come to by its own steps,
so that all that holds of those holds of it. -/
theorem reached_of_moves (limits : Limits) (threshold : UInt64) (stamp : Timestamp)
    (listener : Listener) (plan : Plan) (store : MemoryStore) (moves : List Move) :
    ∃ history, Service.Reached limits threshold history
      ((moves.forM Move.play).run
        (.new limits threshold stamp listener plan store)).2.service := by
  have hgoes := serves_moves moves (.new limits threshold stamp listener plan store)
  exact Service.Reached.new.goes hgoes

end Rehearsal

end IndexRefresh
