import IndexRefresh.Proofs.GitHub.Pages

namespace IndexRefresh.GitHub

def mayPass : Option Http.Response → Bool
  | none => true
  | some r => (500 ≤ r.status && r.status < 600) || r.status == 429

def shown (r : Http.Response) : String :=
  "HTTP " ++ Http.statusText r.status ++ ": " ++ r.content?.getD ""

def passingFault : Option Http.Response → Fault
  | none => .http "the request could not be carried out"
  | some r => .http (shown r)

namespace Source

section Answer

variable {α : Type} {decode : Json → Option α} {url : String} {answer : Option Http.Response}

def pageOf (decode : Json → Option α) (r : Http.Response) : Except Fault (α × Option String) :=
  match (r.content?.bind Json.ofText?).bind decode with
  | some a => .ok (a, nextOf? r)
  | none => .error (.serialization "the answer is not the expected document")

def verdict (decode : Json → Option α) (url : String) :
    Option Http.Response → Except Fault (α × Option String)
  | none => .error (passingFault none)
  | some r =>
      if r.isSuccess then pageOf decode r
      else if r.status = 404 then .error (.notFound url)
      else if mayPass (some r) then .error (passingFault (some r))
      else .error (.other ("GitHub returned " ++ shown r))

theorem mayPass_some_iff {r : Http.Response} :
    mayPass (some r) = true ↔ (500 ≤ r.status ∧ r.status < 600) ∨ r.status = 429 := by
  simp [mayPass]

theorem isSuccess_iff {r : Http.Response} :
    r.isSuccess = true ↔ 200 ≤ r.status ∧ r.status < 300 := by
  simp [Http.Response.isSuccess]

theorem verdict_some (decode : Json → Option α) (url : String) (r : Http.Response) :
    verdict decode url (some r) = check url r >>= fun _ => pageOf decode r := by
  have hcheck : check url r =
      if r.isSuccess then .ok ()
      else if r.status = 404 then .error (.notFound url)
      else if mayPass (some r) then .error (passingFault (some r))
      else .error (.other ("GitHub returned " ++ shown r)) := by
    simp only [check, mayPass_some_iff, isSuccess_iff]
    split
    · next hmissing => simp [hmissing]
    · next hfound =>
        split
        · next h =>
            rw [if_neg (by omega)]
            rfl
        · rfl
  rw [hcheck, verdict]
  split
  · rfl
  · split
    · rfl
    · split <;> rfl

theorem verdict_of_mayPass (h : mayPass answer = true) :
    verdict decode url answer = .error (passingFault answer) := by
  cases answer with
  | none => rfl
  | some r =>
      have hstatus := mayPass_some_iff.1 h
      have hsuccess : ¬r.isSuccess = true := by
        rw [isSuccess_iff]
        omega
      rw [verdict, if_neg hsuccess, if_neg (by omega), if_pos h]

theorem isTransient_passingFault (answer : Option Http.Response) :
    isTransient (passingFault answer) = true := by
  cases answer <;> rfl

theorem isTransient_of_verdict {f : Fault} (h : mayPass answer = false)
    (hf : verdict decode url answer = .error f) : isTransient f = false := by
  cases answer with
  | none => cases h
  | some r =>
      rw [verdict, h] at hf
      split at hf
      · unfold pageOf at hf
        split at hf <;> cases hf
        rfl
      · split at hf <;> cases hf <;> rfl

end Answer

def ask {m : Type → Type} [Monad m] (s : Source m) (url : String) : m (Option Http.Response) :=
  match request? s.access url with
  | some request => Http.follow s.wire.exchange Http.maxRedirects request
  | none => pure none

section Run

variable {ω α : Type}

theorem getOnce_run (s : Source (StateM ω)) (decode : Json → Option α) (url : String) (w : ω) :
    (s.getOnce decode url).run w =
      (verdict decode url ((s.ask url).run w).1, ((s.ask url).run w).2) := by
  unfold getOnce ask
  cases request? s.access url with
  | none => rfl
  | some request =>
      dsimp only
      rcases hanswer : (Http.follow s.wire.exchange Http.maxRedirects request).run w
        with ⟨answer, u⟩
      refine (run_bind_of_ok (run_lift hanswer)).trans ?_
      cases answer with
      | none => rfl
      | some r =>
          have hcheck : (getOnce.liftExcept (check url r) :
              ExceptT Fault (StateM ω) Unit).run u = (check url r, u) := rfl
          dsimp only
          rw [verdict_some]
          cases h : check url r with
          | error f =>
              rw [h] at hcheck
              exact run_bind_of_error hcheck
          | ok _ =>
              rw [h] at hcheck
              rw [run_bind_of_ok hcheck]
              dsimp only [pageOf, bind, Except.bind]
              cases (r.content?.bind Json.ofText?).bind decode <;> rfl

theorem follow_of_direct {exchange : Http.Request → StateM ω (Option Http.Response)}
    (hdirect : ∀ request w r, ((exchange request).run w).1 = some r → r.isRedirect = false)
    (redirects : Nat) (request : Http.Request) (w : ω) :
    (Http.follow exchange redirects request).run w = (exchange request).run w := by
  rw [Http.follow, StateT.run_bind]
  rcases hanswer : (exchange request).run w with ⟨answer, u⟩
  cases answer with
  | none => rfl
  | some r =>
      have hfinal : Http.redirected? request r = none := by
        rw [Http.redirected?, hdirect request w r (by rw [hanswer])]
        rfl
      dsimp only [bind]
      rw [hfinal]
      rfl

end Run

end Source

end IndexRefresh.GitHub
