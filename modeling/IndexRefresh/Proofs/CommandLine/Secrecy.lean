import IndexRefresh.CommandLine.Program
import IndexRefresh.Proofs.GitHub.Authorization

namespace IndexRefresh

def Settings.withToken (token : String) (s : Settings) : Settings :=
  { s with github := { s.github with token := some token } }

variable {m : Type → Type}

def Host.authorizedBy (value : String) (h : Host m) : Host m :=
  { h with wire := h.wire.authorizedBy value }

theorem Host.authorizedBy_eq {h : Host m} (himpartial : h.wire.Impartial) (value : String) :
    h.authorizedBy value = h := by
  unfold Host.authorizedBy
  rw [himpartial.authorizedBy value]

variable [Monad m] {token other : String}

theorem Host.collaborators_withToken (h : Host m) (access : GitHub.Access)
    (ht : Http.isHeaderValue token = true) (hother : Http.isHeaderValue other = true)
    (path program : String) (args : List String) :
    h.collaborators path (access.withToken other) program args =
      (h.authorizedBy (GitHub.credential other)).collaborators path (access.withToken token)
        program args := by
  unfold Host.collaborators
  dsimp only
  rw [GitHub.Source.head_withToken ht hother, GitHub.Source.compare_withToken ht hother]
  rfl

namespace CommandLine

namespace Session

variable {value : String}

def authorizedBy (value : String) (x : Session m) : Session m :=
  { x with host := x.host.authorizedBy value }

theorem drive_authorizedBy (x : Session m) (q : Option Inquiry) (began : Duration) (i calls : Nat)
    (v : Vigil) : (x.authorizedBy value).drive q began i calls v = x.drive q began i calls v := by
  induction calls generalizing v with
  | zero => rfl
  | succ calls ih =>
      unfold drive
      simp only [ih]
      rfl

theorem finish_authorizedBy (x : Session m) (q : Option Inquiry) (i : Nat) (v : Vigil) :
    (x.authorizedBy value).finish q i v = x.finish q i v := by
  unfold finish
  simp only [drive_authorizedBy]
  rfl

theorem updateNow_authorizedBy (x : Session m) (sweep : Sweep) (s : Service) :
    (x.authorizedBy value).updateNow sweep s = x.updateNow sweep s := by
  unfold updateNow
  simp only [finish_authorizedBy]
  rfl

theorem attend_authorizedBy (x : Session m) (q : Inquiry) (v : Vigil) :
    (x.authorizedBy value).attend q v = x.attend q v := by
  unfold attend
  simp only [finish_authorizedBy]
  rfl

theorem updateInBackground_authorizedBy (x : Session m) (interval : Duration) (sweep : Sweep)
    (s : Service) :
    (x.authorizedBy value).updateInBackground interval sweep s =
      x.updateInBackground interval sweep s := by
  unfold updateInBackground
  simp only [attend_authorizedBy]
  rfl

theorem update_authorizedBy (x : Session m) (background : Bool) (interval : Duration)
    (s : Service) :
    (x.authorizedBy value).update background interval s = x.update background interval s := by
  unfold update
  simp only [updateNow_authorizedBy, updateInBackground_authorizedBy]
  rfl

end Session

theorem update_withToken (h : Host m) (listener : Listener) (path : String) (s : Settings)
    (repository : String) (background : Bool) (pollMs : UInt64)
    (ht : Http.isHeaderValue token = true) (hother : Http.isHeaderValue other = true) :
    update h listener path (s.withToken other) repository background pollMs =
      update (h.authorizedBy (GitHub.credential other)) listener path (s.withToken token)
        repository background pollMs := by
  have haccess (t : String) : GitHub.Access.ofSettings (s.withToken t).github =
      (GitHub.Access.ofSettings s.github).withToken t := rfl
  have hpipeline (t : String) : (s.withToken t).pipeline = s.pipeline := rfl
  unfold update
  rw [haccess, haccess, hpipeline, hpipeline]
  cases s.pipeline.program with
  | none => rfl
  | some program =>
      dsimp only
      rw [h.collaborators_withToken _ ht hother]
      exact (Session.update_authorizedBy _ background _ _).symm

theorem perform_withToken (h : Host m) (listener : Listener) (env : Environment) (s : Settings)
    (action : Action) (ht : Http.isHeaderValue token = true)
    (hother : Http.isHeaderValue other = true) :
    perform h listener env (s.withToken other) action =
      perform (h.authorizedBy (GitHub.credential other)) listener env (s.withToken token)
        action := by
  cases action with
  | list => rfl
  | «show» repository => rfl
  | update repository background pollMs =>
      exact update_withToken h listener _ s repository background pollMs ht hother

/-- Of two tokens nothing is seen but the header of the requests that carries the token. Whatever is
done with one of them is done with the other one on a wire that exchanges the two; for a peer to
which this makes no difference it is one and the same computation, with the same answers, documents
and events. -/
theorem token_unseen {m : Type → Type} [Monad m] (s : Settings) {token other : String}
    (ht : Http.isHeaderValue token = true) (hother : Http.isHeaderValue other = true)
    (h : Host m) :
    (s.withToken other).toJson = (s.withToken token).toJson ∧
    (∀ path program args,
      h.collaborators path (.ofSettings (s.withToken other).github) program args =
        (h.authorizedBy (GitHub.credential other)).collaborators path
          (.ofSettings (s.withToken token).github) program args) ∧
    (∀ listener env action,
      perform h listener env (s.withToken other) action =
        perform (h.authorizedBy (GitHub.credential other)) listener env (s.withToken token)
          action) ∧
    (h.wire.Impartial →
      (∀ path program args,
        h.collaborators path (.ofSettings (s.withToken other).github) program args =
          h.collaborators path (.ofSettings (s.withToken token).github) program args) ∧
      ∀ listener env action,
        perform h listener env (s.withToken other) action =
          perform h listener env (s.withToken token) action) := by
  have hcollaborators := h.collaborators_withToken (.ofSettings s.github) ht hother
  have hperform := fun listener env action =>
    perform_withToken h listener env s action ht hother
  refine ⟨rfl, hcollaborators, hperform, fun himpartial => ⟨?_, ?_⟩⟩
  · intro path program args
    have hsame := hcollaborators path program args
    rw [h.authorizedBy_eq himpartial] at hsame
    exact hsame
  · intro listener env action
    have hsame := hperform listener env action
    rw [h.authorizedBy_eq himpartial] at hsame
    exact hsame

def busy : Host (StateM (List Http.Request)) where
  files := ⟨fun _ => pure (.error .notFound), fun _ _ => pure (.ok ()), fun _ _ => pure (.ok ()),
    fun _ => pure (.ok ())⟩
  processes := ⟨fun _ => pure (.error .notFound)⟩
  wire := {
    exchange := fun q asked => (some ⟨503, [], "busy"⟩, asked ++ [q.authorizedBy ""])
    emit := fun _ => pure ()
    pause := fun _ => pure (some 500) }
  moment := pure ⟨0, .ofEpoch 0 0⟩
  waitUntil := fun _ => pure ()
  draws := pure []
  print := fun _ => pure ()
  note := fun _ => pure ()

theorem impartial_busy : busy.wire.Impartial := by
  intro value q
  funext asked
  exact congrArg (fun q => (some (Http.Response.mk 503 [] "busy"), asked ++ [q]))
    (q.authorizedBy_authorizedBy value "")

theorem token_unseen_by_busy_service :
    Http.isHeaderValue "ghp_one" = true ∧ Http.isHeaderValue "ghp_two" = true ∧
      busy.wire.Impartial ∧
      ∀ listener env action,
        perform busy listener env ((Settings.standard "repos.json").withToken "ghp_two") action =
          perform busy listener env ((Settings.standard "repos.json").withToken "ghp_one")
            action := by
  have hone : Http.isHeaderValue "ghp_one" = true := by decide +kernel
  have htwo : Http.isHeaderValue "ghp_two" = true := by decide +kernel
  obtain ⟨-, -, -, hsame⟩ := token_unseen (Settings.standard "repos.json") hone htwo busy
  exact ⟨hone, htwo, impartial_busy, (hsame impartial_busy).2⟩

end CommandLine

end IndexRefresh
