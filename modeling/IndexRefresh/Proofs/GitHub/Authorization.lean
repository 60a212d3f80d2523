import IndexRefresh.GitHub.Source

namespace IndexRefresh

namespace Http

section Requests

variable {value : String}

def authorized (value : String) (h : String × String) : String × String :=
  if h.1 = "authorization" then (h.1, value) else h

def Request.authorizedBy (value : String) (q : Request) : Request :=
  { q with headers := q.headers.map (authorized value) }

theorem authorized_fst (value : String) (h : String × String) : (authorized value h).1 = h.1 := by
  unfold authorized
  split <;> rfl

theorem Request.authorizedBy_authorizedBy (q : Request) (first second : String) :
    (q.authorizedBy first).authorizedBy second = q.authorizedBy second := by
  have htwice : authorized second ∘ authorized first = authorized second := by
    funext h
    by_cases hname : h.1 = "authorization"
    · simp [authorized, hname]
    · simp [authorized, hname]
  unfold Request.authorizedBy
  rw [List.map_map, htwice]

theorem carriedOver_map (old new : Url) (headers : List (String × String)) :
    carriedOver old new (headers.map (authorized value)) =
      (carriedOver old new headers).map (authorized value) := by
  unfold carriedOver
  split
  · rfl
  · rw [List.filter_map]
    congr 2
    funext h
    rw [Function.comp_apply, authorized_fst]

theorem redirected?_authorizedBy (q : Request) (r : Response) :
    redirected? (q.authorizedBy value) r =
      (redirected? q r).map (Request.authorizedBy value) := by
  unfold redirected?
  split
  · rw [Option.map_map]
    refine congrFun (congrArg Option.map (funext fun url => ?_)) _
    exact congrArg (Request.mk url) (carriedOver_map q.url url q.headers)
  · rfl

theorem follow_authorizedBy {m : Type → Type} [Monad m] (exchange : Request → m (Option Response))
    (redirects : Nat) (q : Request) :
    follow exchange redirects (q.authorizedBy value) =
      follow (fun q => exchange (q.authorizedBy value)) redirects q := by
  induction redirects generalizing q with
  | zero =>
      unfold follow
      refine congrArg (bind (exchange (q.authorizedBy value))) (funext fun answer => ?_)
      cases answer with
      | none => rfl
      | some r =>
          dsimp only
          rw [redirected?_authorizedBy]
          cases redirected? q r <;> rfl
  | succ redirects ih =>
      unfold follow
      refine congrArg (bind (exchange (q.authorizedBy value))) (funext fun answer => ?_)
      cases answer with
      | none => rfl
      | some r =>
          dsimp only
          rw [redirected?_authorizedBy]
          cases redirected? q r with
          | none => rfl
          | some next => exact ih next

end Requests

end Http

namespace GitHub

def credential (token : String) : String :=
  "Bearer " ++ token

theorem isHeaderValue_credential {token : String} (h : Http.isHeaderValue token = true) :
    Http.isHeaderValue (credential token) = true := by
  have hstem : Http.isHeaderValue "Bearer " = true := by decide
  unfold Http.isHeaderValue at h hstem ⊢
  rw [credential, String.toList_append, List.all_append, h, hstem]
  rfl

def Access.withToken (token : String) (a : Access) : Access :=
  { a with token := some token }

def Wire.authorizedBy {m : Type → Type} (value : String) (w : Wire m) : Wire m :=
  { w with exchange := fun q => w.exchange (q.authorizedBy value) }

/-- Answers that do not depend on who asks. -/
def Wire.Impartial {m : Type → Type} (w : Wire m) : Prop :=
  ∀ value q, w.exchange (q.authorizedBy value) = w.exchange q

theorem Wire.Impartial.authorizedBy {m : Type → Type} {w : Wire m} (h : w.Impartial)
    (value : String) : w.authorizedBy value = w :=
  congrArg (fun exchange => { w with exchange }) (funext fun q => h value q)

namespace Source

variable {m : Type → Type} [Monad m] {access : Access} {wire : Wire m} {token other : String}

theorem headers_withToken (access : Access) (token other : String) :
    headers (access.withToken other) =
      (headers (access.withToken token)).map (Http.authorized (credential other)) :=
  rfl

theorem fits_withToken (access : Access) (h : Http.isHeaderValue token = true) :
    (headers (access.withToken token)).all (fun h => Http.isHeaderValue h.2) = true := by
  have hagent : Http.isHeaderValue userAgent = true := by decide +kernel
  have haccept : Http.isHeaderValue "application/vnd.github+json" = true := by decide +kernel
  have hcredential : Http.isHeaderValue ("Bearer " ++ token) = true := isHeaderValue_credential h
  simp [headers, Access.withToken, hagent, haccept, hcredential]

theorem request?_withToken (h : Http.isHeaderValue token = true)
    (hother : Http.isHeaderValue other = true) (url : String) :
    request? (access.withToken other) url =
      (request? (access.withToken token) url).map (·.authorizedBy (credential other)) := by
  have htimeout : (access.withToken other).timeoutSecs = (access.withToken token).timeoutSecs := rfl
  unfold request?
  dsimp only
  rw [fits_withToken access h, fits_withToken access hother, headers_withToken access token other,
    htimeout]
  split
  · rw [Option.map_map]
    rfl
  · rfl

theorem getOnce_withToken {α : Type} (h : Http.isHeaderValue token = true)
    (hother : Http.isHeaderValue other = true) (decode : Json → Option α) (url : String) :
    getOnce ⟨access.withToken other, wire⟩ decode url =
      getOnce ⟨access.withToken token, wire.authorizedBy (credential other)⟩ decode url := by
  unfold getOnce
  dsimp only
  rw [request?_withToken h hother]
  cases request? (access.withToken token) url with
  | none => rfl
  | some q =>
      dsimp only [Option.map_some]
      rw [Http.follow_authorizedBy]
      rfl

theorem getWithin_withToken {α : Type} (h : Http.isHeaderValue token = true)
    (hother : Http.isHeaderValue other = true) (decode : Json → Option α) (url : String)
    (attempt left : Nat) :
    getWithin ⟨access.withToken other, wire⟩ decode url attempt left =
      getWithin ⟨access.withToken token, wire.authorizedBy (credential other)⟩ decode url attempt
        left := by
  induction left generalizing attempt with
  | zero => rfl
  | succ left ih =>
      unfold getWithin
      simp only [getOnce_withToken h hother, ih]
      rfl

theorem get_withToken {α : Type} (h : Http.isHeaderValue token = true)
    (hother : Http.isHeaderValue other = true) (decode : Json → Option α) (url : String) :
    get ⟨access.withToken other, wire⟩ decode url =
      get ⟨access.withToken token, wire.authorizedBy (credential other)⟩ decode url :=
  getWithin_withToken h hother decode url 1 _

theorem walk_withToken (h : Http.isHeaderValue token = true)
    (hother : Http.isHeaderValue other = true) (base head : String) (l : Listed) (url : String)
    (left : Nat) :
    walk ⟨access.withToken other, wire⟩ base head l url left =
      walk ⟨access.withToken token, wire.authorizedBy (credential other)⟩ base head l url left := by
  induction left generalizing l url with
  | zero => rfl
  | succ left ih =>
      unfold walk
      simp only [get_withToken h hother, ih]
      rfl

theorem head_withToken (h : Http.isHeaderValue token = true)
    (hother : Http.isHeaderValue other = true) :
    head ⟨access.withToken other, wire⟩ =
      head ⟨access.withToken token, wire.authorizedBy (credential other)⟩ := by
  funext owner repo branch
  unfold head
  rw [get_withToken h hother]
  rfl

theorem compare_withToken (h : Http.isHeaderValue token = true)
    (hother : Http.isHeaderValue other = true) :
    compare ⟨access.withToken other, wire⟩ =
      compare ⟨access.withToken token, wire.authorizedBy (credential other)⟩ := by
  funext owner repo base head
  unfold compare
  rw [walk_withToken h hother]
  rfl

end Source

end GitHub

end IndexRefresh
