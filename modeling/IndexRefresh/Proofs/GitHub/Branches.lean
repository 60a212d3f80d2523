import IndexRefresh.Proofs.GitHub.Retrying
import IndexRefresh.Proofs.Http.Url

namespace IndexRefresh.GitHub

def isBranchChar (c : Char) : Bool :=
  0x20 < c.toNat && c.toNat != 0x7F && ['~', '^', ':', '?', '*', '[', '\\'].all (· != c)

def isBranchPiece (piece : List Char) : Bool :=
  !piece.isEmpty && piece.head? != some '.' && Text.withoutEnd? ".lock".toList piece == none

/-- The names that git takes for a branch. -/
structure IsBranch (name : String) : Prop where
  chars : name.toList.all isBranchChar = true
  pieces : (Text.split '/' name.toList).all isBranchPiece = true
  range : Text.occursIn ['.', '.'] name.toList = false
  reflog : Text.occursIn ['@', '\x7b'] name.toList = false
  first : name.toList.head? ≠ some '-'
  last : name.toList.getLast? ≠ some '.'
  other : name ≠ "@"

instance (name : String) : Decidable (IsBranch name) :=
  decidable_of_iff
    (name.toList.all isBranchChar = true ∧ (Text.split '/' name.toList).all isBranchPiece = true ∧
      Text.occursIn ['.', '.'] name.toList = false ∧
      Text.occursIn ['@', '\x7b'] name.toList = false ∧
      name.toList.head? ≠ some '-' ∧ name.toList.getLast? ≠ some '.' ∧ name ≠ "@")
    ⟨fun ⟨a, b, c, d, e, f, g⟩ => ⟨a, b, c, d, e, f, g⟩,
      fun ⟨a, b, c, d, e, f, g⟩ => ⟨a, b, c, d, e, f, g⟩⟩

theorem IsBranch.plain {name : String} (h : IsBranch name) : Http.Url.Plain name.toList := by
  intro c hc
  have hchar := List.all_eq_true.1 h.chars c hc
  simp only [isBranchChar, Bool.and_eq_true, decide_eq_true_eq] at hchar
  refine ⟨hchar.1.1, ?_, ?_, ?_⟩ <;> (rintro rfl; simp at hchar)

theorem IsBranch.undotted {name : String} (h : IsBranch name) (hpercent : '%' ∉ name.toList) :
    Http.Url.Undotted name.toList := by
  refine Http.Url.undotted_of_heads hpercent fun piece hpiece => ?_
  have hpiece := List.all_eq_true.1 h.pieces piece hpiece
  simp only [isBranchPiece, Bool.and_eq_true, bne_iff_ne] at hpiece
  exact hpiece.1.2

namespace Source

def headRequest? (access : Access) (owner repo branch : String) : Option Http.Request :=
  request? access (headUrl access owner repo branch)

def Unescaped (branch : String) : Prop :=
  '#' ∉ branch.toList ∧ '%' ∉ branch.toList

instance (branch : String) : Decidable (Unescaped branch) :=
  inferInstanceAs (Decidable (_ ∧ _))

section Requests

variable {access : Access} {owner repo : String}

theorem headUrl_eq (access : Access) (owner repo branch : String) :
    headUrl access owner repo branch =
      String.ofList ((repositoryUrl access owner repo ++ "/commit").toList ++ ['s'] ++
        '/' :: branch.toList) := by
  apply String.toList_injective
  simp [headUrl]

theorem headRequest?_eq (access : Access) (owner repo branch : String) :
    headRequest? access owner repo branch =
      if (headers access).all (fun h => Http.isHeaderValue h.2) && access.timeoutSecs != 0 then
        (Http.Url.ofText? (String.ofList ((repositoryUrl access owner repo ++ "/commit").toList ++
          ['s'] ++ '/' :: branch.toList))).map fun u => ⟨u, headers access⟩
      else none := by
  rw [← headUrl_eq]
  rfl

theorem not_mem_repositoryUrl (h : ∀ part ∈ [access.apiUrl, owner, repo], '#' ∉ part.toList) :
    '#' ∉ (repositoryUrl access owner repo ++ "/commit").toList ++ ['s'] := by
  obtain ⟨hapi, howner, hrepo, -⟩ : _ ∧ _ ∧ _ ∧ _ := by
    simpa only [List.forall_mem_cons] using h
  have hend : '#' ∉ Text.dropEnd (· == '/') access.apiUrl.toList := fun hmem =>
    hapi (List.mem_reverse.1 ((List.dropWhile_suffix _).subset (List.mem_reverse.1 hmem)))
  simp [repositoryUrl, hend, howner, hrepo]

theorem exists_headTarget (h : ∀ part ∈ [access.apiUrl, owner, repo], '#' ∉ part.toList) :
    (∀ branch, IsBranch branch → headRequest? access owner repo branch = none) ∨
    ∃ ahead mustEscape, ∀ branch, IsBranch branch →
      ∃ q, headRequest? access owner repo branch = some q ∧ (Unescaped branch →
        q.url.target.toList = ahead ++ Http.Url.percentEncode mustEscape branch.toList) := by
  cases hfit : (headers access).all (fun h => Http.isHeaderValue h.2) && access.timeoutSecs != 0 with
  | false =>
      refine .inl fun branch _ => ?_
      rw [headRequest?_eq, hfit]
      rfl
  | true =>
      have hcommon := not_mem_repositoryUrl h
      rcases Http.Url.exists_target (by decide) (by decide) (by decide) hcommon with
        hnone | ⟨ahead, mustEscape, hsome⟩
      · refine .inl fun branch hbranch => ?_
        rw [headRequest?_eq, hfit, if_pos rfl, hnone _ hbranch.plain]
        rfl
      · refine .inr ⟨ahead, mustEscape, fun branch hbranch => ?_⟩
        obtain ⟨u, hu, htarget⟩ := hsome _ hbranch.plain
        refine ⟨⟨u, headers access⟩, ?_, fun hplain => ?_⟩
        · rw [headRequest?_eq, hfit, if_pos rfl, hu]
          rfl
        · have hwhole : branch.toList.takeWhile (· != '#') = branch.toList :=
            List.takeWhile_eq_self_iff.2 fun c hc => by
              rw [bne_iff_ne]
              rintro rfl
              exact hplain.1 hc
          rw [hwhole] at htarget
          exact htarget (hbranch.undotted hplain.2)

end Requests

section Sent

variable {ω α : Type} {s : Source (StateM ω)} {sent : ω → List Http.Request} {w u : ω}

/-- A record of what the peer got: the requests of the exchanges in their order. -/
structure Records (s : Source (StateM ω)) (sent : ω → List Http.Request) : Prop where
  exchange : ∀ q w, sent ((s.wire.exchange q).run w).2 = sent w ++ [q]
  emit : ∀ e w, sent (s.wire.emit e w).2 = sent w
  pause : ∀ i w, sent (s.wire.pause i w).2 = sent w

theorem Records.follow (h : s.Records sent) (redirects : Nat) (q : Http.Request) (w : ω) :
    ∃ later, sent ((Http.follow s.wire.exchange redirects q).run w).2 = sent w ++ q :: later := by
  induction redirects generalizing q w with
  | zero =>
      refine ⟨[], ?_⟩
      rw [Http.follow, StateT.run_bind, ← h.exchange q w]
      rcases (s.wire.exchange q).run w with ⟨answer, u⟩
      cases answer with
      | none => rfl
      | some r =>
          dsimp only [bind]
          cases Http.redirected? q r <;> rfl
  | succ redirects ih =>
      have hfirst := h.exchange q w
      rw [Http.follow, StateT.run_bind]
      rcases hanswer : (s.wire.exchange q).run w with ⟨answer, u⟩
      rw [hanswer] at hfirst
      cases answer with
      | none => exact ⟨[], hfirst⟩
      | some r =>
          dsimp only [bind] at hfirst ⊢
          cases Http.redirected? q r with
          | none => exact ⟨[], hfirst⟩
          | some next =>
              obtain ⟨later, hlater⟩ := ih next u
              refine ⟨next :: later, hlater.trans ?_⟩
              rw [hfirst, List.append_assoc]
              rfl

theorem Records.attempt (h : s.Records sent) (url : String) (i : Nat) (w : ω) :
    ∃ asked, asked.head? = request? s.access url ∧
      sent (s.attempt url i w).2 = sent w ++ asked := by
  unfold Source.attempt ask
  cases request? s.access url with
  | none =>
      refine ⟨[], rfl, ?_⟩
      rw [List.append_nil]
      exact h.emit _ w
  | some q =>
      obtain ⟨later, hlater⟩ := h.follow Http.maxRedirects q
        (s.wire.emit (event .debug "Calling GitHub API"
          [("url", .text url), ("attempt", .number i)]) w).2
      rw [h.emit] at hlater
      exact ⟨q :: later, rfl, hlater⟩

theorem Records.only (h : s.Records sent) {url : String} {i : Nat}
    (hu : sent u = sent (s.attempt url i w).2) :
    ∃ tries ≠ [], (∀ asked ∈ tries, asked.head? = request? s.access url) ∧
      sent u = sent w ++ tries.flatten := by
  obtain ⟨asked, hasked, hsent⟩ := h.attempt url i w
  refine ⟨[asked], List.cons_ne_nil _ _, ?_, ?_⟩
  · intro asked' hmem
    rw [List.mem_singleton.1 hmem]
    exact hasked
  · rw [List.flatten_singleton, ← hsent]
    exact hu

theorem Records.resumed (h : s.Records sent) (url : String) (i : Nat) (w : ω) :
    sent (s.resumed url i w) = sent (s.attempt url i w).2 := by
  unfold Source.resumed
  dsimp only
  rw [h.emit, h.pause]

theorem Records.getWithin (h : s.Records sent) (decode : Json → Option α) (url : String)
    (i left : Nat) (w : ω) :
    ∃ tries ≠ [], (∀ asked ∈ tries, asked.head? = request? s.access url) ∧
      sent ((s.getWithin decode url i (left + 1)).run w).2 = sent w ++ tries.flatten := by
  -- by induction on the attempts that are left after this one
  induction left generalizing i w with
  | zero =>
      apply h.only
      cases hpass : mayPass (s.attempt url i w).1 with
      | true =>
          rw [getWithin_of_last hpass, ended, if_pos hpass]
          exact h.emit _ _
      | false => rw [getWithin_of_settled hpass]
  | succ left ih =>
      cases hpass : mayPass (s.attempt url i w).1 with
      | false =>
          apply h.only
          rw [getWithin_of_settled hpass]
      | true =>
          cases hpause : (s.wire.pause i (s.attempt url i w).2).1 with
          | none =>
              apply h.only
              rw [getWithin_of_spent hpass hpause]
              exact h.pause _ _
          | some wait =>
              obtain ⟨asked, hasked, hsent⟩ := h.attempt url i w
              obtain ⟨tries, -, htries, hlater⟩ := ih (i + 1) (s.resumed url i w)
              refine ⟨asked :: tries, List.cons_ne_nil _ _,
                List.forall_mem_cons.2 ⟨hasked, htries⟩, ?_⟩
              rw [getWithin_of_mayPass hpass (by rw [hpause, Option.isSome_some]), hlater,
                h.resumed, hsent, List.flatten_cons, List.append_assoc]

theorem Records.head (h : s.Records sent) (owner repo branch : String) (w : ω) :
    ∃ tries ≠ [], (∀ asked ∈ tries, asked.head? = headRequest? s.access owner repo branch) ∧
      sent ((s.head owner repo branch).run w).2 = sent w ++ tries.flatten := by
  obtain ⟨left, hleft⟩ := Nat.exists_eq_add_of_le' (Nat.le_max_right s.access.attempts.toNat 1)
  obtain ⟨tries, hne, htries, hsent⟩ := h.getWithin CommitPage.ofJson?
    (headUrl s.access owner repo branch) 1 left w
  refine ⟨tries, hne, htries, ?_⟩
  rw [← hsent, Source.head, Source.get, hleft]
  rcases hpage : (s.getWithin CommitPage.ofJson? (headUrl s.access owner repo branch) 1
    (left + 1)).run w with ⟨page, u⟩
  cases page with
  | error f => rw [run_bind_of_error hpage]
  | ok page =>
      rw [run_bind_of_ok hpage]
      rfl

end Sent

/-- Two branches are asked for in two ways when neither name has a number sign or a percent sign; a
number sign and what comes after it never reach the peer. -/
theorem branches_kept_apart {ω : Type} (s : Source (StateM ω)) (sent : ω → List Http.Request)
    (hsent : s.Records sent) (owner repo : String)
    (h : ∀ part ∈ [s.access.apiUrl, owner, repo], '#' ∉ part.toList) :
    (∀ branch w, ∃ tries ≠ [],
      (∀ asked ∈ tries, asked.head? = headRequest? s.access owner repo branch) ∧
      sent ((s.head owner repo branch).run w).2 = sent w ++ tries.flatten) ∧
    (∀ b c, IsBranch b → IsBranch c →
      ((headRequest? s.access owner repo b).isSome = (headRequest? s.access owner repo c).isSome) ∧
      (Unescaped b → Unescaped c → ∀ q r, headRequest? s.access owner repo b = some q →
        headRequest? s.access owner repo c = some r → (q.url.target = r.url.target ↔ b = c))) ∧
    ∀ kept lost, IsBranch (kept ++ "#" ++ lost) →
      headRequest? s.access owner repo (kept ++ "#" ++ lost) =
        headRequest? s.access owner repo kept := by
  refine ⟨hsent.head owner repo, fun b c hb hc => ?_, fun kept lost hname => ?_⟩
  · rcases exists_headTarget h with hnone | ⟨ahead, mustEscape, hsome⟩
    · refine ⟨by rw [hnone b hb, hnone c hc], fun _ _ q r hq => ?_⟩
      rw [hnone b hb] at hq
      cases hq
    · obtain ⟨q, hq, hqtarget⟩ := hsome b hb
      obtain ⟨r, hr, hrtarget⟩ := hsome c hc
      refine ⟨by rw [hq, hr, Option.isSome_some, Option.isSome_some], ?_⟩
      intro hbplain hcplain q' r' hq' hr'
      obtain rfl : q = q' := Option.some.inj (hq.symm.trans hq')
      obtain rfl : r = r' := Option.some.inj (hr.symm.trans hr')
      constructor
      · intro hsame
        have hlists := congrArg String.toList hsame
        rw [hqtarget hbplain, hrtarget hcplain] at hlists
        have hencoded := List.append_cancel_left hlists
        exact String.toList_injective (Http.Url.eq_of_percentEncode hbplain.2 hcplain.2 hencoded)
      · rintro rfl
        exact congrArg (fun q => q.url.target) (Option.some.inj (hq.symm.trans hr))
  · have hlist : (kept ++ "#" ++ lost).toList = kept.toList ++ '#' :: lost.toList := by simp
    have hplain : Http.Url.Plain (kept.toList ++ '#' :: lost.toList) := hlist ▸ hname.plain
    rw [headRequest?_eq, headRequest?_eq, hlist, Http.Url.ofText?_fragment hplain]

def onlyCommit : Source (StateM (List Http.Request)) where
  access := Access.standard
  wire := {
    exchange := fun q sent =>
      (some ⟨200, [], "\x7b\"sha\":\"abc\",\"commit\":\x7b\"message\":\"m\"\x7d\x7d"⟩, sent ++ [q])
    emit := fun _ sent => ((), sent)
    pause := fun _ sent => (none, sent) }

theorem records_onlyCommit : onlyCommit.Records id :=
  ⟨fun _ _ => rfl, fun _ _ => rfl, fun _ _ => rfl⟩

theorem branches_kept_apart_in_one_repository :
    (∃ q r, headRequest? Access.standard "acme" "my-api" "main" = some q ∧
      headRequest? Access.standard "acme" "my-api" "feature/ü" = some r ∧
      q.url.target ≠ r.url.target) ∧
    headRequest? Access.standard "acme" "my-api" "release#1" =
      headRequest? Access.standard "acme" "my-api" "release" := by
  obtain ⟨-, happart, hlost⟩ := branches_kept_apart onlyCommit id records_onlyCommit "acme" "my-api"
    (by decide)
  obtain ⟨-, hdiffer⟩ := happart "main" "feature/ü" (by decide +kernel) (by decide +kernel)
  obtain ⟨q, hq⟩ := Option.isSome_iff_exists.1
    (by decide +kernel : (headRequest? Access.standard "acme" "my-api" "main").isSome = true)
  obtain ⟨r, hr⟩ := Option.isSome_iff_exists.1
    (by decide +kernel : (headRequest? Access.standard "acme" "my-api" "feature/ü").isSome = true)
  refine ⟨⟨q, r, hq, hr, fun hsame => ?_⟩, hlost "release" "1" (by decide +kernel)⟩
  have heq := (hdiffer (by decide) (by decide) q r hq hr).1 hsame
  exact absurd heq (by decide)

/-- Two branches for which the peer is asked in one and the same way. -/
def Collide (b c : String) : Prop :=
  IsBranch b ∧ IsBranch c ∧ b ≠ c ∧
    ((onlyCommit.head "acme" "my-api" b).run []).2.map (·.url.target) =
      ((onlyCommit.head "acme" "my-api" c).run []).2.map (·.url.target)

instance (b c : String) : Decidable (Collide b c) :=
  inferInstanceAs (Decidable (_ ∧ _ ∧ _ ∧ _))

theorem branches_not_kept_apart :
    Collide "release#1" "release#2" ∧ Collide "a<" "a%3C" ∧ Collide "a/%2e%2e/b" "b" := by
  refine ⟨?_, ?_, ?_⟩
  · decide +kernel
  · decide +kernel
  · decide +kernel

end Source

end IndexRefresh.GitHub
