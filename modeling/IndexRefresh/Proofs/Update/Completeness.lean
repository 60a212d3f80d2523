import IndexRefresh.Proofs.GitHub.Pages
import IndexRefresh.Proofs.Update.Itinerary

namespace IndexRefresh

open GitHub (Source changesOf)

def Call.isApplying : Call → Bool
  | .pull _ _ => true
  | .process _ _ => true
  | .save _ => true
  | _ => false

namespace Itinerary.Followed

variable {σ : Type} {repository : String} {threshold : UInt64} {p : Itinerary} {c : Course σ}

theorem length_of_isApplying (h : p.Followed repository threshold c) {call : Call}
    (hcall : call ∈ c.calls) (happly : call.isApplying = true) : 3 < c.calls.length := by
  rw [List.prefix_iff_eq_take.1 h.calls] at hcall
  apply Nat.lt_of_not_le
  intro hshort
  have hearly : call ∈ (p.calls repository).take 3 :=
    (List.take_prefix_take_left hshort).subset hcall
  simp only [Itinerary.calls, List.take_succ_cons, List.take_zero, List.mem_cons,
    List.not_mem_nil, or_false] at hearly
  rcases hearly with rfl | rfl | rfl <;> cases happly

theorem compared (h : p.Followed repository threshold c) (hlength : 3 < c.calls.length) :
    ⟨.comparing p.origin p.head, (.ok p.changes : Except Fault Comparison)⟩ ∈ c.answers := by
  have hmem : ⟨.comparing p.origin p.head, (.ok p.changes : Except Fault Comparison)⟩ ∈
      p.answers.take 3 := by
    simp [Itinerary.answers]
  have htake : 3 ≤ c.calls.length - 1 := by
    omega
  have hanswers := (List.take_prefix_take_left htake).subset hmem
  rw [← h.answers] at hanswers
  exact List.mem_of_mem_take hanswers

theorem compare_mem (h : p.Followed repository threshold c) (hlength : 3 < c.calls.length) :
    Call.compare p.origin.address.owner p.origin.address.repo p.origin.base p.head.sha ∈ c.calls := by
  rw [List.prefix_iff_eq_take.1 h.calls]
  have hmem : Call.compare p.origin.address.owner p.origin.address.repo p.origin.base p.head.sha ∈
      (p.calls repository).take 3 := by
    simp [Itinerary.calls]
  exact (List.take_prefix_take_left (Nat.le_of_lt hlength)).subset hmem

theorem of_process_mem (h : p.Followed repository threshold c) {options : PipelineOptions}
    {files : List ChangedFile} (hprocess : Call.process options files ∈ c.calls) :
    options = ⟨repository, p.origin.snapshot.localPath, p.origin.base, p.head.sha⟩ ∧
      files = p.changes.files := by
  have hmem := h.calls.subset hprocess
  simpa [Itinerary.calls] using hmem

theorem of_compare_mem (h : p.Followed repository threshold c) {owner repo base head : String}
    (hcompare : Call.compare owner repo base head ∈ c.calls) :
    owner = p.origin.address.owner ∧ repo = p.origin.address.repo ∧ base = p.origin.base ∧
      head = p.head.sha := by
  have hmem := h.calls.subset hcompare
  simpa [Itinerary.calls] using hmem

end Itinerary.Followed

namespace Course

variable {ω σ : Type} {repository : String} {threshold : UInt64} {store : σ} {c : Course σ}

/-- If the comparison of a run was answered, then with what a source made out of its peer. -/
def ComparedBy (s : Source (StateM ω)) (peer : ω) (c : Course σ) : Prop :=
  ∀ o head (reply : Except Fault Comparison), ⟨.comparing o head, reply⟩ ∈ c.answers →
    ((s.compare o.address.owner o.address.repo o.base head.sha).run peer).1 = reply

/-- A run touches the working copy, the index and the store only after the source saw all pages of a
list of at most so many changes as the threshold allows, and these are the changes that it applies. -/
theorem applies_complete_lists_only (s : Source (StateM ω)) (peer : ω)
    (h : Reached repository threshold store c) (hpeer : c.ComparedBy s peer) :
    (∀ call ∈ c.calls, call.isApplying = true →
      ∃ owner repo base head pages, Call.compare owner repo base head ∈ c.calls ∧
        s.Complete (Source.compareUrl s.access owner repo base head) peer pages ∧
        (changesOf pages).length ≤ threshold.toNat ∧
        ∀ options files, call = .process options files →
          options.baseSha = base ∧ options.headSha = head ∧ files = changesOf pages) ∧
    (∀ owner repo base head, Call.compare owner repo base head ∈ c.calls →
      (¬∃ pages, s.Complete (Source.compareUrl s.access owner repo base head) peer pages ∧
        (changesOf pages).length ≤ threshold.toNat) →
      (∀ call ∈ c.calls, call.isApplying = false) ∧ c.store = store) := by
  obtain ⟨p, hp⟩ := h.sound.followed
  -- from the fourth call on the comparison was answered, and the run went on with its answer
  have hcomplete (hlength : 3 < c.calls.length) :
      ∃ pages, s.Complete (Source.compareUrl s.access p.origin.address.owner p.origin.address.repo
          p.origin.base p.head.sha) peer pages ∧ p.changes.files = changesOf pages := by
    have hchanges := hp.changes hlength
    have hanswer := hpeer p.origin p.head _ (hp.compared hlength)
    exact Source.compare_eq_ok_iff.1 ⟨p.changes, hanswer, hchanges.complete, rfl⟩
  constructor
  · intro call hcall happly
    have hlength := hp.length_of_isApplying hcall happly
    obtain ⟨pages, hpages, hfiles⟩ := hcomplete hlength
    refine ⟨_, _, _, _, pages, hp.compare_mem hlength, hpages, ?_, ?_⟩
    · rw [← hfiles]
      exact (hp.changes hlength).few
    · rintro options files rfl
      obtain ⟨rfl, rfl⟩ := hp.of_process_mem hcall
      exact ⟨rfl, rfl, hfiles⟩
  · intro owner repo base head hcompare hnone
    obtain ⟨rfl, rfl, rfl, rfl⟩ := hp.of_compare_mem hcompare
    have huntouched : ∀ call ∈ c.calls, call.isApplying = false := by
      intro call hcall
      rw [← Bool.not_eq_true]
      intro happly
      have hlength := hp.length_of_isApplying hcall happly
      obtain ⟨pages, hpages, hfiles⟩ := hcomplete hlength
      apply hnone
      refine ⟨pages, hpages, ?_⟩
      rw [← hfiles]
      exact (hp.changes hlength).few
    refine ⟨huntouched, h.sound.store_eq ?_⟩
    intro u hu
    cases huntouched _ hu

theorem exists_applying {s : Source (StateM ω)} {peer : ω} {o : Origin} {head : HeadCommit}
    {changes : Comparison} (ho : o.Known) (hnew : head.sha ≠ o.base)
    (hchanges : changes.Accepted threshold)
    (hanswer : ((s.compare o.address.owner o.address.repo o.base head.sha).run peer).1 =
      .ok changes) :
    ∃ c : Course σ, Reached repository threshold store c ∧ c.ComparedBy s peer ∧
      Call.process ⟨repository, o.snapshot.localPath, o.base, head.sha⟩ changes.files ∈ c.calls := by
  refine ⟨_, reached_of_path (Path.to_processing ho hnew hchanges) none, ?_, ?_⟩
  · intro o' head' reply hreply
    simp only [List.mem_cons, List.not_mem_nil, or_false] at hreply
    rcases hreply with h | h | h | h
    · cases h
    · cases h
    · cases h
      exact hanswer
    · cases h
  · exact List.mem_append_right _ (List.mem_singleton_self _)

theorem applies_complete_lists_only_over_two_pages :
    ∃ (s : Source (StateM Unit)) (c : Course Unit) (options : PipelineOptions),
      Reached "a" 10 () c ∧ c.ComparedBy s () ∧
      Call.process options [.plain "file" .added] ∈ c.calls ∧
      ∃ owner repo pages,
        s.Complete (Source.compareUrl s.access owner repo options.baseSha options.headSha) () pages ∧
        changesOf pages = [.plain "file" .added] := by
  let first : Http.Response := ⟨200, [("link", "<https://host/next>; rel=\"next\"")],
    "\x7b\"files\":[\x7b\"filename\":\"file\",\"status\":\"added\"\x7d]\x7d"⟩
  let second : Http.Response := ⟨200, [],
    "\x7b\"files\":[\x7b\"filename\":\"same\",\"status\":\"unchanged\"\x7d]\x7d"⟩
  let exchange (r : Http.Request) : StateM Unit (Option Http.Response) :=
    pure (some (if r.url.path = "/next" then second else first))
  let s : Source (StateM Unit) :=
    ⟨⟨"https://host", none, 1, 1, 1⟩, ⟨exchange, fun _ => pure (), fun _ => pure none⟩⟩
  let o : Origin := ⟨{ Snapshot.fresh "a" "https://host/owner/repo" "main" "/work" with
    indexedSha := some "old" }, "old", ⟨"owner", "repo"⟩⟩
  let head : HeadCommit := ⟨"new", "message"⟩
  let changes : Comparison := ⟨"old", "new", 0, [.plain "file" .added], false⟩
  have haddress : Address.ofUrl? "https://host/owner/repo" = some ⟨"owner", "repo"⟩ := rfl
  have ho : o.Known := ⟨rfl, haddress⟩
  have hchanges : changes.Accepted 10 := ⟨by decide, rfl⟩
  let reply : Except Fault Comparison :=
    ((s.compare o.address.owner o.address.repo o.base head.sha).run ()).1
  have hok : reply.toOption = some changes := by
    decide +kernel
  have hanswer : reply = .ok changes := by
    cases hreply : reply with
    | error f => simp [hreply, Except.toOption] at hok
    | ok d => simpa [hreply, Except.toOption] using hok
  obtain ⟨c, hreached, hpeer, hprocess⟩ : ∃ c : Course Unit, Reached "a" 10 () c ∧
      c.ComparedBy s () ∧
      Call.process ⟨"a", o.snapshot.localPath, o.base, head.sha⟩ changes.files ∈ c.calls :=
    exists_applying ho (by decide) hchanges hanswer
  obtain ⟨owner, repo, base, new, pages, -, hpages, -, happlied⟩ :=
    (applies_complete_lists_only s () hreached hpeer).1 _ hprocess rfl
  obtain ⟨rfl, rfl, hfiles⟩ := happlied _ _ rfl
  exact ⟨s, c, _, hreached, hpeer, hprocess, owner, repo, pages, hpages, hfiles.symm⟩

end Course

end IndexRefresh
