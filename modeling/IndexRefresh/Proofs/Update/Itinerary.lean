import IndexRefresh.Proofs.Update.Course

namespace IndexRefresh

structure Itinerary where
  origin : Origin
  head : HeadCommit
  changes : Comparison
  output : PipelineOutput
  updated : Snapshot

namespace Itinerary

instance : Inhabited Itinerary :=
  ⟨⟨.fresh "" "" "" "", "", ⟨"", ""⟩⟩, ⟨"", ""⟩, ⟨"", "", 0, [], false⟩, ⟨.zero, []⟩,
    .fresh "" "" "" ""⟩

def calls (p : Itinerary) (repository : String) : List Call :=
  [.load repository,
   .head p.origin.address.owner p.origin.address.repo p.origin.snapshot.branch,
   .compare p.origin.address.owner p.origin.address.repo p.origin.base p.head.sha,
   .pull p.origin.snapshot.localPath p.origin.snapshot.branch,
   .process ⟨repository, p.origin.snapshot.localPath, p.origin.base, p.head.sha⟩ p.changes.files,
   .save p.updated]

def answers (p : Itinerary) : List Exchange :=
  [⟨.loading, (.ok (some p.origin.snapshot) : Except Fault (Option Snapshot))⟩,
   ⟨.resolving p.origin, (.ok p.head : Except Fault HeadCommit)⟩,
   ⟨.comparing p.origin p.head, (.ok p.changes : Except Fault Comparison)⟩,
   ⟨.pulling p.origin p.head p.changes, (.ok () : Except Fault Unit)⟩,
   ⟨.processing p.origin p.head p.changes, (.ok p.output : Except Fault PipelineOutput)⟩]

/-- A run keeps to an itinerary as far as it gets: each of its calls but the last was answered as
the itinerary says. -/
structure Followed {σ : Type} (p : Itinerary) (repository : String) (threshold : UInt64)
    (c : Course σ) : Prop where
  calls : c.calls <+: p.calls repository
  answers : c.answers.take (c.calls.length - 1) = p.answers.take (c.calls.length - 1)
  origin : 1 < c.calls.length → p.origin.Known
  head : 2 < c.calls.length → p.head.sha ≠ p.origin.base
  changes : 3 < c.calls.length → p.changes.Accepted threshold
  updated : 5 < c.calls.length →
    ∃ stamp, AppliedTo p.origin.snapshot p.head.sha p.output stamp p.updated

end Itinerary

theorem Path.followed {σ : Type} {repository : String} {threshold : UInt64} {c : Course σ}
    {answers : List Exchange} {s : Stage} (h : Path threshold answers s)
    (hcalls : c.calls = callsTo repository answers s) (hanswers : answers <+: c.answers) :
    ∃ p : Itinerary, p.Followed repository threshold c := by
  have hlength : c.calls.length = answers.length + 1 := by
    simp [hcalls, callsTo]
  have htake : c.answers.take (c.calls.length - 1) = answers := by
    rw [hlength]
    exact (List.prefix_iff_eq_take.1 hanswers).symm
  have late {n : Nat} {q : Prop} (hn : answers.length < n) (hlate : n < c.calls.length) : q := by
    omega
  cases s with
  | loading =>
      obtain rfl := h.of_loading
      refine ⟨default, hcalls ▸ ⟨_, rfl⟩, ?_, late ?_, late ?_, late ?_, late ?_⟩
      · rw [htake, hlength]
        rfl
      all_goals simp
  | resolving o =>
      obtain ⟨rfl, ho⟩ := h.of_resolving
      refine ⟨{ (default : Itinerary) with origin := o }, hcalls ▸ ⟨_, rfl⟩, ?_, fun _ => ho,
        late ?_, late ?_, late ?_⟩
      · rw [htake, hlength]
        rfl
      all_goals simp
  | comparing o head =>
      obtain ⟨rfl, ho, hnew⟩ := h.of_comparing
      refine ⟨{ (default : Itinerary) with origin := o, head := head }, hcalls ▸ ⟨_, rfl⟩, ?_,
        fun _ => ho, fun _ => hnew, late ?_, late ?_⟩
      · rw [htake, hlength]
        rfl
      all_goals simp
  | pulling o head changes =>
      obtain ⟨rfl, ho, hnew, hchanges⟩ := h.of_pulling
      refine ⟨{ (default : Itinerary) with origin := o, head := head, changes := changes },
        hcalls ▸ ⟨_, rfl⟩, ?_, fun _ => ho, fun _ => hnew, fun _ => hchanges, late ?_⟩
      · rw [htake, hlength]
        rfl
      · simp
  | processing o head changes =>
      obtain ⟨rfl, ho, hnew, hchanges⟩ := h.of_processing
      refine ⟨{ (default : Itinerary) with origin := o, head := head, changes := changes },
        hcalls ▸ ⟨_, rfl⟩, ?_, fun _ => ho, fun _ => hnew, fun _ => hchanges, late ?_⟩
      · rw [htake, hlength]
        rfl
      · simp
  | saving o head output updated =>
      obtain ⟨changes, stamp, rfl, ho, hnew, hchanges, happlied⟩ := h.of_saving
      refine ⟨⟨o, head, changes, output, updated⟩, hcalls ▸ ⟨_, rfl⟩, ?_, fun _ => ho,
        fun _ => hnew, fun _ => hchanges, fun _ => ⟨stamp, appliedTo_of_applied? happlied⟩⟩
      rw [htake, hlength]
      rfl

namespace Course

variable {σ : Type} {repository : String} {threshold : UInt64} {store : σ} {c : Course σ}

theorem Sound.followed (h : c.Sound repository threshold store) :
    ∃ p : Itinerary, p.Followed repository threshold c := by
  cases h with
  | admitted =>
      have late {n : Nat} {q : Prop} (hlate : n < 0) : q := by omega
      exact ⟨default, ⟨_, rfl⟩, rfl, late, late, late, late⟩
  | waits hpath => exact hpath.followed rfl (List.prefix_refl _)
  | stopped hpath => exact hpath.followed rfl (List.prefix_refl _)
  | answered hpath => exact hpath.followed rfl (List.prefix_append ..)

theorem rank_of_not_mem_callsTo {answers : List Exchange} {s : Stage}
    (h : ∀ u, Call.save u ∉ callsTo repository answers s) : s.rank < 5 := by
  cases s with
  | saving o head output updated =>
      exact absurd (List.mem_append_right _ (List.mem_singleton_self _)) (h updated)
  | _ => simp [Stage.rank]

theorem Sound.store_eq (h : c.Sound repository threshold store)
    (hsave : ∀ u, Call.save u ∉ c.calls) : c.store = store := by
  cases h with
  | admitted => rfl
  | waits _ hstore => exact hstore (rank_of_not_mem_callsTo hsave)
  | stopped _ hstore => exact hstore (rank_of_not_mem_callsTo hsave)
  | answered _ hstore => exact hstore (rank_of_not_mem_callsTo hsave)

end Course

end IndexRefresh
