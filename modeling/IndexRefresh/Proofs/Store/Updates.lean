import IndexRefresh.Proofs.Store.Progress

namespace IndexRefresh

structure Counted (first now : Snapshot) (xs : List Write) : Prop where
  updateCount : now.updateCount.toNat = first.updateCount.toNat + xs.length
  indexedSha : now.indexedSha = (xs.getLast?.map Write.headSha).or first.indexedSha
  fileCount : now.fileCount.toNat = xs.foldl
    (fun n x => n + x.output.stats.filesAdded.toNat - x.output.stats.filesDeleted.toNat)
    first.fileCount.toNat
  chunkCount : now.chunkCount.toNat = xs.foldl
    (fun n x => n + x.output.stats.chunksUpserted.toNat - x.output.stats.chunksDeleted.toNat)
    first.chunkCount.toNat

structure Complete (initial now : MemoryStore) (runs : List Run) (writes : List Write) : Prop where
  stored : ∀ name, (now.get? name).isSome = (initial.get? name).isSome
  folded : ∀ name, Folded (initial.get? name) (writesOf name writes) (now.get? name)
  counted : ∀ name first s, initial.get? name = some first → now.get? name = some s →
    Counted first s (writesOf name writes)
  untouched : ∀ name, writesOf name writes = [] → now.get? name = initial.get? name
  started : ∀ x ∈ writes, ∃ r, runs[x.run]? = some r ∧ r.repository = x.repository
  distinct : (writes.map Write.run).Nodup
  reported : ∀ i r report, runs[i]? = some r → r.state = .ended (.reported report) →
    report.outcome ≠ .noChanges → ∃ x ∈ writes, x.run = i ∧ x.Of report

theorem updates_foldl (xs : List Write) (t : Tally) :
    (xs.foldl Tally.after t).updates = t.updates + xs.length := by
  induction xs generalizing t with
  | nil => rfl
  | cons x xs ih =>
      rw [List.foldl_cons, ih, List.length_cons]
      change t.updates + 1 + xs.length = t.updates + (xs.length + 1)
      omega

theorem indexedSha_foldl (xs : List Write) (t : Tally) :
    (xs.foldl Tally.after t).indexedSha = (xs.getLast?.map Write.headSha).or t.indexedSha := by
  induction xs generalizing t with
  | nil => rfl
  | cons x xs ih =>
      rw [List.foldl_cons, ih, List.getLast?_cons]
      cases xs.getLast? with
      | none => rfl
      | some y => rfl

theorem Folded.counted {first s : Snapshot} {xs : List Write}
    (h : Folded (some first) xs (some s)) : Counted first s xs := by
  have htally : s.tally = xs.foldl Tally.after first.tally := Option.some.inj h.tally
  refine ⟨?_, ?_, ?_, ?_⟩
  · exact (congrArg Tally.updates htally).trans (updates_foldl xs first.tally)
  · exact (congrArg Tally.indexedSha htally).trans (indexedSha_foldl xs first.tally)
  · refine (congrArg Tally.files htally).trans ?_
    exact (List.foldl_hom Tally.files fun _ _ => rfl).symm
  · refine (congrArg Tally.chunks htally).trans ?_
    exact (List.foldl_hom Tally.chunks fun _ _ => rfl).symm

theorem Folded.isSome_eq {first last : Option Snapshot} {xs : List Write}
    (h : Folded first xs last) : last.isSome = first.isSome := by
  induction h with
  | nil => rfl
  | snoc _ _ ih => exact ih

theorem Folded.eq_of_nil {first last : Option Snapshot} (h : Folded first [] last) :
    last = first := by
  generalize hxs : ([] : List Write) = xs at h
  cases h with
  | nil => rfl
  | snoc => simp at hxs

theorem MemoryWorld.Kept.complete {limits : Limits} {threshold : UInt64} {initial : MemoryStore}
    {w : MemoryWorld} (h : Kept limits threshold initial w) :
    Complete initial w.store w.service.runs w.writes where
  stored name := (h.accounted name).isSome_eq
  folded := h.accounted
  counted name first s hfirst hs := by
    have hfolded := h.accounted name
    rw [hfirst, hs] at hfolded
    exact hfolded.counted
  untouched name hnone := by
    have hfolded := h.accounted name
    rw [hnone] at hfolded
    exact hfolded.eq_of_nil
  started := h.written
  distinct := h.distinct
  reported i r report hr hstate houtcome := (h.runs i r hr).reported report hstate houtcome

/-- No update is lost, whether the snapshots are kept in memory or in one file. -/
theorem no_update_lost {limits : Limits} {threshold : UInt64} {initial : MemoryStore}
    (hnamed : initial.Named) :
    (∀ w, MemoryWorld.Reached limits threshold initial w →
      Complete initial w.store w.service.runs w.writes) ∧
    (∀ path disk w, disk.Holds path initial →
      DocumentWorld.Reached limits threshold path disk w →
      (∃ now, w.disk.Holds path now) ∧
      ∀ now, w.disk.Holds path now → Complete initial now w.service.runs w.writes) := by
  refine ⟨fun w h => (h.kept hnamed).complete, fun path disk w hheld h => ?_⟩
  obtain ⟨now, hkept⟩ := h.kept hnamed hheld
  refine ⟨⟨now, hkept.held⟩, fun other hother => ?_⟩
  obtain rfl : other = now := hkept.held.unique hother
  exact (hkept.named hnamed).complete

theorem Complete.updateCount_eq {initial now : MemoryStore} {runs : List Run} {writes : List Write}
    (h : Complete initial now runs writes) {name : String} {first : Snapshot}
    (hfirst : initial.get? name = some first) :
    (now.get? name).map (fun s => s.updateCount.toNat) =
      some (first.updateCount.toNat + (writesOf name writes).length) := by
  have hstored := h.stored name
  rw [hfirst] at hstored
  obtain ⟨s, hs⟩ := Option.isSome_iff_exists.1 hstored
  rw [hs, Option.map_some, (h.counted name first s hfirst hs).updateCount]

theorem no_update_lost_after_first_run :
    ∃ (initial : MemoryStore) (disk : Disk) (w : MemoryWorld) (v : DocumentWorld)
      (now : MemoryStore),
      initial.Named ∧ disk.Holds "/a.json" initial ∧
      (initial.get? "a").map (fun s => s.updateCount.toNat) = some 0 ∧
      MemoryWorld.Reached ⟨5, 0, 100, 10⟩ 10 initial w ∧
      (w.store.get? "a").map (fun s => s.updateCount.toNat) = some 1 ∧
      DocumentWorld.Reached ⟨5, 0, 100, 10⟩ 10 "/a.json" disk v ∧ v.disk.Holds "/a.json" now ∧
      (now.get? "a").map (fun s => s.updateCount.toNat) = some 1 := by
  let first : Snapshot := { Snapshot.fresh "a" "https://host/owner/repo" "main" "/work" with
    indexedSha := some "old" }
  let o : Origin := ⟨first, "old", ⟨"owner", "repo"⟩⟩
  let output : PipelineOutput := ⟨{ Stats.zero with filesAdded := 1 }, []⟩
  let initial : MemoryStore := MemoryStore.ofSnapshots [first]
  let disk : Disk := Table.ofList [("/a.json", .file (Document.text initial).toUTF8)]
  have hfirst : initial.get? "a" = some first := rfl
  have haddress : Address.ofUrl? "https://host/owner/repo" = some ⟨"owner", "repo"⟩ := rfl
  have hfree : Unhindered 10 o ⟨"new", "message"⟩ ⟨"old", "new", 1, [.plain "file" .added], false⟩
      output (.ofEpoch 0 0) _ := ⟨rfl, haddress, by decide, by decide, rfl, rfl⟩
  have hread : disk.read "/a.json" = .ok (Document.text initial).toUTF8 := rfl
  have hheld : disk.Holds "/a.json" initial := .inr ⟨_, hread, Document.ofBytes?_text initial⟩
  have hnamed : initial.Named := MemoryStore.named_ofSnapshots [first]
  obtain ⟨w, hw, -, hwrites⟩ :=
    @MemoryWorld.exists_write ⟨5, 0, 100, 10⟩ _ _ _ _ _ _ _ _ _ hfirst hfree
  obtain ⟨v, hv, hwritten⟩ := @DocumentWorld.exists_write ⟨5, 0, 100, 10⟩ _ _ _ _ _ _ _ _ _ _ _
    _ _ hread (Document.ofBytes?_text initial) hfirst hfree rfl
  obtain ⟨hmemory, hfile⟩ := @no_update_lost ⟨5, 0, 100, 10⟩ 10 initial hnamed
  obtain ⟨⟨now, hnow⟩, hcomplete⟩ := hfile "/a.json" disk v hheld hv
  refine ⟨initial, disk, w, v, now, hnamed, hheld, rfl, hw, ?_, hv, hnow, ?_⟩
  · rw [(hmemory w hw).updateCount_eq hfirst, hwrites]
    rfl
  · rw [(hcomplete now hnow).updateCount_eq hfirst, hwritten]
    rfl

end IndexRefresh
