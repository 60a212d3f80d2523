import IndexRefresh.Proofs.Store.SharedFile

namespace IndexRefresh

open DocumentStore (afterReading documentOf making making_cases quiet temporaryPath writing)

inductive Service.Served (s : Service) : Service → Prop where
  | refl : Served s s
  | step {t u : Service} {d : Deed} (h : Served s t) (hs : Service.Step t d u)
      (hd : d.answersStore = false) : Served s u

structure Unhindered (threshold : UInt64) (o : Origin) (head : HeadCommit) (changes : Comparison)
    (output : PipelineOutput) (stamp : Timestamp) (updated : Snapshot) : Prop where
  base : o.snapshot.baseSha? = some o.base
  address : Address.ofUrl? o.snapshot.url = some o.address
  fresh : head.sha ≠ o.base
  few : changes.files.length ≤ threshold.toNat
  complete : changes.truncated = false
  applied : UpdateTask.applied? o.snapshot head.sha output stamp = some updated

theorem Unhindered.loaded {threshold : UInt64} {o : Origin} {head : HeadCommit}
    {changes : Comparison} {output : PipelineOutput} {stamp : Timestamp} {updated : Snapshot}
    (h : Unhindered threshold o head changes output stamp updated) (other : UInt64) :
    Stage.Follows other .loading (.ok (some o.snapshot) : Except Fault (Option Snapshot))
      (.resolving o) :=
  .resolving h.base h.address

variable {limits : Limits} {threshold : UInt64} {initial : MemoryStore} {name path : String}
  {disk : Disk} {o : Origin} {head : HeadCommit} {changes : Comparison} {output : PipelineOutput}
  {stamp : Timestamp} {updated : Snapshot}

namespace Service

variable {s t : Service} {r : Run}

theorem Served.trans {u : Service} (h : Served s t) (ht : Served t u) : Served s u := by
  induction ht with
  | refl => exact h
  | step _ hs hd ih => exact ih.step hs hd

theorem exists_begun (limits : Limits) (threshold : UInt64) (name : String) :
    ∃ t, Served (new limits threshold) t ∧ t.threshold = threshold ∧
      t.runs = [⟨name, false, .waits .loading, some ⟨name⟩⟩] := by
  have accepted : Served (new limits threshold) _ :=
    Served.refl.step (d := .accept name 0) (.accept (m := ⟨0, .ofEpoch 0 0⟩) rfl) rfl
  have begun := accepted.step (.begin (i := 0) rfl) rfl
  exact ⟨_, begun, rfl, rfl⟩

theorem exists_answered (hr : s.runs = [r]) {st next : Stage} {reply : st.Reply}
    (hstate : r.state = .waits st) (hcancelled : r.cancelled = false)
    (hnext : st.Follows s.threshold reply next) (hstore : st.callsStore = false) :
    ∃ t, Served s t ∧ t.threshold = s.threshold ∧ t.runs = [{ r with state := .waits next }] := by
  have hfirst : s.runs[0]? = some r := by
    rw [hr]
    rfl
  obtain ⟨m, x, ha, hx⟩ := exists_answer hfirst hstate hcancelled hnext
  have answered := Served.refl.step (.answer (MemoryWorld.stage?_of_state hfirst hstate) ha) hstore
  rw [hx, hr] at answered
  exact ⟨_, answered, rfl, rfl⟩

theorem exists_saving (h : Unhindered s.threshold o head changes output stamp updated)
    (hr : s.runs = [r]) (hstate : r.state = .waits (.resolving o)) (hcancelled : r.cancelled = false) :
    ∃ t, Served s t ∧ t.runs = [{ r with state := .waits (.saving o head output updated) }] := by
  have hresolved : Stage.Follows s.threshold (.resolving o) (.ok head : Except Fault HeadCommit)
      (.comparing o head) := .comparing h.fresh
  obtain ⟨t₁, resolved, ht₁, hr₁⟩ := exists_answered hr hstate hcancelled hresolved rfl
  have hcompared : Stage.Follows t₁.threshold (.comparing o head)
      (.ok changes : Except Fault Comparison) (.pulling o head changes) :=
    .pulling (ht₁ ▸ h.few) h.complete
  obtain ⟨t₂, compared, -, hr₂⟩ := exists_answered hr₁ rfl hcancelled hcompared rfl
  obtain ⟨t₃, pulled, -, hr₃⟩ := exists_answered hr₂ rfl hcancelled .processing rfl
  obtain ⟨t₄, processed, -, hr₄⟩ := exists_answered hr₃ rfl hcancelled (.saving h.applied) rfl
  exact ⟨t₄, ((resolved.trans compared).trans pulled).trans processed, hr₄⟩

end Service

theorem MemoryWorld.Reached.served {w : MemoryWorld} (h : Reached limits threshold initial w)
    {t : Service} (hs : w.service.Served t) :
    Reached limits threshold initial { w with service := t } := by
  induction hs with
  | refl => exact h
  | step _ hs hd ih => exact ih.step (.serve hs hd)

theorem DocumentWorld.Reached.served {w : DocumentWorld} (h : Reached limits threshold path disk w)
    {t : Service} (hs : w.service.Served t) (hidle : ∀ i, w.calls i = none) :
    Reached limits threshold path disk { w with service := t } := by
  induction hs with
  | refl => exact h
  | step _ hs hd ih => exact ih.step (.serve hs hd fun i _ _ => hidle i)

theorem MemoryWorld.exists_write (hs : initial.get? name = some o.snapshot)
    (h : Unhindered threshold o head changes output stamp updated) :
    ∃ w, Reached limits threshold initial w ∧ w.store = initial.put updated ∧
      w.writes = [⟨0, name, head.sha, output⟩] := by
  obtain ⟨t₁, hbegun, ht₁, hr₁⟩ := Service.exists_begun limits threshold name
  have begun : Reached limits threshold initial ⟨t₁, initial, []⟩ := Reached.new.served hbegun
  have hfirst : t₁.runs[0]? = some ⟨name, false, .waits .loading, some ⟨name⟩⟩ := by
    rw [hr₁]
    rfl
  obtain ⟨m, x, ha, hx⟩ := Service.exists_answer hfirst rfl rfl (h.loaded t₁.threshold)
  have loaded := begun.step (.load hfirst rfl (hs ▸ ha))
  obtain ⟨t₂, hsaving, hr₂⟩ := x.value.exists_saving (by rw [hx, ht₁]; exact h)
    (by rw [hx, hr₁]; rfl) rfl rfl
  have saving := loaded.served hsaving
  have hsaves : t₂.runs[0]? =
      some ⟨name, false, .waits (.saving o head output updated), some ⟨name⟩⟩ := by
    rw [hr₂]
    rfl
  exact ⟨_, saving.step (.save hsaves rfl fun x hx => by cases hx), rfl, rfl⟩

theorem DocumentWorld.exists_write {bytes : ByteArray} {d : Disk}
    (hread : disk.read path = .ok bytes) (hdocument : Document.ofBytes? bytes = some initial)
    (hs : initial.get? name = some o.snapshot)
    (h : Unhindered threshold o head changes output stamp updated)
    (hwrite : disk.write (temporaryPath path)
      (Document.text (initial.insert updated.name updated)).toUTF8 = .ok d) :
    ∃ w, Reached limits threshold path disk w ∧ w.writes = [⟨0, name, head.sha, output⟩] := by
  have hkept : d.read path = .ok bytes := by
    rw [← hread]
    exact Disk.read_congr
      (Disk.get?_write_of_longer hwrite (FilePath.length_key_names_tmp path))
  obtain ⟨replaced, hreplace⟩ := Disk.exists_write_of_read hkept
    (Document.text (initial.insert updated.name updated)).toUTF8
  obtain ⟨moved, hrename⟩ := Disk.exists_rename (Disk.read_write_self hwrite) hreplace
  have hheld : disk.Holds path initial := .inr ⟨bytes, hread, hdocument⟩
  have hfound : documentOf (.ok bytes) = .ok initial := hheld.documentOf_read hread
  obtain ⟨t₁, hbegun, ht₁, hr₁⟩ := Service.exists_begun limits threshold name
  have begun : Reached limits threshold path disk ⟨t₁, disk, none, fun _ => none, []⟩ :=
    Reached.new.served hbegun fun _ => rfl
  have hfirst : t₁.runs[0]? = some ⟨name, false, .waits .loading, some ⟨name⟩⟩ := by
    rw [hr₁]
    rfl
  obtain ⟨m, x, ha, hx⟩ := Service.exists_answer hfirst rfl rfl (h.loaded t₁.threshold)
  have hget : FileProgram.Step disk ((quiet path).get name).run disk
      (.done (.ok (some o.snapshot))) := by
    have hstep : FileProgram.Step disk
        (.read path fun reply => .done ((documentOf reply).map fun d => d.get? name)) disk _ :=
      .read hread
    rw [hfound] at hstep
    rw [DocumentStore.get_run, ← hs]
    exact hstep
  have loading := begun.step (.load hfirst rfl rfl)
  have loaded := (loading.step (.loadFile (i := 0) rfl hget)).step (.loaded (i := 0) rfl ha)
  obtain ⟨t₂, hsaving, hr₂⟩ := x.value.exists_saving (by rw [hx, ht₁]; exact h)
    (by rw [hx, hr₁]; rfl) rfl rfl
  have saving := loaded.served hsaving fun i => by
    by_cases hi : i = 0 <;> simp [setCall, hi]
  have hsaves : t₂.runs[0]? =
      some ⟨name, false, .waits (.saving o head output updated), some ⟨name⟩⟩ := by
    rw [hr₂]
    rfl
  have hput : FileProgram.Step disk ((quiet path).put updated).run disk
      (making path (initial.insert updated.name updated)) := by
    have hstep : FileProgram.Step disk (.read path fun reply =>
        afterReading reply fun d => making path (d.insert updated.name updated)) disk _ :=
      .read hread
    unfold afterReading at hstep
    rw [hfound] at hstep
    rw [DocumentStore.put_run]
    exact hstep
  have making := (saving.step (.save (i := 0) hsaves rfl rfl rfl)).step
    (.saveFile (i := 0) rfl hput (by rw [DocumentStore.put_run]; rfl))
  have writing : ∃ calls, Reached limits threshold path disk ⟨t₂, disk, some 0, calls, []⟩ ∧
      calls 0 = some (.save (writing path (initial.insert updated.name updated))) := by
    rcases making_cases path (initial.insert updated.name updated) with
      ⟨parent, hparent, hmaking⟩ | hmaking
    · rw [hmaking] at making
      exact ⟨_, making.step (.saveFile (i := 0) rfl
        (.createDirectory
          (Disk.createDirectory_of_read (FilePath.names_parent_isPrefix hparent) hread)) rfl), rfl⟩
    · rw [hmaking] at making
      exact ⟨_, making, rfl⟩
  obtain ⟨calls, writing, hcall⟩ := writing
  have moving := writing.step (.saveFile hcall (.write hwrite) rfl)
  have moved := moving.step (.replace (i := 0) rfl (.rename hrename) rfl hsaves rfl)
  exact ⟨_, moved, rfl⟩

end IndexRefresh
