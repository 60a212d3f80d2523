import IndexRefresh.Proofs.Store.Calls
import IndexRefresh.Proofs.Update.Stages

namespace IndexRefresh

open UpdateTask (applied?)

theorem ne_of_applied? {s u : Snapshot} {headSha : String} {output : PipelineOutput}
    {stamp : Timestamp} (h : applied? s headSha output stamp = some u) : u ≠ s := by
  intro heq
  have hcount := (appliedTo_of_applied? h).updateCount
  rw [heq] at hcount
  omega

namespace DocumentStore

variable {σ : Type} {get : σ → Disk} {set : Disk → σ → σ} {path : String}
  {reader writer later : DocumentStore (StateM σ)} {document : Document} {x y : σ}

theorem At.get_of_read (h : reader.At get set path) {bytes : ByteArray}
    (hread : (get x).read path = .ok bytes) (hdocument : Document.ofBytes? bytes = some document)
    (name : String) : (reader.get name).run x = (.ok (document.get? name), x) := by
  have hheld : (get x).Holds path document := .inr ⟨bytes, hread, hdocument⟩
  have hrun := h.document_run x
  rw [hread, hheld.documentOf_read hread] at hrun
  exact run_bind_of_ok hrun

theorem At.read_after_put (h : writer.At get set path) (hheld : (get x).Holds path document)
    {u : Snapshot} (hput : (writer.put u).run x = (.ok (), y)) :
    (get y).read path = .ok (Document.text (document.insert u.name u)).toUTF8 := by
  rcases h.put_cases hheld u with ⟨z, hran, hreplaced, -⟩ | ⟨-, text, z, hran⟩
  · obtain rfl : z = y := congrArg Prod.snd (hran.symm.trans hput)
    exact Disk.read_of_replaced hreplaced
  · cases hran.symm.trans hput

theorem At.get_after_put (hwriter : writer.At get set path) (hlater : later.At get set path)
    (hheld : (get x).Holds path document) {u : Snapshot}
    (hput : (writer.put u).run x = (.ok (), y)) (name : String) :
    (later.get name).run y = (.ok (if name = u.name then some u else document.get? name), y) := by
  rw [← Table.get?_insert]
  exact hlater.get_of_read (hwriter.read_after_put hheld hput) (Document.ofBytes?_text _) name

theorem At.exists_put (h : writer.At get set path) (hheld : (get x).Holds path document)
    (haccepts : (get x).Accepts path) (u : Snapshot) :
    ∃ y, (writer.put u).run x = (.ok (), y) := by
  rcases h.put_cases hheld u with ⟨y, hran, -⟩ | ⟨hclosed, -⟩
  · exact ⟨y, hran⟩
  · exact absurd haccepts hclosed

theorem accepts_singleton (content : ByteArray) :
    Disk.Accepts (Table.ofList [("/a.json", .file content)]) "/a.json" := by
  refine ⟨⟨[[]], "a.json".toList, by decide, by decide⟩, ?_, ?_, ?_⟩
  · intro n hn
    exact absurd hn (Nat.not_lt_zero n)
  · intro h
    cases h
  · intro h
    cases h

/-- What was made of a snapshot is found where the snapshot was found exactly if this is its name;
else the snapshot that stands under its name is replaced, and the one that was found stays. -/
theorem found_after_update_iff (hreader : reader.At get set path)
    (hwriter : writer.At get set path) (hlater : later.At get set path) {bytes : ByteArray}
    (hread : (get x).read path = .ok bytes) (hdocument : Document.ofBytes? bytes = some document)
    {key : String} {s u : Snapshot} (hfound : (reader.get key).run x = (.ok (some s), x))
    {headSha : String} {output : PipelineOutput} {stamp : Timestamp}
    (happlied : applied? s headSha output stamp = some u) :
    ((get x).Accepts path → ∃ y, (writer.put u).run x = (.ok (), y)) ∧
    ∀ y, (writer.put u).run x = (.ok (), y) →
      (get y).Holds path (document.insert s.name u) ∧
      (∀ name, (later.get name).run y =
        (.ok (if name = s.name then some u else document.get? name), y)) ∧
      ((later.get key).run y = (.ok (some u), y) ∧
        (∀ name, name ≠ key →
          ((later.get name).run y).1 = ((reader.get name).run x).1) ↔ s.name = key) ∧
      (s.name ≠ key → (later.get key).run y = (.ok (some s), y)) := by
  have hheld : (get x).Holds path document := .inr ⟨bytes, hread, hdocument⟩
  have hname := (appliedTo_of_applied? happlied).name
  have hkey : document.get? key = some s := by
    have hget := hreader.get_of_read hread hdocument key
    exact Except.ok.inj (congrArg Prod.fst (hget.symm.trans hfound))
  refine ⟨fun haccepts => hwriter.exists_put hheld haccepts u, fun y hput => ?_⟩
  have hafter := hwriter.get_after_put hlater hheld hput
  rw [hname] at hafter
  have hother : s.name ≠ key → (later.get key).run y = (.ok (some s), y) := by
    intro hne
    rw [hafter, if_neg hne.symm, hkey]
  refine ⟨?_, hafter, ⟨?_, ?_⟩, hother⟩
  · rw [← hname]
    exact .inr ⟨_, hwriter.read_after_put hheld hput, Document.ofBytes?_text _⟩
  · rintro ⟨hupdated, -⟩
    by_cases heq : s.name = key
    · exact heq
    · have hsame := congrArg Prod.fst (hupdated.symm.trans (hother heq))
      exact absurd (Option.some.inj (Except.ok.inj hsame)) (ne_of_applied? happlied)
  · intro heq
    refine ⟨?_, fun name hne => ?_⟩
    · rw [hafter, if_pos heq.symm]
    · rw [hafter, heq, if_neg hne, hreader.get_of_read hread hdocument]

theorem found_after_update_iff_under_alias :
    ∃ (store : DocumentStore (StateM Disk)) (d e : Disk) (s u : Snapshot),
      s.name = "a" ∧ (store.get "alias").run d = (.ok (some s), d) ∧
      applied? s "new" ⟨.zero, []⟩ (.ofEpoch 0 0) = some u ∧ (store.put u).run d = (.ok (), e) ∧
      (store.get "alias").run e = (.ok (some s), e) := by
  let s : Snapshot := .fresh "a" "" "" ""
  let document : Document := Table.ofList [("alias", s)]
  let store : DocumentStore (StateM Disk) :=
    ⟨Disk.files id fun d _ => d, fun _ d => ((), d), "/a.json"⟩
  let d : Disk := Table.ofList [("/a.json", .file document.text.toUTF8)]
  have hstore : store.At id (fun d _ => d) "/a.json" := ⟨rfl, rfl, fun _ _ => rfl, fun _ _ => rfl⟩
  have hread : d.read "/a.json" = .ok document.text.toUTF8 := rfl
  have hfound : (store.get "alias").run d = (.ok (some s), d) :=
    hstore.get_of_read hread document.ofBytes?_text "alias"
  obtain ⟨u, hu⟩ : ∃ u, applied? s "new" ⟨.zero, []⟩ (.ofEpoch 0 0) = some u := ⟨_, rfl⟩
  obtain ⟨hput, hafter⟩ := found_after_update_iff hstore hstore hstore hread document.ofBytes?_text
    hfound hu
  obtain ⟨e, he⟩ := hput (accepts_singleton _)
  obtain ⟨-, -, -, hother⟩ := hafter e he
  exact ⟨store, d, e, s, u, rfl, hfound, hu, he, hother (by decide)⟩

/-- The entry that was found keeps the old commit, and the one of another snapshot is lost. -/
theorem alias_kept_and_other_lost :
    ∃ (store : DocumentStore (StateM Disk)) (d e : Disk) (s other u : Snapshot),
      store.At id (fun d _ => d) "/a.json" ∧
      (store.get "alias").run d = (.ok (some s), d) ∧
      (store.get "a").run d = (.ok (some other), d) ∧
      applied? s "new" ⟨.zero, []⟩ (.ofEpoch 0 0) = some u ∧
      (store.put u).run d = (.ok (), e) ∧
      (store.get "alias").run e = (.ok (some s), e) ∧ u ≠ s ∧
      (store.get "a").run e = (.ok (some u), e) ∧ u ≠ other := by
  let s : Snapshot := { Snapshot.fresh "a" "" "" "" with indexedSha := some "old" }
  let other : Snapshot := { s with indexedSha := some "other" }
  let document : Document := (Table.empty.insert "alias" s).insert "a" other
  let store : DocumentStore (StateM Disk) :=
    ⟨Disk.files id fun d _ => d, fun _ d => ((), d), "/a.json"⟩
  let d : Disk := Table.ofList [("/a.json", .file document.text.toUTF8)]
  have hstore : store.At id (fun d _ => d) "/a.json" := ⟨rfl, rfl, fun _ _ => rfl, fun _ _ => rfl⟩
  have hread : d.read "/a.json" = .ok document.text.toUTF8 := rfl
  have halias : document.get? "alias" = some s :=
    (Table.get?_insert_of_ne _ _ (by decide)).trans (Table.get?_insert_self ..)
  have hother : document.get? "a" = some other := Table.get?_insert_self ..
  have hfound := hstore.get_of_read hread document.ofBytes?_text
  have hheld : d.Holds "/a.json" document := .inr ⟨_, hread, document.ofBytes?_text⟩
  obtain ⟨u, hu⟩ : ∃ u, applied? s "new" ⟨.zero, []⟩ (.ofEpoch 0 0) = some u := ⟨_, rfl⟩
  have hname : u.name = "a" := (appliedTo_of_applied? hu).name
  obtain ⟨e, he⟩ := hstore.exists_put hheld (accepts_singleton _) u
  have hafter := hstore.get_after_put hstore hheld he
  rw [hname] at hafter
  refine ⟨store, d, e, s, other, u, hstore, ?_, ?_, hu, he, ?_, ne_of_applied? hu, ?_, ?_⟩
  · rw [← halias]
    exact hfound "alias"
  · rw [← hother]
    exact hfound "a"
  · rw [hafter, if_neg (by decide), halias]
  · rw [hafter, if_pos rfl]
  · intro heq
    have hsha := (appliedTo_of_applied? hu).indexedSha
    rw [heq] at hsha
    exact absurd (Option.some.inj hsha) (by decide)

end DocumentStore

end IndexRefresh
