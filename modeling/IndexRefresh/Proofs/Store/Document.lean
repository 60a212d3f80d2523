import IndexRefresh.Proofs.Json.Record
import IndexRefresh.Proofs.Text.Bytes
import IndexRefresh.Store.Document

namespace IndexRefresh

instance : LawfulJsonForm IndexStatus where
  ofJson?_toJson s := by cases s <;> rfl
  plain s := Json.plain_ofString s.name
  ne_null _ h := by cases h

namespace Snapshot

open Json

def membersWith (asNull : String → Bool) (s : Snapshot) : List (String × Json) :=
  [("name", toJson s.name), ("url", toJson s.url), ("branch", toJson s.branch),
   ("local_path", toJson s.localPath)] ++
    optionalMember (asNull "last_indexed_commit_sha") "last_indexed_commit_sha" s.indexedSha ++
    [("file_count", toJson s.fileCount), ("chunk_count", toJson s.chunkCount),
     ("status", toJson s.status)] ++
    optionalMember (asNull "last_indexed_at") "last_indexed_at" s.indexedAt ++
    [("incremental_update_count", toJson s.updateCount)] ++
    optionalMember (asNull "last_incremental_update_at") "last_incremental_update_at" s.updatedAt

theorem toJson_eq (s : Snapshot) : toJson s = record (s.membersWith fun _ => true) := by
  simp only [membersWith, optionalMember_true]
  rfl

theorem ofJson?_membersWith (asNull : String → Bool) (s : Snapshot) :
    ofJson? (record (s.membersWith asNull)) = some s := by
  refine fields?_record_bind ?_ (by decide) (by simp [membersWith, required, orDefault])
  simp only [membersWith, List.map_append]
  exact (List.Sublist.refl _).append (sublist_optionalMember _ _ _)
    |>.append (List.Sublist.refl _)
    |>.append (sublist_optionalMember _ _ _)
    |>.append (List.Sublist.refl _)
    |>.append (sublist_optionalMember _ _ _)

theorem plain_membersWith (asNull : String → Bool) (s : Snapshot) :
    ∀ m ∈ s.membersWith asNull, m.2.Plain := by
  simp only [membersWith, List.forall_mem_append]
  refine ⟨⟨⟨⟨⟨?_, plain_optionalMember _ _ _⟩, ?_⟩, plain_optionalMember _ _ _⟩, ?_⟩,
    plain_optionalMember _ _ _⟩ <;> simp

end Snapshot

instance : LawfulJsonForm Snapshot where
  ofJson?_toJson s := by
    rw [s.toJson_eq]
    exact s.ofJson?_membersWith _
  plain s := by
    rw [s.toJson_eq]
    exact Json.plain_record (s.plain_membersWith _)
  ne_null _ h := by cases h

namespace Document

theorem ofMembers?_map (es : List (String × Snapshot)) :
    ofMembers? (es.map fun e => (some e.1, JsonForm.toJson e.2)) = some es := by
  induction es with
  | nil => rfl
  | cons e es ih =>
      rw [List.map_cons, ofMembers?, ofJson?_toJson, ih]
      rfl

theorem ofJson?_toJson (d : Document) : ofJson? d.toJson = some d := by
  have hmembers : (d.entries.map fun e => (e.1, JsonForm.toJson e.2)).map
      (fun m => (some m.1, m.2)) = d.entries.map fun e => (some e.1, JsonForm.toJson e.2) := by
    rw [List.map_map]
    rfl
  unfold toJson Json.record
  rw [hmembers]
  change (ofMembers? _).map Table.ofList = some d
  rw [ofMembers?_map, Option.map_some]
  exact congrArg some (Table.ofList_entries d)

theorem plain_toJson (d : Document) : d.toJson.Plain := by
  refine Json.plain_record fun m hm => ?_
  obtain ⟨e, -, rfl⟩ := List.mem_map.1 hm
  exact LawfulJsonForm.plain e.2

theorem text_eq_cons (d : Document) : ∃ cs, d.text = String.ofList ('\x7b' :: cs) := by
  have htokens : ∃ ts, d.toJson.tokens = .openBrace :: ts := by
    unfold toJson Json.record
    cases d.entries with
    | nil => exact ⟨[.closeBrace], rfl⟩
    | cons e es => exact ⟨_, by rw [List.map_cons, List.map_cons, Json.tokens]⟩
  obtain ⟨ts, htokens⟩ := htokens
  obtain ⟨rest, hrest⟩ := Json.spaced_cons 0 .openBrace ts
  refine ⟨rest, ?_⟩
  unfold text Json.pretty
  rw [htokens, hrest]
  rfl

theorem ofBytes?_text (d : Document) : ofBytes? d.text.toUTF8 = some d := by
  obtain ⟨cs, hcs⟩ := d.text_eq_cons
  have hblank : (d.text.toUTF8.toList.all fun b => Text.isAsciiBlank (Char.ofNat b.toNat)) =
      false := by
    rw [hcs, Text.toList_toUTF8, List.flatMap_cons]
    rfl
  have hread : Json.ofBytes? d.text.toUTF8 = some d.toJson := Json.ofBytes?_pretty d.plain_toJson
  unfold ofBytes?
  rw [hblank, hread]
  exact ofJson?_toJson d

end Document

end IndexRefresh
