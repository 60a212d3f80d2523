import IndexRefresh.Guard
import IndexRefresh.Ledger.Job
import IndexRefresh.Proofs.Json.Record
import IndexRefresh.Proofs.Store.Document
import IndexRefresh.Service.Answer
import IndexRefresh.Service.Refusal
import IndexRefresh.Settings.Basic

namespace IndexRefresh

open Json

instance : LawfulJsonForm ChangeKind where
  ofJson?_toJson k := by cases k <;> rfl
  plain k := plain_ofString k.name
  ne_null _ h := by cases h

instance : LawfulJsonForm Outcome where
  ofJson?_toJson o := by cases o <;> rfl
  plain o := plain_ofString o.name
  ne_null _ h := by cases h

instance : LawfulJsonForm JobStatus where
  ofJson?_toJson s := by cases s <;> rfl
  plain s := plain_ofString s.name
  ne_null _ h := by cases h

instance : LawfulJsonForm RefusalCode where
  ofJson?_toJson c := by cases c <;> rfl
  plain c := plain_ofString c.name
  ne_null _ h := by cases h

instance : LawfulJsonForm DenialReason where
  ofJson?_toJson r := by cases r <;> rfl
  plain r := plain_ofString r.name
  ne_null _ h := by cases h

namespace ChangedFile

def membersWith (asNull : String → Bool) (f : ChangedFile) : List (String × Json) :=
  [("path", toJson f.path), ("kind", toJson f.kind)] ++
    optionalMember (asNull "previous_path") "previous_path" f.previousPath

theorem toJson_eq (f : ChangedFile) : toJson f = record (f.membersWith fun _ => false) := by
  simp only [membersWith, optionalMember_false]
  rfl

theorem ofJson?_membersWith (asNull : String → Bool) (f : ChangedFile) :
    ofJson? (record (f.membersWith asNull)) = some f := by
  refine fields?_record_bind ?_ (by decide) (by simp [membersWith, required])
  simp only [membersWith, List.map_append]
  exact (List.Sublist.refl _).append (sublist_optionalMember _ _ _)

theorem plain_membersWith (asNull : String → Bool) (f : ChangedFile) :
    ∀ m ∈ f.membersWith asNull, m.2.Plain := by
  simp only [membersWith, List.forall_mem_append]
  refine ⟨?_, plain_optionalMember _ _ _⟩
  simp

end ChangedFile

instance : LawfulJsonForm ChangedFile where
  ofJson?_toJson f := by
    rw [f.toJson_eq]
    exact f.ofJson?_membersWith _
  plain f := by
    rw [f.toJson_eq]
    exact plain_record (f.plain_membersWith _)
  ne_null _ h := by cases h

instance : LawfulJsonForm HeadCommit where
  ofJson?_toJson c :=
    fields?_record_bind (List.Sublist.refl _) (by decide) (by simp [required])
  plain c := plain_record (by simp)
  ne_null _ h := by cases h

instance : LawfulJsonForm Comparison where
  ofJson?_toJson c :=
    fields?_record_bind (List.Sublist.refl _) (by decide) (by simp [required, orDefault])
  plain c := plain_record (by simp)
  ne_null _ h := by cases h

instance : LawfulJsonForm Stats where
  ofJson?_toJson s :=
    fields?_record_bind (List.Sublist.refl _) (by decide) (by simp [orDefault])
  plain s := plain_record (by simp)
  ne_null _ h := by cases h

instance : LawfulJsonForm FileError where
  ofJson?_toJson e :=
    fields?_record_bind (List.Sublist.refl _) (by decide) (by simp [required])
  plain e := plain_record (by simp)
  ne_null _ h := by cases h

instance : LawfulJsonForm PipelineOutput where
  ofJson?_toJson o :=
    fields?_record_bind (List.Sublist.refl _) (by decide) (by simp [orDefault])
  plain o := plain_record (by simp)
  ne_null _ h := by cases h

instance : LawfulJsonForm PipelineOptions where
  ofJson?_toJson o :=
    fields?_record_bind (List.Sublist.refl _) (by decide)
      (by simp [required, PipelineOptions.members])
  plain o := plain_record (by simp [PipelineOptions.members])
  ne_null _ h := by cases h

instance : LawfulJsonForm Report where
  ofJson?_toJson r :=
    fields?_record_bind (List.Sublist.refl _) (by decide) (by simp [required, orDefault])
  plain r := plain_record (by simp)
  ne_null _ h := by cases h

instance : LawfulJsonForm UpdateAnswer where
  ofJson?_toJson a :=
    fields?_record_bind (List.Sublist.refl _) (by decide) (by simp [required])
  plain a := plain_record (by simp)
  ne_null _ h := by cases h

instance : LawfulJsonForm JobAnswer where
  ofJson?_toJson a :=
    fields?_record_bind (List.Sublist.refl _) (by decide) (by simp [required])
  plain a := plain_record (by simp)
  ne_null _ h := by cases h

namespace JobView

def membersWith (asNull : String → Bool) (j : JobView) : List (String × Json) :=
  [("job_id", toJson j.jobId), ("repository", toJson j.repository), ("status", toJson j.status),
   ("created_at", toJson j.createdAt)] ++
    optionalMember (asNull "started_at") "started_at" j.startedAt ++
    optionalMember (asNull "finished_at") "finished_at" j.finishedAt ++
    optionalMember (asNull "result") "result" j.result ++
    optionalMember (asNull "error") "error" j.error

theorem toJson_eq (j : JobView) : toJson j = record (j.membersWith fun _ => false) := by
  simp only [membersWith, optionalMember_false]
  rfl

theorem ofJson?_membersWith (asNull : String → Bool) (j : JobView) :
    ofJson? (record (j.membersWith asNull)) = some j := by
  refine fields?_record_bind ?_ (by decide) (by simp [membersWith, required])
  simp only [membersWith, List.map_append]
  exact (List.Sublist.refl _).append (sublist_optionalMember _ _ _)
    |>.append (sublist_optionalMember _ _ _)
    |>.append (sublist_optionalMember _ _ _)
    |>.append (sublist_optionalMember _ _ _)

theorem plain_membersWith (asNull : String → Bool) (j : JobView) :
    ∀ m ∈ j.membersWith asNull, m.2.Plain := by
  simp only [membersWith, List.forall_mem_append]
  refine ⟨⟨⟨⟨?_, plain_optionalMember _ _ _⟩, plain_optionalMember _ _ _⟩,
    plain_optionalMember _ _ _⟩, plain_optionalMember _ _ _⟩
  simp

end JobView

instance : LawfulJsonForm JobView where
  ofJson?_toJson j := by
    rw [j.toJson_eq]
    exact j.ofJson?_membersWith _
  plain j := by
    rw [j.toJson_eq]
    exact plain_record (j.plain_membersWith _)
  ne_null _ h := by cases h

namespace Refusal

def membersWith (asNull : String → Bool) (r : Refusal) : List (String × Json) :=
  [("error", toJson r.code), ("message", toJson r.message), ("hint", toJson r.hint),
   ("retryable", toJson r.retryable), ("requires_full_reindex", toJson r.requiresFullReindex)] ++
    optionalMember (asNull "retry_after_seconds") "retry_after_seconds" r.retryAfterSeconds

theorem toJson_eq (r : Refusal) : toJson r = record (r.membersWith fun _ => false) := by
  simp only [membersWith, optionalMember_false]
  rfl

theorem ofJson?_membersWith (asNull : String → Bool) (r : Refusal) :
    ofJson? (record (r.membersWith asNull)) = some r := by
  refine fields?_record_bind ?_ (by decide) (by simp [membersWith, required, orDefault])
  simp only [membersWith, List.map_append]
  exact (List.Sublist.refl _).append (sublist_optionalMember _ _ _)

theorem plain_membersWith (asNull : String → Bool) (r : Refusal) :
    ∀ m ∈ r.membersWith asNull, m.2.Plain := by
  simp only [membersWith, List.forall_mem_append]
  refine ⟨?_, plain_optionalMember _ _ _⟩
  simp

end Refusal

instance : LawfulJsonForm Refusal where
  ofJson?_toJson r := by
    rw [r.toJson_eq]
    exact r.ofJson?_membersWith _
  plain r := by
    rw [r.toJson_eq]
    exact plain_record (r.plain_membersWith _)
  ne_null _ h := by cases h

instance : LawfulJsonForm UpdateSettings where
  ofJson?_toJson s :=
    fields?_record_bind (List.Sublist.refl _) (by decide) (by simp [orDefault])
  plain s := plain_record (by simp)
  ne_null _ h := by cases h

namespace PipelineSettings

def membersWith (asNull : String → Bool) (s : PipelineSettings) : List (String × Json) :=
  optionalMember (asNull "program") "program" s.program ++ [("args", toJson s.args)]

theorem toJson_eq (s : PipelineSettings) : toJson s = record (s.membersWith fun _ => true) := by
  simp only [membersWith, optionalMember_true]
  rfl

theorem ofJson?_membersWith (asNull : String → Bool) (s : PipelineSettings) :
    ofJson? (record (s.membersWith asNull)) = some s := by
  refine fields?_record_bind ?_ (by decide) (by simp [membersWith, orDefault])
  simp only [membersWith, List.map_append]
  exact (sublist_optionalMember _ _ _).append (List.Sublist.refl _)

theorem plain_membersWith (asNull : String → Bool) (s : PipelineSettings) :
    ∀ m ∈ s.membersWith asNull, m.2.Plain := by
  simp only [membersWith, List.forall_mem_append]
  refine ⟨plain_optionalMember _ _ _, ?_⟩
  simp

end PipelineSettings

instance : LawfulJsonForm PipelineSettings where
  ofJson?_toJson s := by
    rw [s.toJson_eq]
    exact s.ofJson?_membersWith _
  plain s := by
    rw [s.toJson_eq]
    exact plain_record (s.plain_membersWith _)
  ne_null _ h := by cases h

namespace GitHubSettings

def withoutToken (s : GitHubSettings) : GitHubSettings :=
  { s with token := none }

def membersWith (asNull : String → Bool) (s : GitHubSettings) : List (String × Json) :=
  [("api_url", toJson s.apiUrl)] ++ optionalMember (asNull "token") "token" s.token ++
    [("timeout_secs", toJson s.timeoutSecs), ("max_retries", toJson s.maxRetries)]

theorem ofJson?_membersWith (asNull : String → Bool) (s : GitHubSettings) :
    ofJson? (record (s.membersWith asNull)) = some s := by
  refine fields?_record_bind ?_ (by decide) (by simp [membersWith, orDefault])
  simp only [membersWith, List.map_append]
  exact (List.Sublist.refl _).append (sublist_optionalMember _ _ _)
    |>.append (List.Sublist.refl _)

theorem plain_membersWith (asNull : String → Bool) (s : GitHubSettings) :
    ∀ m ∈ s.membersWith asNull, m.2.Plain := by
  simp only [membersWith, List.forall_mem_append]
  refine ⟨⟨?_, plain_optionalMember _ _ _⟩, ?_⟩ <;> simp

theorem ofJson?_toJson (s : GitHubSettings) : ofJson? (toJson s) = some s.withoutToken :=
  s.withoutToken.ofJson?_membersWith fun _ => false

theorem plain_toJson (s : GitHubSettings) : (toJson s).Plain :=
  plain_record (s.withoutToken.plain_membersWith fun _ => false)

end GitHubSettings

namespace Settings

def withoutToken (s : Settings) : Settings :=
  { s with github := s.github.withoutToken }

theorem ofJson?_toJson (metadataPath : String) (s : Settings) :
    ofJson? metadataPath s.toJson = some s.withoutToken := by
  unfold ofJson? toJson
  rw [fields?_record]
  · simp [orDefault, GitHubSettings.ofJson?_toJson, withoutToken]
  · exact List.Sublist.refl _
  · decide

theorem plain_toJson (s : Settings) : s.toJson.Plain :=
  plain_record (by simp [GitHubSettings.plain_toJson])

end Settings

namespace Json

variable {α : Type}

def ReadBack (read : Json → Option α) (j : Json) (v : α) : Prop :=
  ∀ text ∈ [j.compact, j.pretty],
    (ofText? text).bind read = some v ∧ (ofBytes? text.toUTF8).bind read = some v

def RoundTrips (α : Type) [JsonForm α] : Prop :=
  ∀ v : α, ReadBack ofJson? (toJson v) v

theorem readBack_of_plain {read : Json → Option α} {j : Json} {v : α} (hplain : j.Plain)
    (hread : read j = some v) : ReadBack read j v := by
  intro text htext
  have htext : ofText? text = some j := by
    rcases List.mem_cons.1 htext with rfl | htext
    · exact ofText?_compact hplain
    · rw [List.mem_singleton.1 htext]
      exact ofText?_pretty hplain
  rw [ofBytes?_toUTF8, htext]
  exact ⟨hread, hread⟩

theorem roundTrips_of_lawful [JsonForm α] [LawfulJsonForm α] : RoundTrips α :=
  fun v => readBack_of_plain (LawfulJsonForm.plain v) (ofJson?_toJson v)

end Json

theorem json_forms_read_back :
    (RoundTrips ChangeKind ∧ RoundTrips IndexStatus ∧ RoundTrips Outcome ∧ RoundTrips JobStatus ∧
      RoundTrips RefusalCode ∧ RoundTrips DenialReason) ∧
    (RoundTrips ChangedFile ∧ RoundTrips HeadCommit ∧ RoundTrips Comparison ∧
      RoundTrips Snapshot ∧ RoundTrips Stats ∧ RoundTrips FileError ∧ RoundTrips Report) ∧
    (RoundTrips UpdateAnswer ∧ RoundTrips JobAnswer ∧ RoundTrips JobView ∧ RoundTrips Refusal) ∧
    (RoundTrips PipelineOutput ∧ RoundTrips PipelineOptions ∧ RoundTrips PipelineSettings ∧
      RoundTrips UpdateSettings) ∧
    (∀ s : GitHubSettings, ReadBack ofJson? (toJson s) { s with token := none }) ∧
    (∀ (metadataPath : String) (s : Settings), ReadBack (Settings.ofJson? metadataPath) s.toJson
      { s with github := { s.github with token := none } }) ∧
    ∀ asNull : String → Bool,
      (∀ f : ChangedFile, ReadBack ofJson? (record (f.membersWith asNull)) f) ∧
      (∀ s : Snapshot, ReadBack ofJson? (record (s.membersWith asNull)) s) ∧
      (∀ j : JobView, ReadBack ofJson? (record (j.membersWith asNull)) j) ∧
      (∀ r : Refusal, ReadBack ofJson? (record (r.membersWith asNull)) r) ∧
      (∀ s : PipelineSettings, ReadBack ofJson? (record (s.membersWith asNull)) s) ∧
      ∀ s : GitHubSettings, ReadBack ofJson? (record (s.membersWith asNull)) s := by
  refine ⟨⟨?_, ?_, ?_, ?_, ?_, ?_⟩, ⟨?_, ?_, ?_, ?_, ?_, ?_, ?_⟩, ⟨?_, ?_, ?_, ?_⟩,
    ⟨?_, ?_, ?_, ?_⟩, ?github, ?settings, fun asNull => ⟨?file, ?snapshot, ?job, ?refusal,
      ?pipeline, ?access⟩⟩
  case github => exact fun s => readBack_of_plain s.plain_toJson s.ofJson?_toJson
  case settings =>
    exact fun metadataPath s => readBack_of_plain s.plain_toJson (s.ofJson?_toJson metadataPath)
  case file =>
    exact fun f => readBack_of_plain (plain_record (f.plain_membersWith asNull))
      (f.ofJson?_membersWith asNull)
  case snapshot =>
    exact fun s => readBack_of_plain (plain_record (s.plain_membersWith asNull))
      (s.ofJson?_membersWith asNull)
  case job =>
    exact fun j => readBack_of_plain (plain_record (j.plain_membersWith asNull))
      (j.ofJson?_membersWith asNull)
  case refusal =>
    exact fun r => readBack_of_plain (plain_record (r.plain_membersWith asNull))
      (r.ofJson?_membersWith asNull)
  case pipeline =>
    exact fun s => readBack_of_plain (plain_record (s.plain_membersWith asNull))
      (s.ofJson?_membersWith asNull)
  case access =>
    exact fun s => readBack_of_plain (plain_record (s.plain_membersWith asNull))
      (s.ofJson?_membersWith asNull)
  all_goals exact roundTrips_of_lawful

end IndexRefresh
