import IndexRefresh.GitHub.Source
import IndexRefresh.Proofs.Json.Blanks
import IndexRefresh.Proofs.Json.RoundTrip
import IndexRefresh.Proofs.Json.Shape

namespace IndexRefresh

namespace Json

/-- Blanks are put between two tokens of a text, or the document that it writes is edited. -/
inductive Rewrites (s : Shape) : String → String → Prop where
  | blanks {before gap after : String} (hbetween : Between before after)
      (hgap : ∀ c ∈ gap.toList, Scan.isSpace c = true) :
      Rewrites s (before ++ after) (before ++ gap ++ after)
  | edits {text other : String} {v w : Json} (hv : ofText? text = some v)
      (hw : ofText? other = some w) (h : Relation.EqvGen (Edit s) v w) : Rewrites s text other

variable {α : Type} {s : Shape} {read : Json → Option α}

/-- What is read from a text depends on its known fields alone, and none of them may be given
twice. -/
structure KnownFieldsOnly (s : Shape) (read : Json → Option α) : Prop where
  same {text other : String} (h : Relation.EqvGen (Rewrites s) text other) :
    (ofText? text).bind read = (ofText? other).bind read
  twice {text : String} {v : Json} (hv : ofText? text = some v) (h : Doubled s v) :
    (ofText? text).bind read = none

theorem Heeds.same_of_eqvGen (h : Heeds s read) {v w : Json}
    (hedits : Relation.EqvGen (Edit s) v w) : read v = read w :=
  (eq_equivalence.comap read).eqvGen_iff.1 (hedits.mono fun _ _ => h.same)

theorem Heeds.same_of_rewrites (h : Heeds s read) {text other : String}
    (hrewrites : Rewrites s text other) :
    (ofText? text).bind read = (ofText? other).bind read := by
  cases hrewrites with
  | blanks hbetween hgap => rw [ofText?_blanks hbetween hgap]
  | edits hv hw hedits =>
      rw [hv, hw]
      exact h.same_of_eqvGen hedits

theorem Heeds.knownFieldsOnly (h : Heeds s read) : KnownFieldsOnly s read where
  same hrewrites :=
    (eq_equivalence.comap fun text => (ofText? text).bind read).eqvGen_iff.1
      (hrewrites.mono fun _ _ => h.same_of_rewrites)
  twice hv htwice := by
    rw [hv]
    exact h.twice htwice

end Json

open Json

/-! ## The records, and what each field is when it is missing -/

namespace ChangedFile

def shape : Shape :=
  .record [⟨"path", .plain, none⟩, ⟨"kind", .plain, none⟩, ⟨"previous_path", .plain, some .null⟩]

theorem heeds : Heeds shape (ofJson? : Json → Option ChangedFile) :=
  heeds_record
    (reads_required _ heeds_plain fun _ =>
      reads_required _ heeds_plain fun _ =>
      reads_optional _ heeds_plain fun _ => .done _)
    (by decide)

theorem edits_listed (note other : Json) : Relation.EqvGen (Edit shape)
    (record [("note", note), ("kind", .ofString "added"), ("note", other), ("path", .ofString "a")])
    (.arr [.ofString "a", .ofString "added"]) := by
  let path : Option String × Json := (some "path", .ofString "a")
  let kind : Option String × Json := (some "kind", .ofString "added")
  have hlisted : Edit shape (.obj [path, kind]) (.arr [.ofString "a", .ofString "added"]) :=
    @Edit.listed _ [.ofString "a", .ofString "added"] (by decide)
  have hother : Edit shape (.obj [path, kind]) (.obj [(some "note", other), path, kind]) :=
    .unknown other (by decide)
  have hnote : Edit shape (.obj [(some "note", other), path, kind])
      (.obj [(some "note", note), (some "note", other), path, kind]) :=
    .unknown note (by decide)
  have horder : Edit shape (.obj [(some "note", note), (some "note", other), path, kind])
      (.obj [(some "note", note), kind, (some "note", other), path]) :=
    .permuted (.cons _ (@List.perm_append_comm _ [(some "note", other), path] [kind]))
  exact .trans _ _ _ (.symm _ _ (.rel _ _ horder)) (.trans _ _ _ (.symm _ _ (.rel _ _ hnote))
    (.trans _ _ _ (.symm _ _ (.rel _ _ hother)) (.rel _ _ hlisted)))

end ChangedFile

namespace HeadCommit

def shape : Shape :=
  .record [⟨"sha", .plain, none⟩, ⟨"message", .plain, none⟩]

theorem heeds : Heeds shape (ofJson? : Json → Option HeadCommit) :=
  heeds_record
    (reads_required _ heeds_plain fun _ =>
      reads_required _ heeds_plain fun _ => .done _)
    (by decide)

end HeadCommit

namespace Comparison

def shape : Shape :=
  .record
    [⟨"base_sha", .plain, none⟩, ⟨"head_sha", .plain, none⟩, ⟨"total_commits", .plain, none⟩,
     ⟨"files", .list ChangedFile.shape, none⟩, ⟨"truncated", .plain, some (toJson false)⟩]

theorem heeds : Heeds shape (ofJson? : Json → Option Comparison) :=
  heeds_record
    (reads_required _ heeds_plain fun _ =>
      reads_required _ heeds_plain fun _ =>
      reads_required _ heeds_plain fun _ =>
      reads_required _ (heeds_list ChangedFile.heeds fun _ => rfl) fun _ =>
      reads_orDefault _ heeds_plain (ofJson?_toJson _) fun _ => .done _)
    (by decide)

end Comparison

namespace Snapshot

def shape : Shape :=
  .record
    [⟨"name", .plain, none⟩, ⟨"url", .plain, none⟩, ⟨"branch", .plain, none⟩,
     ⟨"local_path", .plain, none⟩, ⟨"last_indexed_commit_sha", .plain, some .null⟩,
     ⟨"file_count", .plain, some (toJson (0 : UInt64))⟩,
     ⟨"chunk_count", .plain, some (toJson (0 : UInt64))⟩,
     ⟨"status", .plain, some (toJson IndexStatus.pending)⟩,
     ⟨"last_indexed_at", .plain, some .null⟩,
     ⟨"incremental_update_count", .plain, some (toJson (0 : UInt64))⟩,
     ⟨"last_incremental_update_at", .plain, some .null⟩]

theorem heeds : Heeds shape (ofJson? : Json → Option Snapshot) :=
  heeds_record
    (reads_required _ heeds_plain fun _ =>
      reads_required _ heeds_plain fun _ =>
      reads_required _ heeds_plain fun _ =>
      reads_required _ heeds_plain fun _ =>
      reads_optional _ heeds_plain fun _ =>
      reads_orDefault _ heeds_plain (ofJson?_toJson _) fun _ =>
      reads_orDefault _ heeds_plain (ofJson?_toJson _) fun _ =>
      reads_orDefault _ heeds_plain (ofJson?_toJson _) fun _ =>
      reads_optional _ heeds_plain fun _ =>
      reads_orDefault _ heeds_plain (ofJson?_toJson _) fun _ =>
      reads_optional _ heeds_plain fun _ => .done _)
    (by decide)

end Snapshot

namespace Stats

def shape : Shape :=
  .record
    [⟨"files_added", .plain, some (toJson (0 : UInt64))⟩,
     ⟨"files_modified", .plain, some (toJson (0 : UInt64))⟩,
     ⟨"files_deleted", .plain, some (toJson (0 : UInt64))⟩,
     ⟨"chunks_upserted", .plain, some (toJson (0 : UInt64))⟩,
     ⟨"chunks_deleted", .plain, some (toJson (0 : UInt64))⟩,
     ⟨"duration_ms", .plain, some (toJson (0 : UInt64))⟩]

theorem heeds : Heeds shape (ofJson? : Json → Option Stats) :=
  heeds_record
    (reads_orDefault _ heeds_plain (ofJson?_toJson _) fun _ =>
      reads_orDefault _ heeds_plain (ofJson?_toJson _) fun _ =>
      reads_orDefault _ heeds_plain (ofJson?_toJson _) fun _ =>
      reads_orDefault _ heeds_plain (ofJson?_toJson _) fun _ =>
      reads_orDefault _ heeds_plain (ofJson?_toJson _) fun _ =>
      reads_orDefault _ heeds_plain (ofJson?_toJson _) fun _ => .done _)
    (by decide)

end Stats

namespace FileError

def shape : Shape :=
  .record [⟨"path", .plain, none⟩, ⟨"error", .plain, none⟩]

theorem heeds : Heeds shape (ofJson? : Json → Option FileError) :=
  heeds_record
    (reads_required _ heeds_plain fun _ =>
      reads_required _ heeds_plain fun _ => .done _)
    (by decide)

end FileError

namespace Report

def shape : Shape :=
  .record
    [⟨"repository", .plain, none⟩, ⟨"status", .plain, none⟩, ⟨"commit_sha", .plain, none⟩,
     ⟨"commit_message", .plain, none⟩, ⟨"stats", Stats.shape, none⟩,
     ⟨"errors", .list FileError.shape, some (toJson ([] : List FileError))⟩,
     ⟨"duration_ms", .plain, none⟩]

theorem heeds : Heeds shape (ofJson? : Json → Option Report) :=
  heeds_record
    (reads_required _ heeds_plain fun _ =>
      reads_required _ heeds_plain fun _ =>
      reads_required _ heeds_plain fun _ =>
      reads_required _ heeds_plain fun _ =>
      reads_required _ Stats.heeds fun _ =>
      reads_orDefault _ (heeds_list FileError.heeds fun _ => rfl) (ofJson?_toJson _) fun _ =>
      reads_required _ heeds_plain fun _ => .done _)
    (by decide)

end Report

namespace UpdateAnswer

def shape : Shape :=
  .record
    [⟨"status", .plain, none⟩, ⟨"repository", .plain, none⟩, ⟨"commit_sha", .plain, none⟩,
     ⟨"commit_message", .plain, none⟩, ⟨"stats", Stats.shape, none⟩,
     ⟨"errors", .list FileError.shape, none⟩, ⟨"duration_ms", .plain, none⟩]

theorem heeds : Heeds shape (ofJson? : Json → Option UpdateAnswer) :=
  heeds_record
    (reads_required _ heeds_plain fun _ =>
      reads_required _ heeds_plain fun _ =>
      reads_required _ heeds_plain fun _ =>
      reads_required _ heeds_plain fun _ =>
      reads_required _ Stats.heeds fun _ =>
      reads_required _ (heeds_list FileError.heeds fun _ => rfl) fun _ =>
      reads_required _ heeds_plain fun _ => .done _)
    (by decide)

end UpdateAnswer

namespace JobAnswer

def shape : Shape :=
  .record [⟨"job_id", .plain, none⟩, ⟨"repository", .plain, none⟩, ⟨"message", .plain, none⟩]

theorem heeds : Heeds shape (ofJson? : Json → Option JobAnswer) :=
  heeds_record
    (reads_required _ heeds_plain fun _ =>
      reads_required _ heeds_plain fun _ =>
      reads_required _ heeds_plain fun _ => .done _)
    (by decide)

end JobAnswer

namespace JobView

def shape : Shape :=
  .record
    [⟨"job_id", .plain, none⟩, ⟨"repository", .plain, none⟩, ⟨"status", .plain, none⟩,
     ⟨"created_at", .plain, none⟩, ⟨"started_at", .plain, some .null⟩,
     ⟨"finished_at", .plain, some .null⟩, ⟨"result", Report.shape, some .null⟩,
     ⟨"error", .plain, some .null⟩]

theorem heeds : Heeds shape (ofJson? : Json → Option JobView) :=
  heeds_record
    (reads_required _ heeds_plain fun _ =>
      reads_required _ heeds_plain fun _ =>
      reads_required _ heeds_plain fun _ =>
      reads_required _ heeds_plain fun _ =>
      reads_optional _ heeds_plain fun _ =>
      reads_optional _ heeds_plain fun _ =>
      reads_optional _ Report.heeds fun _ =>
      reads_optional _ heeds_plain fun _ => .done _)
    (by decide)

end JobView

namespace Refusal

def shape : Shape :=
  .record
    [⟨"error", .plain, none⟩, ⟨"message", .plain, none⟩, ⟨"hint", .plain, none⟩,
     ⟨"retryable", .plain, none⟩, ⟨"requires_full_reindex", .plain, some (toJson false)⟩,
     ⟨"retry_after_seconds", .plain, some .null⟩]

theorem heeds : Heeds shape (ofJson? : Json → Option Refusal) :=
  heeds_record
    (reads_required _ heeds_plain fun _ =>
      reads_required _ heeds_plain fun _ =>
      reads_required _ heeds_plain fun _ =>
      reads_required _ heeds_plain fun _ =>
      reads_orDefault _ heeds_plain (ofJson?_toJson _) fun _ =>
      reads_optional _ heeds_plain fun _ => .done _)
    (by decide)

end Refusal

namespace PipelineOutput

def shape : Shape :=
  .record
    [⟨"stats", Stats.shape, some (toJson Stats.zero)⟩,
     ⟨"errors", .list FileError.shape, some (toJson ([] : List FileError))⟩]

theorem heeds : Heeds shape (ofJson? : Json → Option PipelineOutput) :=
  heeds_record
    (reads_orDefault _ Stats.heeds (ofJson?_toJson _) fun _ =>
      reads_orDefault _ (heeds_list FileError.heeds fun _ => rfl) (ofJson?_toJson _) fun _ =>
      .done _)
    (by decide)

end PipelineOutput

namespace PipelineOptions

def shape : Shape :=
  .record
    [⟨"repository", .plain, none⟩, ⟨"local_path", .plain, none⟩, ⟨"base_sha", .plain, none⟩,
     ⟨"head_sha", .plain, none⟩]

theorem heeds : Heeds shape (ofJson? : Json → Option PipelineOptions) :=
  heeds_record
    (reads_required _ heeds_plain fun _ =>
      reads_required _ heeds_plain fun _ =>
      reads_required _ heeds_plain fun _ =>
      reads_required _ heeds_plain fun _ => .done _)
    (by decide)

end PipelineOptions

namespace UpdateSettings

def shape : Shape :=
  .record
    [⟨"change_threshold", .plain, some (toJson standard.changeThreshold)⟩,
     ⟨"cooldown_secs", .plain, some (toJson standard.cooldownSecs)⟩,
     ⟨"timeout_secs", .plain, some (toJson standard.timeoutSecs)⟩,
     ⟨"job_max_age_secs", .plain, some (toJson standard.jobMaxAgeSecs)⟩,
     ⟨"eviction_interval_secs", .plain, some (toJson standard.evictionIntervalSecs)⟩]

theorem heeds : Heeds shape (ofJson? : Json → Option UpdateSettings) :=
  heeds_record
    (reads_orDefault _ heeds_plain (ofJson?_toJson _) fun _ =>
      reads_orDefault _ heeds_plain (ofJson?_toJson _) fun _ =>
      reads_orDefault _ heeds_plain (ofJson?_toJson _) fun _ =>
      reads_orDefault _ heeds_plain (ofJson?_toJson _) fun _ =>
      reads_orDefault _ heeds_plain (ofJson?_toJson _) fun _ => .done _)
    (by decide)

end UpdateSettings

namespace GitHubSettings

def shape : Shape :=
  .record
    [⟨"api_url", .plain, some (toJson standard.apiUrl)⟩, ⟨"token", .plain, some .null⟩,
     ⟨"timeout_secs", .plain, some (toJson standard.timeoutSecs)⟩,
     ⟨"max_retries", .plain, some (toJson standard.maxRetries)⟩]

theorem heeds : Heeds shape (ofJson? : Json → Option GitHubSettings) :=
  heeds_record
    (reads_orDefault _ heeds_plain (LawfulJsonForm.ofJson?_toJson _) fun _ =>
      reads_optional _ heeds_plain fun _ =>
      reads_orDefault _ heeds_plain (LawfulJsonForm.ofJson?_toJson _) fun _ =>
      reads_orDefault _ heeds_plain (LawfulJsonForm.ofJson?_toJson _) fun _ => .done _)
    (by decide)

end GitHubSettings

namespace PipelineSettings

def shape : Shape :=
  .record
    [⟨"program", .plain, some .null⟩, ⟨"args", .plain, some (toJson standard.args)⟩]

theorem heeds : Heeds shape (ofJson? : Json → Option PipelineSettings) :=
  heeds_record
    (reads_optional _ heeds_plain fun _ =>
      reads_orDefault _ heeds_plain (ofJson?_toJson _) fun _ => .done _)
    (by decide)

end PipelineSettings

namespace Settings

def shape (metadataPath : String) : Shape :=
  .record
    [⟨"log_level", .plain, some (JsonForm.toJson (standard metadataPath).logLevel)⟩,
     ⟨"metadata_path", .plain, some (JsonForm.toJson metadataPath)⟩,
     ⟨"github", GitHubSettings.shape, some (JsonForm.toJson GitHubSettings.standard)⟩,
     ⟨"pipeline", PipelineSettings.shape, some (JsonForm.toJson PipelineSettings.standard)⟩,
     ⟨"update", UpdateSettings.shape, some (JsonForm.toJson UpdateSettings.standard)⟩]

theorem heeds (metadataPath : String) : Heeds (shape metadataPath) (ofJson? metadataPath) :=
  heeds_record
    (reads_orDefault _ heeds_plain (LawfulJsonForm.ofJson?_toJson _) fun _ =>
      reads_orDefault _ heeds_plain (LawfulJsonForm.ofJson?_toJson _) fun _ =>
      reads_orDefault _ GitHubSettings.heeds (GitHubSettings.ofJson?_toJson _) fun _ =>
      reads_orDefault _ PipelineSettings.heeds (LawfulJsonForm.ofJson?_toJson _) fun _ =>
      reads_orDefault _ UpdateSettings.heeds (LawfulJsonForm.ofJson?_toJson _) fun _ => .done _)
    (by simp [namesOf])

end Settings

namespace GitHub

namespace CommitPage

def messageShape : Shape :=
  .record [⟨"message", .plain, some (toJson "")⟩]

def shape : Shape :=
  .record [⟨"sha", .plain, none⟩, ⟨"commit", messageShape, none⟩]

theorem heeds_message? : Heeds messageShape message? := by
  refine heeds_record ?_ (by decide)
  have hreads : Reads [⟨"message", .plain, some (toJson "")⟩] fun xs =>
      (orDefault xs "message" "").bind some :=
    reads_orDefault _ heeds_plain (ofJson?_toJson _) .done
  simpa only [Option.bind_fun_some] using hreads

theorem heeds : Heeds shape ofJson? :=
  heeds_record
    (reads_required _ heeds_plain fun _ =>
      reads_field none heeds_message? nofun (fun xs => by cases xs.lookup "commit" <;> rfl) fun _ =>
      .done _)
    (by decide)

end CommitPage

namespace ListedFile

def shape : Shape :=
  .record
    [⟨"filename", .plain, none⟩, ⟨"status", .plain, none⟩,
     ⟨"previous_filename", .plain, some .null⟩]

theorem heeds : Heeds shape ofJson? :=
  heeds_record
    (reads_required _ heeds_plain fun _ =>
      reads_required _ heeds_plain fun _ =>
      reads_optional _ heeds_plain fun _ => .done _)
    (by decide)

end ListedFile

namespace ComparePage

def shape : Shape :=
  .record
    [⟨"total_commits", .plain, some (toJson (0 : UInt32))⟩,
     ⟨"files", .list ListedFile.shape, some (.arr [])⟩]

def listed? : Json → Option (List ListedFile)
  | .arr vs => vs.mapM ListedFile.ofJson?
  | _ => none

theorem files?_eq (xs : List (String × Json)) :
    files? xs = (xs.lookup "files").elim (some []) listed? := by
  unfold files?
  cases xs.lookup "files" with
  | none => rfl
  | some v => cases v <;> rfl

theorem heeds : Heeds shape ofJson? :=
  heeds_record
    (reads_orDefault _ heeds_plain (ofJson?_toJson _) fun _ =>
      reads_field (some []) (heeds_list ListedFile.heeds fun _ => rfl)
        (fun _ hv => Option.some.inj hv ▸ rfl) files?_eq fun _ => .done _)
    (by decide)

end ComparePage

end GitHub

/-- The order of the fields, other fields, blanks, fields with their default and the array form of
a record change nothing in what is read from a text, at any depth. -/
theorem decoding_heeds_known_fields :
    (KnownFieldsOnly ChangedFile.shape (ofJson? : Json → Option ChangedFile) ∧
      KnownFieldsOnly HeadCommit.shape (ofJson? : Json → Option HeadCommit) ∧
      KnownFieldsOnly Comparison.shape (ofJson? : Json → Option Comparison) ∧
      KnownFieldsOnly Snapshot.shape (ofJson? : Json → Option Snapshot)) ∧
    (KnownFieldsOnly Stats.shape (ofJson? : Json → Option Stats) ∧
      KnownFieldsOnly FileError.shape (ofJson? : Json → Option FileError) ∧
      KnownFieldsOnly Report.shape (ofJson? : Json → Option Report) ∧
      KnownFieldsOnly PipelineOutput.shape (ofJson? : Json → Option PipelineOutput) ∧
      KnownFieldsOnly PipelineOptions.shape (ofJson? : Json → Option PipelineOptions)) ∧
    (KnownFieldsOnly UpdateAnswer.shape (ofJson? : Json → Option UpdateAnswer) ∧
      KnownFieldsOnly JobAnswer.shape (ofJson? : Json → Option JobAnswer) ∧
      KnownFieldsOnly JobView.shape (ofJson? : Json → Option JobView) ∧
      KnownFieldsOnly Refusal.shape (ofJson? : Json → Option Refusal)) ∧
    (KnownFieldsOnly UpdateSettings.shape (ofJson? : Json → Option UpdateSettings) ∧
      KnownFieldsOnly GitHubSettings.shape (ofJson? : Json → Option GitHubSettings) ∧
      KnownFieldsOnly PipelineSettings.shape (ofJson? : Json → Option PipelineSettings) ∧
      ∀ metadataPath : String,
        KnownFieldsOnly (Settings.shape metadataPath) (Settings.ofJson? metadataPath)) ∧
    (KnownFieldsOnly GitHub.CommitPage.shape GitHub.CommitPage.ofJson? ∧
      KnownFieldsOnly GitHub.CommitPage.messageShape GitHub.CommitPage.message? ∧
      KnownFieldsOnly GitHub.ListedFile.shape GitHub.ListedFile.ofJson? ∧
      KnownFieldsOnly GitHub.ComparePage.shape GitHub.ComparePage.ofJson?) := by
  refine ⟨⟨?_, ?_, ?_, ?_⟩, ⟨?_, ?_, ?_, ?_, ?_⟩, ⟨?_, ?_, ?_, ?_⟩, ⟨?_, ?_, ?_, fun path => ?_⟩,
    ?_, ?_, ?_, ?_⟩
  · exact ChangedFile.heeds.knownFieldsOnly
  · exact HeadCommit.heeds.knownFieldsOnly
  · exact Comparison.heeds.knownFieldsOnly
  · exact Snapshot.heeds.knownFieldsOnly
  · exact Stats.heeds.knownFieldsOnly
  · exact FileError.heeds.knownFieldsOnly
  · exact Report.heeds.knownFieldsOnly
  · exact PipelineOutput.heeds.knownFieldsOnly
  · exact PipelineOptions.heeds.knownFieldsOnly
  · exact UpdateAnswer.heeds.knownFieldsOnly
  · exact JobAnswer.heeds.knownFieldsOnly
  · exact JobView.heeds.knownFieldsOnly
  · exact Refusal.heeds.knownFieldsOnly
  · exact UpdateSettings.heeds.knownFieldsOnly
  · exact GitHubSettings.heeds.knownFieldsOnly
  · exact PipelineSettings.heeds.knownFieldsOnly
  · exact (Settings.heeds path).knownFieldsOnly
  · exact GitHub.CommitPage.heeds.knownFieldsOnly
  · exact GitHub.CommitPage.heeds_message?.knownFieldsOnly
  · exact GitHub.ListedFile.heeds.knownFieldsOnly
  · exact GitHub.ComparePage.heeds.knownFieldsOnly

theorem decoding_heeds_known_fields_of_listed_file :
    ∃ text, Relation.EqvGen (Rewrites ChangedFile.shape) text "[\"a\",\"added\"]" ∧
      (ofText? text).bind ofJson? = some (⟨"a", .added, none⟩ : ChangedFile) ∧
      (ofText? "[\"a\",\"added\"]").bind ofJson? = some (⟨"a", .added, none⟩ : ChangedFile) := by
  let members : List (String × Json) :=
    [("note", .ofNat 1), ("kind", .ofString "added"), ("note", .arr []), ("path", .ofString "a")]
  let listed : Json := .arr [.ofString "a", .ofString "added"]
  have hlisted : ofText? "[\"a\",\"added\"]" = some listed := by
    have hcompact : "[\"a\",\"added\"]" = listed.compact := by decide +kernel
    rw [hcompact]
    exact ofText?_compact (LawfulJsonForm.plain ["a", "added"])
  have hplain : ∀ m ∈ members, m.2.Plain := by
    simp only [members, List.forall_mem_cons, List.not_mem_nil, false_imp_iff, implies_true, and_true]
    exact ⟨plain_ofNat 1, plain_ofString _, LawfulJsonForm.plain ([] : List String),
      plain_ofString _⟩
  have hrewrites : Relation.EqvGen (Rewrites ChangedFile.shape) (record members).compact
      "[\"a\",\"added\"]" :=
    .rel _ _ (.edits (ofText?_compact (plain_record hplain)) hlisted
      (ChangedFile.edits_listed (.ofNat 1) (.arr [])))
  have hread : (ofText? "[\"a\",\"added\"]").bind ofJson? =
      some (⟨"a", .added, none⟩ : ChangedFile) := by
    rw [hlisted]
    rfl
  obtain ⟨⟨hfile, -⟩, -⟩ := decoding_heeds_known_fields
  exact ⟨_, hrewrites, (hfile.same hrewrites).trans hread, hread⟩

end IndexRefresh
