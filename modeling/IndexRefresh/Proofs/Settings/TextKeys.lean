import IndexRefresh.Proofs.Settings.Insertion
import IndexRefresh.Proofs.Settings.Layering
import IndexRefresh.Proofs.Settings.Variables

namespace IndexRefresh

inductive TextKey where
  | logLevel
  | metadataPath
  | apiUrl
  | token
  | program
  deriving DecidableEq, Repr

namespace TextKey

def stem : TextKey → String
  | logLevel => "log_level"
  | metadataPath => "metadata_path"
  | apiUrl => "github"
  | token => "github"
  | program => "pipeline"

def rest : TextKey → List String
  | logLevel => []
  | metadataPath => []
  | apiUrl => ["api_url"]
  | token => ["token"]
  | program => ["program"]

def path (key : TextKey) : List String :=
  key.stem :: key.rest

def variableName : TextKey → String
  | logLevel => "REPOSYNC_LOG_LEVEL"
  | metadataPath => "REPOSYNC_METADATA_PATH"
  | apiUrl => "REPOSYNC_GITHUB__API_URL"
  | token => "REPOSYNC_GITHUB__TOKEN"
  | program => "REPOSYNC_PIPELINE__PROGRAM"

def value? (s : Settings) : TextKey → Option String
  | logLevel => some s.logLevel
  | metadataPath => some s.metadataPath
  | apiUrl => some s.github.apiUrl
  | token => s.github.token
  | program => s.pipeline.program

theorem ofVariable?_variableName (key : TextKey) (v : String) :
    Layer.ofVariable? key.variableName v =
      some (Layer.entry key.stem key.rest (.ofVariable v)) := by
  have hplace (dotted : List Char)
      (hname : (Layer.variableStem.toList.isPrefixOf? (Text.lower key.variableName.toList)).map
        Layer.dotted = some dotted)
      (hdotted : Place.ofText (String.ofList dotted) = ⟨key.stem, key.rest.map .child⟩) :
      Layer.ofVariable? key.variableName v =
        some (Layer.entry key.stem key.rest (.ofVariable v)) := by
    obtain ⟨stem, hstem, rfl⟩ := Option.map_eq_some_iff.1 hname
    rw [Layer.ofVariable?, hstem, Option.map_some, hdotted, Layer.entry]
  cases key with
  | logLevel =>
      exact hplace "log_level".toList (by decide) (Place.ofText_key _ (by decide) (by decide))
  | metadataPath =>
      exact hplace "metadata_path".toList (by decide) (Place.ofText_key _ (by decide) (by decide))
  | apiUrl =>
      exact hplace "github.api_url".toList (by decide)
        (Place.ofText_child "github".toList "api_url".toList (by decide) (by decide) (by decide)
          (by decide))
  | token =>
      exact hplace "github.token".toList (by decide)
        (Place.ofText_child "github".toList "token".toList (by decide) (by decide) (by decide)
          (by decide))
  | program =>
      exact hplace "pipeline.program".toList (by decide)
        (Place.ofText_child "pipeline".toList "program".toList (by decide) (by decide) (by decide)
          (by decide))

theorem reading_text {standard : String} {x : Setting} {t : String} (hx : x.text? = some t) :
    Setting.reading standard (some x) = some t := hx

theorem reading_optional {standard : Option String} {x : Setting} {t : String}
    (hx : x.text? = some t) : Setting.reading standard (some x) = some (some t) := by
  cases x with
  | null => cases hx
  | _ => exact congrArg (Option.map some) hx

theorem value?_of_holds {metadataPath : String} {layers : List Layer} {s : Settings}
    (hs : s.Holds metadataPath layers) {key : TextKey} {x : Setting} {t : String}
    (hvalue : Layer.value? key.path layers = some x) (hx : x.text? = some t) :
    value? s key = some t := by
  cases key with
  | logLevel =>
      have hvalue' : Layer.value? ["log_level"] layers = some x := hvalue
      have h := hs.logLevel
      rw [hvalue', reading_text hx] at h
      exact h.symm
  | metadataPath =>
      have hvalue' : Layer.value? ["metadata_path"] layers = some x := hvalue
      have h := hs.metadataPath
      rw [hvalue', reading_text hx] at h
      exact h.symm
  | apiUrl =>
      have hvalue' : Layer.value? ["github", "api_url"] layers = some x := hvalue
      have h := hs.github.2.apiUrl
      rw [Layer.inSection?_eq_some hvalue', reading_text hx] at h
      exact h.symm
  | token =>
      have hvalue' : Layer.value? ["github", "token"] layers = some x := hvalue
      have h := hs.github.2.token
      rw [Layer.inSection?_eq_some hvalue', reading_optional hx] at h
      exact (Option.some.inj h).symm
  | program =>
      have hvalue' : Layer.value? ["pipeline", "program"] layers = some x := hvalue
      have h := hs.pipeline.2.program
      rw [Layer.inSection?_eq_some hvalue', reading_optional hx] at h
      exact (Option.some.inj h).symm

theorem exists_holds_of_insertion {metadataPath : String} {layers layers' : List Layer}
    {s : Settings} {key : TextKey} {x : Setting} {t : String} (hx : x.text? = some t)
    (h : Layer.Insertion key.stem key.rest x layers layers') (hs : s.Holds metadataPath layers) :
    ∃ s' : Settings, s'.Holds metadataPath layers' ∧ s'.update = s.update := by
  have hvalue := h.value? hx
  -- the entry is apart from every other section and from the keys beside it in its own
  cases key with
  | logLevel =>
      refine ⟨{ s with logLevel := t }, ⟨?_, ?_, ?_, ?_, ?_⟩, rfl⟩
      · exact hvalue ▸ reading_text hx
      · exact h.reading_kept "metadata_path" (by decide) hs.metadataPath
      · exact h.section_kept "github" (by decide) hs.github
      · exact h.section_kept "pipeline" (by decide) hs.pipeline
      · exact h.section_kept "update" (by decide) hs.update
  | metadataPath =>
      refine ⟨{ s with metadataPath := t }, ⟨?_, ?_, ?_, ?_, ?_⟩, rfl⟩
      · exact h.reading_kept "log_level" (by decide) hs.logLevel
      · exact hvalue ▸ reading_text hx
      · exact h.section_kept "github" (by decide) hs.github
      · exact h.section_kept "pipeline" (by decide) hs.pipeline
      · exact h.section_kept "update" (by decide) hs.update
  | apiUrl =>
      obtain ⟨hsection, hkeys⟩ := Layer.inSection?_of_value? hvalue GitHubSettings.fieldNames
      obtain ⟨token, htoken⟩ := h.exists_reading (by decide) hs.github.2.token
      obtain ⟨timeout, htimeout⟩ := h.exists_reading (by decide) hs.github.2.timeoutSecs
      obtain ⟨retries, hretries⟩ := h.exists_reading (by decide) hs.github.2.maxRetries
      refine ⟨{ s with github := ⟨t, token, timeout, retries⟩ }, ⟨?_, ?_, ⟨hsection, ?_⟩, ?_, ?_⟩,
        rfl⟩
      · exact h.reading_kept "log_level" (by decide) hs.logLevel
      · exact h.reading_kept "metadata_path" (by decide) hs.metadataPath
      · exact hkeys ▸ ⟨hvalue ▸ reading_text hx, htoken, htimeout, hretries⟩
      · exact h.section_kept "pipeline" (by decide) hs.pipeline
      · exact h.section_kept "update" (by decide) hs.update
  | token =>
      obtain ⟨hsection, hkeys⟩ := Layer.inSection?_of_value? hvalue GitHubSettings.fieldNames
      obtain ⟨apiUrl, hapiUrl⟩ := h.exists_reading (by decide) hs.github.2.apiUrl
      obtain ⟨timeout, htimeout⟩ := h.exists_reading (by decide) hs.github.2.timeoutSecs
      obtain ⟨retries, hretries⟩ := h.exists_reading (by decide) hs.github.2.maxRetries
      refine ⟨{ s with github := ⟨apiUrl, some t, timeout, retries⟩ },
        ⟨?_, ?_, ⟨hsection, ?_⟩, ?_, ?_⟩, rfl⟩
      · exact h.reading_kept "log_level" (by decide) hs.logLevel
      · exact h.reading_kept "metadata_path" (by decide) hs.metadataPath
      · exact hkeys ▸ ⟨hapiUrl, hvalue ▸ reading_optional hx, htimeout, hretries⟩
      · exact h.section_kept "pipeline" (by decide) hs.pipeline
      · exact h.section_kept "update" (by decide) hs.update
  | program =>
      obtain ⟨hsection, hkeys⟩ := Layer.inSection?_of_value? hvalue PipelineSettings.fieldNames
      obtain ⟨args, hargs⟩ := h.exists_reading (by decide) hs.pipeline.2.args
      refine ⟨{ s with pipeline := ⟨some t, args⟩ }, ⟨?_, ?_, ?_, ⟨hsection, ?_⟩, ?_⟩, rfl⟩
      · exact h.reading_kept "log_level" (by decide) hs.logLevel
      · exact h.reading_kept "metadata_path" (by decide) hs.metadataPath
      · exact h.section_kept "github" (by decide) hs.github
      · exact hkeys ▸ ⟨hvalue ▸ reading_optional hx, hargs⟩
      · exact h.section_kept "update" (by decide) hs.update

def LastIn (key : TextKey) (env : Environment) : Prop :=
  ∀ x ∈ env, key.variableName ≤ x.1 → ∀ e, Layer.ofVariable? x.1 x.2 = some e →
    Layer.wordsOn key.path [e] = []

theorem lastIn_of_silent {key : TextKey} {env : Environment}
    (h : (Layer.ofEnvironment env).wordsOn key.path = []) : key.LastIn env := by
  intro x hx _ e he
  have hmem : e ∈ Layer.ofEnvironment env :=
    List.mem_filterMap.2 ⟨x, List.mem_mergeSort.2 hx, he⟩
  rw [Layer.wordsOn, List.flatMap_singleton]
  exact List.flatMap_eq_nil_iff.1 h e hmem

section Load

variable {ω : Type} {files : Files (StateM ω)} {w : ω} {formats : FileFormats}
  {read : String → Except OsError ByteArray} {env : Environment} {config : Option String}
  {s : Settings}

theorem settingsPath_cons (key : TextKey) (v : String) (env : Environment) :
    Environment.settingsPath ((key.variableName, v) :: env) = env.settingsPath := by
  cases key <;> rfl

theorem metadataPath_cons (key : TextKey) (v : String) (env : Environment) :
    Environment.metadataPath ((key.variableName, v) :: env) = env.metadataPath := by
  cases key <;> rfl

theorem insertion_ofEnvironment {key : TextKey} (hlast : key.LastIn env) (v : String)
    (first users named : Layer) :
    Layer.Insertion key.stem key.rest (.ofVariable v) [first, users, named, .ofEnvironment env]
      [first, users, named, .ofEnvironment ((key.variableName, v) :: env)] := by
  obtain ⟨before, after, henv, hcons, hafter⟩ :=
    Layer.ofEnvironment_cons _ v env (ofVariable?_variableName key v)
  refine ⟨first ++ users ++ named ++ before, after, by simp [henv], by simp [hcons], ?_⟩
  refine List.flatMap_eq_nil_iff.2 fun e he => ?_
  obtain ⟨x, hx, hle, hxe⟩ := hafter e he
  have hnone := hlast x hx hle e hxe
  rwa [Layer.wordsOn, List.flatMap_singleton] at hnone

theorem sources_cons {key : TextKey} (hlast : key.LastIn env) (v : String) {layers : List Layer}
    (h : Settings.Sources formats read env config layers) :
    ∃ layers', Settings.Sources formats read ((key.variableName, v) :: env) config layers' ∧
      Layer.Insertion key.stem key.rest (.ofVariable v) layers layers' := by
  obtain ⟨users, named, husers, hnamed, rfl⟩ := h
  rw [← settingsPath_cons key v] at husers
  refine ⟨_, ⟨users, named, husers, hnamed, rfl⟩, ?_⟩
  rw [metadataPath_cons]
  exact insertion_ofEnvironment hlast v _ users named

theorem exists_insertion_of_sources {key : TextKey} (hlast : key.LastIn env) {v : String}
    {layers' : List Layer}
    (h : Settings.Sources formats read ((key.variableName, v) :: env) config layers') :
    ∃ layers, Layer.Insertion key.stem key.rest (.ofVariable v) layers layers' := by
  obtain ⟨users, named, -, -, rfl⟩ := h
  exact ⟨_, insertion_ofEnvironment hlast v _ users named⟩

/-- The text of a variable is held as it is read, so it is held itself only if it is neither a flag
nor a number, or one in the way that it is printed. A text that a file gives is held as it
stands. -/
theorem variable_held_as_read (formats : FileFormats) (files : Files (StateM ω))
    (read : String → Except OsError ByteArray) (w : ω)
    (hread : ∀ name, (files.read name).run w = (read name, w)) (env : Environment)
    (config : Option String) (key : TextKey) (v : String) (hlast : key.LastIn env) :
    ((∃ s, (Settings.load files env config formats).run w = (.ok s, w)) →
      ∃ s, (Settings.load files ((key.variableName, v) :: env) config formats).run w =
        (.ok s, w)) ∧
    (∀ s, (Settings.load files ((key.variableName, v) :: env) config formats).run w =
        (.ok s, w) →
      key.value? s = some (Setting.asRead v) ∧
        (key.value? s = some v ↔ Setting.StaysAsWritten v)) ∧
    ∀ s before layer after ws, (Settings.load files env config formats).run w = (.ok s, w) →
      Settings.Sources formats read env config (before ++ layer :: after) →
      layer.wordsOn key.path = ws ++ [.given (.text v)] →
      (∀ l ∈ after, l.wordsOn key.path = []) → key.value? s = some v := by
  have hasRead := Setting.text?_ofVariable v
  refine ⟨?_, fun s hload => ?_, fun s before layer after ws hload hlayers hgiven hsilent => ?_⟩
  · rintro ⟨s, hload⟩
    obtain ⟨layers, hlayers⟩ := Settings.exists_sources hread hload
    obtain ⟨layers', hlayers', hinsert⟩ := sources_cons hlast v hlayers
    obtain ⟨hs, hvalid⟩ := (Settings.load_eq_ok_iff_of_sources hread hlayers).1 hload
    obtain ⟨s', hs', hupdate⟩ := exists_holds_of_insertion hasRead hinsert hs
    rw [← metadataPath_cons key v] at hs'
    exact ⟨s', (Settings.load_eq_ok_iff_of_sources hread hlayers').2 ⟨hs', hupdate ▸ hvalid⟩⟩
  · obtain ⟨layers', hlayers'⟩ := Settings.exists_sources hread hload
    obtain ⟨layers, hinsert⟩ := exists_insertion_of_sources hlast hlayers'
    obtain ⟨hs, -⟩ := (Settings.load_eq_ok_iff_of_sources hread hlayers').1 hload
    have hheld := value?_of_holds hs (hinsert.value? hasRead) hasRead
    refine ⟨hheld, ?_⟩
    rw [hheld, Option.some.injEq, Setting.asRead_eq_self_iff]
  · obtain ⟨hs, -⟩ := (Settings.load_eq_ok_iff_of_sources hread hlayers).1 hload
    exact value?_of_holds hs (Layer.value?_of_given before hgiven hsilent) rfl

end Load

section Files

open CommandLine (readText textFiles home homeLayer layer?_json ofEnvironment_home
  settingsPath_home)

def tokenFile : String × String :=
  ("/conf.json", "\x7b\"github\":\x7b\"token\":\"1.50\"\x7d\x7d")

def tokenLayer : Layer :=
  [(⟨"github", []⟩, .branch [("token", .text "1.50")])]

theorem layer?_tokenFile (formats : FileFormats) :
    (SettingsFile.mk .json tokenFile.2.toUTF8).layer? formats = some tokenLayer := by
  have hplace := Place.ofText_key "github".toList (by decide) (by decide)
  have hentries : Setting.entriesOfJson? (textOfBytes tokenFile.2.toUTF8) =
      some [("github", .branch [("token", .text "1.50")])] := by
    cbv
  exact layer?_json hentries (congrArg (fun place => [(place, _)]) hplace) formats

theorem sources_tokenFile :
    Settings.Sources .plain (readText [tokenFile]) home (some tokenFile.1)
      [.standard home.metadataPath, [], tokenLayer, homeLayer] := by
  refine ⟨[], tokenLayer, .inl ⟨?_, rfl⟩, ⟨_, rfl, layer?_tokenFile _⟩,
    by rw [ofEnvironment_home]⟩
  rw [settingsPath_home]
  rfl

theorem lastIn_home : token.LastIn home :=
  lastIn_of_silent (by rw [ofEnvironment_home]; rfl)

theorem variable_held_as_read_over_file :
    (∀ path, ((textFiles [tokenFile]).read path).run () = (readText [tokenFile] path, ())) ∧
      token.LastIn home ∧
      (∃ s, (Settings.load (textFiles [tokenFile]) home (some tokenFile.1)).run () = (.ok s, ()) ∧
        s.github.token = some "1.50") ∧
      ∃ s, (Settings.load (textFiles [tokenFile]) (("REPOSYNC_GITHUB__TOKEN", "1.50") :: home)
          (some tokenFile.1)).run () = (.ok s, ()) ∧
        s.github.token = some "1.5" := by
  obtain ⟨hloads, hheld, hfile⟩ := variable_held_as_read .plain (textFiles [tokenFile])
    (readText [tokenFile]) () (fun _ => rfl) home (some tokenFile.1) token "1.50" lastIn_home
  have hs : Settings.Holds home.metadataPath
      [.standard home.metadataPath, [], tokenLayer, homeLayer]
      { Settings.standard home.metadataPath with
        github := { GitHubSettings.standard with token := some "1.50" }
        update := { UpdateSettings.standard with timeoutSecs := 7 } } :=
    ⟨rfl, rfl, ⟨trivial, rfl, rfl, rfl, rfl⟩, ⟨trivial, rfl, rfl⟩,
      ⟨trivial, rfl, rfl, rfl, rfl, rfl⟩⟩
  have hload := (Settings.load_eq_ok_iff_of_sources (CommandLine.read_textFiles [tokenFile])
    sources_tokenFile).2 ⟨hs, by decide⟩
  have hread : Setting.asRead "1.50" = "1.5" := by decide
  obtain ⟨s, hs'⟩ := hloads ⟨_, hload⟩
  refine ⟨fun _ => rfl, lastIn_home, ⟨_, hload, ?_⟩, s, hs', ?_⟩
  · exact hfile _ [.standard home.metadataPath, []] tokenLayer [homeLayer] [] hload
      sources_tokenFile rfl (by simp; rfl)
  · exact (hheld s hs').1.trans (congrArg some hread)

theorem token_of_digits_changed :
    ∃ s, (Settings.load (textFiles []) [("REPOSYNC_GITHUB__TOKEN", "007")] none).run () =
        (.ok s, ()) ∧
      token.value? s = some "7" ∧ token.value? s ≠ some "007" := by
  have hentry : Layer.ofEnvironment [("REPOSYNC_GITHUB__TOKEN", "007")] =
      [(⟨"github", [.child "token"]⟩, .whole 7)] := by
    have hvalue : Setting.ofVariable "007" = .whole 7 := by cbv
    have hvariable : Layer.ofVariable? "REPOSYNC_GITHUB__TOKEN" "007" =
        some (⟨"github", [.child "token"]⟩, .whole 7) :=
      hvalue ▸ ofVariable?_variableName token "007"
    simp [Layer.ofEnvironment, hvariable]
  have hsources : Settings.Sources .plain (readText []) [("REPOSYNC_GITHUB__TOKEN", "007")] none
      [.standard "./repositories.json", [], [], [(⟨"github", [.child "token"]⟩, .whole 7)]] :=
    ⟨[], [], .inl ⟨rfl, rfl⟩, rfl, by rw [hentry]; rfl⟩
  have hs : Settings.Holds "./repositories.json"
      [.standard "./repositories.json", [], [], [(⟨"github", [.child "token"]⟩, .whole 7)]]
      { Settings.standard "./repositories.json" with
        github := { GitHubSettings.standard with token := some "7" } } :=
    ⟨rfl, rfl, ⟨trivial, rfl, rfl, rfl, rfl⟩, ⟨trivial, rfl, rfl⟩,
      ⟨trivial, rfl, rfl, rfl, rfl, rfl⟩⟩
  have hload := (Settings.load_eq_ok_iff_of_sources (CommandLine.read_textFiles []) hsources).2
    ⟨hs, by decide⟩
  exact ⟨_, hload, rfl, by decide⟩

end Files

end TextKey

end IndexRefresh
