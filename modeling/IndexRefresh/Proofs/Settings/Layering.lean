import Mathlib
import IndexRefresh.Proofs.Settings.Loading

namespace IndexRefresh

namespace UpdateSettings

def FirstZero (u : UpdateSettings) (key : String) : Prop :=
  (u.changeThreshold = 0 ∧ key = "update.change_threshold") ∨
    (u.changeThreshold ≠ 0 ∧ u.timeoutSecs = 0 ∧ key = "update.timeout_secs") ∨
    (u.changeThreshold ≠ 0 ∧ u.timeoutSecs ≠ 0 ∧ u.evictionIntervalSecs = 0 ∧
      key = "update.eviction_interval_secs")

theorem invalid?_eq_some_iff {u : UpdateSettings} {key : String} :
    u.invalid? = some key ↔ u.FirstZero key := by
  unfold invalid? FirstZero
  split
  · next h => simp [h, eq_comm]
  · next h =>
      split
      · next h' => simp [h, h', eq_comm]
      · next h' =>
          split
          · next h'' => simp [h, h', h'', eq_comm]
          · next h'' => simp [h, h', h'']

theorem invalid?_eq_none_iff {u : UpdateSettings} :
    u.invalid? = none ↔
      u.changeThreshold ≠ 0 ∧ u.timeoutSecs ≠ 0 ∧ u.evictionIntervalSecs ≠ 0 := by
  unfold invalid?
  split
  · next h => simp [h]
  · next h =>
      split
      · next h' => simp [h']
      · next h' => simp [h, h']

theorem exists_firstZero_iff {u : UpdateSettings} :
    (∃ key, u.FirstZero key) ↔
      u.changeThreshold = 0 ∨ u.timeoutSecs = 0 ∨ u.evictionIntervalSecs = 0 := by
  simp only [← invalid?_eq_some_iff, ← Option.ne_none_iff_exists', ne_eq, invalid?_eq_none_iff,
    not_and_or, not_not]

end UpdateSettings

namespace Settings

theorem ofLayers_eq_ok_iff {metadataPath : String} {layers : List Layer} {s : Settings} :
    ofLayers metadataPath layers = .ok s ↔ s.Holds metadataPath layers ∧ s.update.invalid? = none := by
  rw [← ofSetting?_effective, ofLayers]
  cases ofSetting? metadataPath (Layer.effective layers) with
  | none => simp
  | some loaded =>
      dsimp only
      cases hzero : loaded.update.invalid? with
      | none =>
          constructor
          · rintro ⟨⟩
            exact ⟨rfl, hzero⟩
          · rintro ⟨⟨⟩, -⟩
            rfl
      | some key =>
          constructor
          · rintro ⟨⟩
          · rintro ⟨⟨⟩, h⟩
            rw [hzero] at h
            cases h

theorem ofLayers_eq_invalid_iff {metadataPath : String} {layers : List Layer} {key : String} :
    ofLayers metadataPath layers = .error (.invalid key) ↔
      ∃ loaded : Settings, loaded.Holds metadataPath layers ∧ loaded.update.invalid? = some key := by
  simp only [← ofSetting?_effective, ofLayers]
  cases ofSetting? metadataPath (Layer.effective layers) with
  | none => simp
  | some loaded =>
      dsimp only
      cases hzero : loaded.update.invalid? with
      | none =>
          constructor
          · rintro ⟨⟩
          · rintro ⟨_, ⟨⟩, h⟩
            rw [hzero] at h
            cases h
      | some key' =>
          constructor
          · rintro ⟨⟩
            exact ⟨loaded, rfl, hzero⟩
          · rintro ⟨_, ⟨⟩, h⟩
            rw [hzero] at h
            cases h
            rfl

theorem ofLayers_eq_load_iff {metadataPath : String} {layers : List Layer} :
    ofLayers metadataPath layers = .error .load ↔
      ∀ loaded : Settings, ¬loaded.Holds metadataPath layers := by
  simp only [← ofSetting?_effective, ofLayers]
  cases ofSetting? metadataPath (Layer.effective layers) with
  | none => simp
  | some loaded =>
      dsimp only
      constructor
      · intro h
        split at h <;> cases h
      · intro h
        exact absurd rfl (h loaded)

section Load

variable {ω : Type} {files : Files (StateM ω)} {w : ω} {formats : FileFormats}
  {read : String → Except OsError ByteArray} {env : Environment} {config : Option String}
  {s : Settings}

theorem load_run_of_sources (hread : ∀ name, (files.read name).run w = (read name, w))
    {layers : List Layer} (h : Sources formats read env config layers) :
    (load files env config formats).run w = (ofLayers env.metadataPath layers, w) := by
  rcases load_run formats hread env config with ⟨hnone, -⟩ | ⟨layers', hlayers', hload⟩
  · exact absurd h (hnone layers)
  · rw [hload, (hlayers' layers).1 h]

theorem load_eq_ok_iff_of_sources (hread : ∀ name, (files.read name).run w = (read name, w))
    {layers : List Layer} (h : Sources formats read env config layers) :
    (load files env config formats).run w = (.ok s, w) ↔
      s.Holds env.metadataPath layers ∧ s.update.invalid? = none := by
  rw [load_run_of_sources hread h, ← ofLayers_eq_ok_iff]
  exact ⟨congrArg Prod.fst, congrArg (·, w)⟩

theorem exists_sources (hread : ∀ name, (files.read name).run w = (read name, w))
    (h : (load files env config formats).run w = (.ok s, w)) :
    ∃ layers, Sources formats read env config layers := by
  rcases load_run formats hread env config with ⟨-, hload⟩ | ⟨layers, hlayers, -⟩
  · cases hload.symm.trans h
  · exact ⟨layers, (hlayers layers).2 rfl⟩

end Load

end Settings

namespace CommandLine

variable {ω : Type} {files : Files (StateM ω)} {w : ω} {read : String → Except OsError ByteArray}

theorem settings_run (formats : FileFormats)
    (hread : ∀ name, (files.read name).run w = (read name, w)) (env : Environment) (r : Request) :
    ∃ result, (r.settings files env formats).run w = (result, w) ∧
      (∀ s, result = .ok s ↔ ∃ layers loaded, Settings.Sources formats read env r.config layers ∧
        Settings.ofLayers env.metadataPath layers = .ok loaded ∧ s = r.override loaded) ∧
      (∀ key, result = .error (.settings (.invalid key)) ↔
        ∃ layers, Settings.Sources formats read env r.config layers ∧
          Settings.ofLayers env.metadataPath layers = .error (.invalid key)) ∧
      (result = .error (.settings .load) ↔
        ∀ layers, Settings.Sources formats read env r.config layers →
          Settings.ofLayers env.metadataPath layers = .error .load) ∧
      ∀ f, result = .error f → ∃ e, f = .settings e := by
  rcases Settings.load_run formats hread env r.config with
    ⟨hnone, hload⟩ | ⟨layers, hlayers, hload⟩
  · refine ⟨.error (.settings .load), ?_, ?_, ?_, ?_, ?_⟩
    · rw [Request.settings, run_bind_of_run hload]
      rfl
    · exact fun s => ⟨nofun, fun ⟨layers, _, h, _⟩ => absurd h (hnone layers)⟩
    · exact fun key => ⟨nofun, fun ⟨layers, h, _⟩ => absurd h (hnone layers)⟩
    · exact ⟨fun _ layers h => absurd h (hnone layers), fun _ => rfl⟩
    · rintro _ ⟨⟩
      exact ⟨.load, rfl⟩
  · simp only [hlayers, exists_and_left, exists_eq_left, forall_eq]
    rw [Request.settings, run_bind_of_run hload]
    cases Settings.ofLayers env.metadataPath layers with
    | ok loaded =>
        refine ⟨.ok (r.override loaded), rfl, fun s => ?_, fun key => ?_, ?_, fun f hf => ?_⟩
        · simp [eq_comm]
        · simp
        · simp
        · cases hf
    | error e =>
        refine ⟨.error (.settings e), rfl, fun s => ?_, fun key => ?_, ?_, ?_⟩
        · simp
        · simp
        · simp
        · rintro _ ⟨⟩
          exact ⟨e, rfl⟩

/-- Loaded settings have at every key what the last layer with a word on it gives, and the flags over that.
Loading fails over a file that gives no layer, over a value that stands at the end and does not
fit, and over a zero where none may stand. -/
theorem settings_from_last_layers (formats : FileFormats) (files : Files (StateM ω))
    (read : String → Except OsError ByteArray) (w : ω)
    (hread : ∀ name, (files.read name).run w = (read name, w)) (env : Environment)
    (r : Request) :
    ∃ result, (r.settings files env formats).run w = (result, w) ∧
      (∀ s, result = .ok s ↔
        ∃ layers loaded, Settings.Sources formats read env r.config layers ∧
          Settings.Holds env.metadataPath layers loaded ∧
          (loaded.update.changeThreshold ≠ 0 ∧ loaded.update.timeoutSecs ≠ 0 ∧
            loaded.update.evictionIntervalSecs ≠ 0) ∧
          s = { loaded with
            logLevel := r.logLevel.getD loaded.logLevel
            metadataPath := r.metadataPath.getD loaded.metadataPath }) ∧
      ((∃ key, result = .error (.settings (.invalid key))) ↔
        ∃ layers loaded, Settings.Sources formats read env r.config layers ∧
          Settings.Holds env.metadataPath layers loaded ∧
          (loaded.update.changeThreshold = 0 ∨ loaded.update.timeoutSecs = 0 ∨
            loaded.update.evictionIntervalSecs = 0)) ∧
      (result = .error (.settings .load) ↔
        ∀ layers loaded, Settings.Sources formats read env r.config layers →
          ¬Settings.Holds env.metadataPath layers loaded) ∧
      (∀ f, result = .error f → f = .settings .load ∨ ∃ key, f = .settings (.invalid key)) ∧
      ∀ (keys : List String) (before after : List Layer), (∀ l ∈ after, l.wordsOn keys = []) →
        Layer.value? keys after = none ∧
        ∀ (layer : Layer) (ws : List Word),
          (∀ v, layer.wordsOn keys = ws ++ [.given v] →
            Layer.value? keys (before ++ layer :: after) = some v) ∧
          (layer.wordsOn keys = ws ++ [.gone] →
            Layer.value? keys (before ++ layer :: after) = none) := by
  obtain ⟨result, hrun, hok, hinvalid, hload, herror⟩ := settings_run formats hread env r
  refine ⟨result, hrun, fun s => ?_, ?_, ?_, fun f hf => ?_, fun keys before after hsilent => ?_⟩
  · simp only [hok, Settings.ofLayers_eq_ok_iff, UpdateSettings.invalid?_eq_none_iff, and_assoc]
    rfl
  · simp only [hinvalid, Settings.ofLayers_eq_invalid_iff, UpdateSettings.invalid?_eq_some_iff,
      ← UpdateSettings.exists_firstZero_iff]
    constructor
    · rintro ⟨key, layers, hlayers, loaded, hloaded, hzero⟩
      exact ⟨layers, loaded, hlayers, hloaded, key, hzero⟩
    · rintro ⟨layers, loaded, hlayers, hloaded, key, hzero⟩
      exact ⟨key, layers, hlayers, loaded, hloaded, hzero⟩
  · rw [hload]
    simp only [Settings.ofLayers_eq_load_iff]
    exact forall_congr' fun layers => forall_comm
  · obtain ⟨e, rfl⟩ := herror f hf
    cases e with
    | load => exact .inl rfl
    | invalid key => exact .inr ⟨key, rfl⟩
  · refine ⟨Layer.value?_of_silent hsilent, fun layer ws => ⟨fun v hgiven => ?_, fun hgone => ?_⟩⟩
    · exact Layer.value?_of_given before hgiven hsilent
    · exact Layer.value?_of_gone before hgone hsilent

section Home

def readText (texts : List (String × String)) (path : String) : Except OsError ByteArray :=
  (texts.lookup path).elim (.error .notFound) fun text => .ok text.toUTF8

def textFiles (texts : List (String × String)) : Files (StateM Unit) where
  read path := pure (readText texts path)
  write _ _ := pure (.error .denied)
  rename _ _ := pure (.error .denied)
  createDirectory _ := pure (.error .denied)

theorem read_textFiles (texts : List (String × String)) (path : String) :
    ((textFiles texts).read path).run () = (readText texts path, ()) := rfl

def home : Environment :=
  [("HOME", "/home/u"), ("REPOSYNC_UPDATE__TIMEOUT_SECS", "7")]

def userFile : String × String :=
  ("/home/u/.config/reposync/config.json", "\x7b\"update\":\x7b\"cooldown_secs\":5\x7d\x7d")

def indentedFile : String × String :=
  ("/home/u/.config/reposync/config.yml", "update:\n  cooldown_secs: 5\n")

def muddledFile : String × String :=
  ("/conf.json", "\x7b\"update\":\"off\"\x7d")

def userLayer : Layer :=
  [(⟨"update", []⟩, .branch [("cooldown_secs", .whole 5)])]

def muddledLayer : Layer :=
  [(⟨"update", []⟩, .text "off")]

def homeLayer : Layer :=
  [(⟨"update", [.child "timeout_secs"]⟩, .whole 7)]

/-- The decoder of the other format is given for the one text that it is asked about. -/
def homeFormats : FileFormats :=
  { FileFormats.plain with
    yaml := fun text => if text = indentedFile.2 then some userLayer else none }

theorem layer?_json {text : String} {es : Entries Setting} {layer : Layer}
    (hentries : Setting.entriesOfJson? (textOfBytes text.toUTF8) = some es)
    (hlayer : Layer.ofFile es = layer) (formats : FileFormats) :
    (SettingsFile.mk .json text.toUTF8).layer? formats = some layer := by
  change (Setting.entriesOfJson? (textOfBytes text.toUTF8)).map Layer.ofFile = some layer
  rw [hentries, Option.map_some, hlayer]

theorem layer?_userFile (formats : FileFormats) :
    (SettingsFile.mk .json userFile.2.toUTF8).layer? formats = some userLayer := by
  have hplace := Place.ofText_key "update".toList (by decide) (by decide)
  have hentries : Setting.entriesOfJson? (textOfBytes userFile.2.toUTF8) =
      some [("update", .branch [("cooldown_secs", .whole 5)])] := by
    cbv
  exact layer?_json hentries (congrArg (fun place => [(place, _)]) hplace) formats

theorem layer?_muddledFile (formats : FileFormats) :
    (SettingsFile.mk .json muddledFile.2.toUTF8).layer? formats = some muddledLayer := by
  have hplace := Place.ofText_key "update".toList (by decide) (by decide)
  have hentries : Setting.entriesOfJson? (textOfBytes muddledFile.2.toUTF8) =
      some [("update", .text "off")] := by
    cbv
  exact layer?_json hentries (congrArg (fun place => [(place, _)]) hplace) formats

theorem layer?_indentedFile :
    (SettingsFile.mk .yaml indentedFile.2.toUTF8).layer? homeFormats = some userLayer := by
  have htext : textOfBytes indentedFile.2.toUTF8 = indentedFile.2 := by decide +kernel
  change (if textOfBytes indentedFile.2.toUTF8 = indentedFile.2 then _ else _) = _
  rw [if_pos htext]

theorem ofEnvironment_home : Layer.ofEnvironment home = homeLayer := by
  have hsorted : (home.mergeSort fun a b => a.1 ≤ b.1) = home :=
    List.mergeSort_of_pairwise (by decide)
  have hvalue : Setting.ofVariable "7" = .whole 7 := by cbv
  have hplace := Place.ofText_child "update".toList "timeout_secs".toList (by decide) (by decide)
    (by decide) (by decide)
  rw [Layer.ofEnvironment, hsorted, homeLayer, ← hvalue]
  exact congrArg (fun place => [(place, _)]) hplace

def homeFiles : List (String × String) :=
  [userFile, muddledFile]

theorem settingsPath_home : home.settingsPath = "/home/u/.config/reposync/config" := by
  decide +kernel

theorem userLayer_home :
    Settings.UserLayer .plain (readText homeFiles) home.settingsPath userLayer := by
  rw [settingsPath_home]
  exact .inr ⟨_, rfl, layer?_userFile _⟩

theorem settings_from_last_layers_at_home :
    (∀ path, ((textFiles [indentedFile]).read path).run () =
        (readText [indentedFile] path, ())) ∧
      ∃ s, (Request.settings ⟨none, some "debug", none, .list⟩ (textFiles [indentedFile]) home
          homeFormats).run () = (.ok s, ()) ∧
        s.logLevel = "debug" ∧ s.update = ⟨500, 5, 7, 3600, 60⟩ := by
  obtain ⟨result, hrun, hok, -⟩ := settings_from_last_layers homeFormats (textFiles [indentedFile])
    (readText [indentedFile]) () (fun _ => rfl) home ⟨none, some "debug", none, .list⟩
  have husers : Settings.UserLayer homeFormats (readText [indentedFile]) home.settingsPath
      userLayer := by
    rw [settingsPath_home]
    exact .inr ⟨_, rfl, layer?_indentedFile⟩
  have hsources : Settings.Sources homeFormats (readText [indentedFile]) home none
      [.standard home.metadataPath, userLayer, [], homeLayer] :=
    ⟨userLayer, [], husers, rfl, by rw [ofEnvironment_home]⟩
  have hloaded : Settings.Holds home.metadataPath
      [.standard home.metadataPath, userLayer, [], homeLayer]
      { Settings.standard home.metadataPath with update := ⟨500, 5, 7, 3600, 60⟩ } :=
    ⟨rfl, rfl, ⟨trivial, rfl, rfl, rfl, rfl⟩, ⟨trivial, rfl, rfl⟩,
      ⟨trivial, rfl, rfl, rfl, rfl, rfl⟩⟩
  have hresult := (hok _).2 ⟨_, _, hsources, hloaded, by decide, rfl⟩
  exact ⟨fun _ => rfl, _, hresult ▸ hrun, rfl, rfl⟩

/-- A layer that does not decode is passed over when a later one covers what is wrong with it, and
it takes away what an earlier one said: here the cooldown is as standard, and not as the user's
file has it, though no other layer names the key. -/
theorem undecodable_layer_passed_over :
    Settings.Sources .plain (readText homeFiles) home (some muddledFile.1)
        [.standard home.metadataPath, userLayer, muddledLayer, homeLayer] ∧
      (∀ loaded, ¬Settings.Holds home.metadataPath
        [.standard home.metadataPath, muddledLayer] loaded) ∧
      userLayer.wordsOn ["update", "cooldown_secs"] = [.given (.whole 5)] ∧
      homeLayer.wordsOn ["update", "cooldown_secs"] = [] ∧
      ∃ s, (Request.settings ⟨some muddledFile.1, none, none, .list⟩ (textFiles homeFiles)
          home).run () = (.ok s, ()) ∧
        s.update.cooldownSecs = 300 := by
  have hsources : Settings.Sources .plain (readText homeFiles) home (some muddledFile.1)
      [.standard home.metadataPath, userLayer, muddledLayer, homeLayer] :=
    ⟨userLayer, muddledLayer, userLayer_home, ⟨_, rfl, layer?_muddledFile _⟩,
      by rw [ofEnvironment_home]⟩
  have hloaded : Settings.Holds home.metadataPath
      [.standard home.metadataPath, userLayer, muddledLayer, homeLayer]
      { Settings.standard home.metadataPath with update := ⟨500, 300, 7, 3600, 60⟩ } :=
    ⟨rfl, rfl, ⟨trivial, rfl, rfl, rfl, rfl⟩, ⟨trivial, rfl, rfl⟩,
      ⟨trivial, rfl, rfl, rfl, rfl, rfl⟩⟩
  obtain ⟨result, hrun, hok, -⟩ := settings_run .plain (read_textFiles homeFiles) home
    ⟨some muddledFile.1, none, none, .list⟩
  have hresult := (hok _).2 ⟨_, _, hsources, Settings.ofLayers_eq_ok_iff.2 ⟨hloaded, by decide⟩, rfl⟩
  exact ⟨hsources, fun loaded h => h.update.1, rfl, rfl, _, hresult ▸ hrun, rfl⟩

end Home

end CommandLine

end IndexRefresh
