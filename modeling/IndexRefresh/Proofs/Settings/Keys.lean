import IndexRefresh.Proofs.Settings.Words
import IndexRefresh.Settings.Load

namespace IndexRefresh

namespace Setting

def reading {α : Type} [SettingForm α] (standard : α) : Option Setting → Option α
  | some v => ofSetting? v
  | none => some standard

theorem orDefault_eq_reading {α : Type} [SettingForm α] (fields : Entries Setting) (name : String)
    (standard : α) : orDefault fields name standard = reading standard (fields.lookup name) := by
  unfold orDefault reading
  cases fields.lookup name <;> rfl

def lookupIn (fields : Entries Setting) (key : String) : Option Setting :=
  fields.lookup key

def IsSection : Option Setting → Prop
  | none => True
  | some (.branch _) => True
  | some (.list _) => True
  | some _ => False

theorem isSection_iff {v : Setting} (names : List String) :
    IsSection (some v) ↔ ∃ fields, fields? names v = some fields := by
  cases v <;> simp [IsSection, fields?]

end Setting

open Setting (reading orDefault_eq_reading lookupIn IsSection)

structure GitHubSettings.Reads (value? : String → Option Setting) (g : GitHubSettings) : Prop where
  apiUrl : reading standard.apiUrl (value? "api_url") = some g.apiUrl
  token : reading standard.token (value? "token") = some g.token
  timeoutSecs : reading standard.timeoutSecs (value? "timeout_secs") = some g.timeoutSecs
  maxRetries : reading standard.maxRetries (value? "max_retries") = some g.maxRetries

structure PipelineSettings.Reads (value? : String → Option Setting) (p : PipelineSettings) :
    Prop where
  program : reading standard.program (value? "program") = some p.program
  args : reading standard.args (value? "args") = some p.args

structure UpdateSettings.Reads (value? : String → Option Setting) (u : UpdateSettings) : Prop where
  changeThreshold :
    reading standard.changeThreshold (value? "change_threshold") = some u.changeThreshold
  cooldownSecs : reading standard.cooldownSecs (value? "cooldown_secs") = some u.cooldownSecs
  timeoutSecs : reading standard.timeoutSecs (value? "timeout_secs") = some u.timeoutSecs
  jobMaxAgeSecs : reading standard.jobMaxAgeSecs (value? "job_max_age_secs") = some u.jobMaxAgeSecs
  evictionIntervalSecs :
    reading standard.evictionIntervalSecs (value? "eviction_interval_secs") =
      some u.evictionIntervalSecs

section Sections

variable {v : Setting}

theorem GitHubSettings.ofSetting?_eq_some_iff {g : GitHubSettings} :
    ofSetting? v = some g ↔
      ∃ fields, v.fields? GitHubSettings.fieldNames = some fields ∧ g.Reads (lookupIn fields) := by
  simp only [ofSetting?, orDefault_eq_reading, Option.bind_eq_bind, Option.bind_eq_some_iff,
    Option.pure_def, Option.some.injEq]
  constructor
  · rintro ⟨fields, hfields, apiUrl, h₁, token, h₂, timeout, h₃, retries, h₄, rfl⟩
    exact ⟨fields, hfields, h₁, h₂, h₃, h₄⟩
  · rintro ⟨fields, hfields, h⟩
    exact ⟨fields, hfields, _, h.apiUrl, _, h.token, _, h.timeoutSecs, _, h.maxRetries, rfl⟩

theorem PipelineSettings.ofSetting?_eq_some_iff {p : PipelineSettings} :
    ofSetting? v = some p ↔
      ∃ fields, v.fields? PipelineSettings.fieldNames = some fields ∧ p.Reads (lookupIn fields) := by
  simp only [ofSetting?, orDefault_eq_reading, Option.bind_eq_bind, Option.bind_eq_some_iff,
    Option.pure_def, Option.some.injEq]
  constructor
  · rintro ⟨fields, hfields, program, h₁, args, h₂, rfl⟩
    exact ⟨fields, hfields, h₁, h₂⟩
  · rintro ⟨fields, hfields, h⟩
    exact ⟨fields, hfields, _, h.program, _, h.args, rfl⟩

theorem UpdateSettings.ofSetting?_eq_some_iff {u : UpdateSettings} :
    ofSetting? v = some u ↔
      ∃ fields, v.fields? UpdateSettings.fieldNames = some fields ∧ u.Reads (lookupIn fields) := by
  simp only [ofSetting?, orDefault_eq_reading, Option.bind_eq_bind, Option.bind_eq_some_iff,
    Option.pure_def, Option.some.injEq]
  constructor
  · rintro ⟨fields, hfields, threshold, h₁, cooldown, h₂, timeout, h₃, age, h₄, interval, h₅, rfl⟩
    exact ⟨fields, hfields, h₁, h₂, h₃, h₄, h₅⟩
  · rintro ⟨fields, hfields, h⟩
    exact ⟨fields, hfields, _, h.changeThreshold, _, h.cooldownSecs, _, h.timeoutSecs, _,
      h.jobMaxAgeSecs, _, h.evictionIntervalSecs, rfl⟩

theorem GitHubSettings.reads_none_iff {g : GitHubSettings} :
    g.Reads (fun _ => none) ↔ standard = g := by
  constructor
  · rintro ⟨h₁, h₂, h₃, h₄⟩
    obtain ⟨apiUrl, token, timeoutSecs, maxRetries⟩ := g
    cases h₁; cases h₂; cases h₃; cases h₄
    rfl
  · rintro rfl
    exact ⟨rfl, rfl, rfl, rfl⟩

theorem PipelineSettings.reads_none_iff {p : PipelineSettings} :
    p.Reads (fun _ => none) ↔ standard = p := by
  constructor
  · rintro ⟨h₁, h₂⟩
    obtain ⟨program, args⟩ := p
    cases h₁; cases h₂
    rfl
  · rintro rfl
    exact ⟨rfl, rfl⟩

theorem UpdateSettings.reads_none_iff {u : UpdateSettings} :
    u.Reads (fun _ => none) ↔ standard = u := by
  constructor
  · rintro ⟨h₁, h₂, h₃, h₄, h₅⟩
    obtain ⟨threshold, cooldown, timeout, age, interval⟩ := u
    cases h₁; cases h₂; cases h₃; cases h₄; cases h₅
    rfl
  · rintro rfl
    exact ⟨rfl, rfl, rfl, rfl, rfl⟩

end Sections

namespace Layer

/-- What stands at a key of a section after some layers. Where a list stands for the section, its
items are the values of the keys in their order. -/
def inSection? (name : String) (names : List String) (layers : List Layer) (key : String) :
    Option Setting :=
  match value? [name] layers with
  | some (.list vs) => (names.zip vs).lookup key
  | _ => value? [name, key] layers

theorem lookup_effective (name : String) (layers : List Layer) :
    (effective layers).entries.lookup name = value? [name] layers := by
  rw [← at?_effective, Setting.at?]
  cases (effective layers).entries.lookup name <;> rfl

theorem value?_pair (name key : String) (layers : List Layer) :
    value? [name, key] layers = (value? [name] layers).bind (Setting.at? [key]) := by
  rw [← at?_effective, ← at?_effective]
  exact Setting.at?_append [name] [key] (effective layers)

theorem lookup_of_fields? {name : String} {names : List String} {layers : List Layer}
    {v : Setting} {fields : Entries Setting} (hv : value? [name] layers = some v)
    (hfields : v.fields? names = some fields) :
    Setting.lookupIn fields = inSection? name names layers := by
  funext key
  cases v with
  | branch es =>
      cases hfields
      rw [inSection?, hv, value?_pair, hv]
      change lookupIn fields key = (lookupIn fields key).bind (Setting.at? [])
      cases lookupIn fields key <;> rfl
  | list vs =>
      cases hfields
      rw [inSection?, hv]
      rfl
  | _ => cases hfields

theorem inSection?_of_none {name : String} {layers : List Layer}
    (hv : value? [name] layers = none) (names : List String) :
    inSection? name names layers = fun _ => none := by
  funext key
  rw [inSection?, hv, value?_pair, hv]
  rfl

theorem inSection?_of_value? {name key : String} {layers : List Layer} {x : Setting}
    (h : value? [name, key] layers = some x) (names : List String) :
    IsSection (value? [name] layers) ∧
      inSection? name names layers = fun key => value? [name, key] layers := by
  have hpair := h
  rw [value?_pair] at hpair
  unfold inSection?
  cases hv : value? [name] layers with
  | none =>
      rw [hv] at hpair
      cases hpair
  | some v =>
      rw [hv] at hpair
      cases v with
      | branch es => exact ⟨trivial, rfl⟩
      | _ => cases hpair

theorem inSection?_eq_some {name key : String} {layers : List Layer} {x : Setting}
    (h : value? [name, key] layers = some x) (names : List String) :
    inSection? name names layers key = some x := by
  rw [(inSection?_of_value? h names).2]
  exact h

theorem value?_eq_inSection?_or (name : String) (names : List String) (layers : List Layer)
    (key : String) : value? [name, key] layers = inSection? name names layers key ∨
      value? [name, key] layers = none := by
  unfold inSection?
  cases hv : value? [name] layers with
  | none => exact .inl rfl
  | some v =>
      cases v with
      | list vs =>
          rw [value?_pair, hv]
          exact .inr rfl
      | _ => exact .inl rfl

theorem inSection?_congr {name : String} {layers layers' : List Layer}
    (h : value? [name] layers' = value? [name] layers) (names : List String) :
    inSection? name names layers' = inSection? name names layers := by
  funext key
  rw [inSection?, inSection?, value?_pair, value?_pair, h]

theorem reading_section {α : Type} [SettingForm α] {Reads : (String → Option Setting) → α → Prop}
    {standard : α} {names : List String} (name : String) (layers : List Layer) (a : α)
    (hsome : ∀ v, ofSetting? v = some a ↔
      ∃ fields, v.fields? names = some fields ∧ Reads (lookupIn fields) a)
    (hnone : Reads (fun _ => none) a ↔ standard = a) :
    reading standard (value? [name] layers) = some a ↔
      IsSection (value? [name] layers) ∧ Reads (inSection? name names layers) a := by
  cases hv : value? [name] layers with
  | none =>
      rw [inSection?_of_none hv, hnone]
      simp [reading, IsSection]
  | some v =>
      rw [reading, hsome, Setting.isSection_iff names]
      constructor
      · rintro ⟨fields, hfields, h⟩
        exact ⟨⟨fields, hfields⟩, lookup_of_fields? hv hfields ▸ h⟩
      · rintro ⟨⟨fields, hfields⟩, h⟩
        exact ⟨fields, hfields, lookup_of_fields? hv hfields ▸ h⟩

theorem effective_eq_branch (layers : List Layer) :
    effective layers = .branch (effective layers).entries := by
  have happly (layer : Layer) (root : Setting) (h : root = .branch root.entries) :
      apply root layer = .branch (apply root layer).entries := by
    induction layer generalizing root with
    | nil => exact h
    | cons e layer ih => exact ih _ rfl
  have hfold (root : Setting) (h : root = .branch root.entries) :
      layers.foldl apply root = .branch (layers.foldl apply root).entries := by
    induction layers generalizing root with
    | nil => exact h
    | cons layer layers ih => exact ih _ (happly layer root h)
  exact hfold (.branch []) rfl

end Layer

namespace Settings

structure Holds (metadataPath : String) (layers : List Layer) (s : Settings) : Prop where
  logLevel : reading "info" (Layer.value? ["log_level"] layers) = some s.logLevel
  metadataPath : reading metadataPath (Layer.value? ["metadata_path"] layers) = some s.metadataPath
  github : IsSection (Layer.value? ["github"] layers) ∧
    s.github.Reads (Layer.inSection? "github" GitHubSettings.fieldNames layers)
  pipeline : IsSection (Layer.value? ["pipeline"] layers) ∧
    s.pipeline.Reads (Layer.inSection? "pipeline" PipelineSettings.fieldNames layers)
  update : IsSection (Layer.value? ["update"] layers) ∧
    s.update.Reads (Layer.inSection? "update" UpdateSettings.fieldNames layers)

theorem ofSetting?_effective (metadataPath : String) (layers : List Layer) (s : Settings) :
    ofSetting? metadataPath (Layer.effective layers) = some s ↔ s.Holds metadataPath layers := by
  have hgithub := fun g => Layer.reading_section "github" layers g
    (fun _ => GitHubSettings.ofSetting?_eq_some_iff) GitHubSettings.reads_none_iff
  have hpipeline := fun p => Layer.reading_section "pipeline" layers p
    (fun _ => PipelineSettings.ofSetting?_eq_some_iff) PipelineSettings.reads_none_iff
  have hupdate := fun u => Layer.reading_section "update" layers u
    (fun _ => UpdateSettings.ofSetting?_eq_some_iff) UpdateSettings.reads_none_iff
  have hfields : Setting.fields? fieldNames (Layer.effective layers) =
      some (Layer.effective layers).entries := by
    rw [Layer.effective_eq_branch]
    rfl
  rw [ofSetting?, hfields]
  simp only [orDefault_eq_reading, Layer.lookup_effective, Option.bind_eq_bind, Option.bind_some,
    Option.bind_eq_some_iff, Option.pure_def, Option.some.injEq, standard, hgithub, hpipeline,
    hupdate]
  constructor
  · rintro ⟨level, h₁, path, h₂, g, h₃, p, h₄, u, h₅, rfl⟩
    exact ⟨h₁, h₂, h₃, h₄, h₅⟩
  · rintro ⟨h₁, h₂, h₃, h₄, h₅⟩
    exact ⟨_, h₁, _, h₂, _, h₃, _, h₄, _, h₅, rfl⟩

end Settings

end IndexRefresh
