import IndexRefresh.CommandLine.Program
import IndexRefresh.Proofs.Settings.Keys

namespace IndexRefresh

theorem run_bind_of_run {ω α β : Type} {x : StateM ω α} {f : α → StateM ω β} {w u : ω} {a : α}
    (h : x.run w = (a, u)) : (x >>= f).run w = (f a).run u := by
  rw [StateT.run_bind, h]
  rfl

namespace SettingsFile

variable {ω : Type} {files : Files (StateM ω)} {w : ω} {formats : FileFormats}

def isThere : Except OsError ByteArray → Bool
  | .ok _ => true
  | .error e => !e.isNoFile

/-- The file that a name stands for: the one of exactly that name, if its ending is that of a format,
or else the first one whose ending the name leaves out. -/
def named? (formats : FileFormats) (read : String → Except OsError ByteArray) (name : String) :
    Option SettingsFile :=
  if isThere (read name) then
    (read name).toOption.bind fun content =>
      (FileFormat.ofEnding? (FilePath.extension name)).map fun format => ⟨format, content⟩
  else
    (formats.trials.find? fun t => isThere (read (FilePath.withEnding name t.1))).bind fun t =>
      (read (FilePath.withEnding name t.1)).toOption.map fun content => ⟨t.2, content⟩

variable {read : String → Except OsError ByteArray}

theorem findEnding?_run (hread : ∀ name, (files.read name).run w = (read name, w))
    (name : String) (trials : List (String × FileFormat)) :
    (findEnding? files name trials).run w =
      ((trials.find? fun t => isThere (read (FilePath.withEnding name t.1))).bind fun t =>
        (read (FilePath.withEnding name t.1)).toOption.map fun content => ⟨t.2, content⟩, w) := by
  induction trials with
  | nil => rfl
  | cons t trials ih =>
      obtain ⟨ending, format⟩ := t
      rw [findEnding?, run_bind_of_run (hread _), List.find?_cons]
      cases hfile : read (FilePath.withEnding name ending) with
      | ok content =>
          simp only [isThere, hfile, Option.bind_some, Except.toOption, Option.map_some]
          rfl
      | error e =>
          cases hno : e.isNoFile with
          | true => simpa [isThere, hno] using ih
          | false =>
              simp only [isThere, hno, hfile, Bool.not_false, Option.bind_some, Except.toOption,
                Option.map_none, Bool.false_eq_true, if_false]
              rfl

theorem find?_run (hread : ∀ name, (files.read name).run w = (read name, w)) (name : String) :
    (find? files formats name).run w = (named? formats read name, w) := by
  rw [find?, run_bind_of_run (hread name), named?]
  cases read name with
  | ok content => rfl
  | error e =>
      cases hno : e.isNoFile with
      | true => simpa [isThere, hno] using findEnding?_run hread name formats.trials
      | false =>
          simp only [isThere, hno, Bool.not_false, if_true, Except.toOption, Option.bind_none,
            Bool.false_eq_true, if_false]
          rfl

end SettingsFile

namespace Settings

def UserLayer (formats : FileFormats) (read : String → Except OsError ByteArray) (path : String)
    (layer : Layer) : Prop :=
  (SettingsFile.named? formats read path = none ∧ layer = []) ∨
    ∃ f, SettingsFile.named? formats read path = some f ∧ f.layer? formats = some layer

def NamedLayer (formats : FileFormats) (read : String → Except OsError ByteArray) :
    Option String → Layer → Prop
  | none, layer => layer = []
  | some name, layer =>
      ∃ f, SettingsFile.named? formats read name = some f ∧ f.layer? formats = some layer

def Sources (formats : FileFormats) (read : String → Except OsError ByteArray) (env : Environment)
    (config : Option String) (layers : List Layer) : Prop :=
  ∃ users named, UserLayer formats read env.settingsPath users ∧
    NamedLayer formats read config named ∧
    layers = [.standard env.metadataPath, users, named, .ofEnvironment env]

section Run

variable {ω : Type} {files : Files (StateM ω)} {w : ω} {formats : FileFormats}
  {read : String → Except OsError ByteArray}

theorem optionalLayer?_run (hread : ∀ name, (files.read name).run w = (read name, w))
    (path : String) :
    ∃ layer?, (optionalLayer? files formats path).run w = (layer?, w) ∧
      ∀ layer, layer? = some layer ↔ UserLayer formats read path layer := by
  rw [optionalLayer?, run_bind_of_run (SettingsFile.find?_run hread path)]
  cases hfile : SettingsFile.named? formats read path with
  | none => exact ⟨some [], rfl, fun layer => by simp [UserLayer, hfile, eq_comm]⟩
  | some f => exact ⟨f.layer? formats, rfl, fun layer => by simp [UserLayer, hfile]⟩

theorem namedLayer?_run (hread : ∀ name, (files.read name).run w = (read name, w))
    (config : Option String) :
    ∃ layer?, (namedLayer? files formats config).run w = (layer?, w) ∧
      ∀ layer, layer? = some layer ↔ NamedLayer formats read config layer := by
  cases config with
  | none => exact ⟨some [], rfl, fun layer => by simp [NamedLayer, eq_comm]⟩
  | some name =>
      rw [namedLayer?, requiredLayer?, run_bind_of_run (SettingsFile.find?_run hread name)]
      refine ⟨(SettingsFile.named? formats read name).bind (SettingsFile.layer? formats), rfl,
        fun layer => ?_⟩
      rw [NamedLayer, Option.bind_eq_some_iff]

theorem load_run (formats : FileFormats)
    (hread : ∀ name, (files.read name).run w = (read name, w)) (env : Environment)
    (config : Option String) :
    ((∀ layers, ¬Sources formats read env config layers) ∧
        (load files env config formats).run w = (.error .load, w)) ∨
      ∃ layers, (∀ layers', Sources formats read env config layers' ↔ layers' = layers) ∧
        (load files env config formats).run w = (ofLayers env.metadataPath layers, w) := by
  obtain ⟨users?, husers, hisUsers⟩ := optionalLayer?_run hread env.settingsPath
  obtain ⟨named?, hnamed, hisNamed⟩ := namedLayer?_run hread config
  rw [load, run_bind_of_run husers, run_bind_of_run hnamed]
  cases users? with
  | none =>
      refine .inl ⟨?_, rfl⟩
      rintro _ ⟨users, named, h, -, -⟩
      cases (hisUsers users).2 h
  | some users =>
      cases named? with
      | none =>
          refine .inl ⟨?_, rfl⟩
          rintro _ ⟨-, named, -, h, -⟩
          cases (hisNamed named).2 h
      | some named =>
          refine .inr ⟨_, fun layers' => ⟨?_, ?_⟩, rfl⟩
          · rintro ⟨users', named', h, h', rfl⟩
            cases (hisUsers users').2 h
            cases (hisNamed named').2 h'
            rfl
          · rintro rfl
            exact ⟨users, named, (hisUsers users).1 rfl, (hisNamed named).1 rfl, rfl⟩

end Run

end Settings

end IndexRefresh
