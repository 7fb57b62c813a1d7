import SchemaSpec.Text.Casing
import SchemaSpec.Text.Word

/-!
# Settings

The settings of a run come from three layers: the defaults, the assignments of the caller, and the
environment, which wins over both.  What comes out is checked.

* `SettingValue`: a text or a flag.  Any setting holds either, as it was assigned; `toText` and `isOn`
  say what a setting of the other kind counts as.
* `SettingKey`: the settings, with their names.
* `Settings.assign`: set one setting by its name; `Settings.toAssignments`: all of them as they are.
* `Settings.overrideFrom`: take over what the environment sets.  An environment value that is not
  valid has no effect.
* `Settings.check`: the first setting whose value is not allowed.
* `Settings.make`: all layers; `Settings.update` starts from given settings instead of the defaults.
* `Settings.ofEnvironment`: the defaults under an environment.  These are always allowed
  (`make_nil`).
-/

namespace SchemaSpec

open Text

/-- The value of a setting. -/
inductive SettingValue
  | text (value : Text)
  | flag (value : Bool)
  deriving Repr, DecidableEq

namespace SettingValue

/-- A value written out. -/
def toText : SettingValue → Text
  | .text t => t
  | .flag true => "True".toList
  | .flag false => "False".toList

/-- Whether a value switches something on: a text does unless it is empty. -/
def isOn : SettingValue → Bool
  | .text t => !t.isEmpty
  | .flag b => b

end SettingValue

/-- Assignments of values to settings, by name. -/
abbrev Assignments := List (Text × SettingValue)

/-- The environment of a run: variables with their values. -/
abbrev Environment := List (Text × Text)

/-- The value of a variable; one that is not set counts as empty. -/
def Environment.get (env : Environment) (name : String) : Text :=
  (env.lookup name.toList).getD []

/-- The settings of a run. -/
structure Settings where
  outputFile : SettingValue := .text "rails.tsp".toList
  serviceTitle : SettingValue := .text "Rails API".toList
  serverUrl : SettingValue := .text "http://localhost:3000".toList
  serverDescription : SettingValue := .text "api".toList
  routePrefix : SettingValue := .text "/api/v1".toList
  namespaceName : SettingValue := .text "Api".toList
  includeEnums : SettingValue := .flag true
  optionalMarker : SettingValue := .flag false
  logLevel : SettingValue := .text "INFO".toList
  deriving Repr, DecidableEq

/-- The settings that can be assigned. -/
inductive SettingKey
  | outputFile
  | serviceTitle
  | serverUrl
  | serverDescription
  | routePrefix
  | namespaceName
  | includeEnums
  | optionalMarker
  | logLevel
  deriving Repr, DecidableEq

namespace SettingKey

/-- The name under which a setting is assigned. -/
def name : SettingKey → Text
  | .outputFile => "output_file".toList
  | .serviceTitle => "service_title".toList
  | .serverUrl => "server_url".toList
  | .serverDescription => "server_description".toList
  | .routePrefix => "route_prefix".toList
  | .namespaceName => "namespace".toList
  | .includeEnums => "include_enums".toList
  | .optionalMarker => "optional_marker".toList
  | .logLevel => "log_level".toList

/-- All settings. -/
def all : List SettingKey :=
  [.outputFile, .serviceTitle, .serverUrl, .serverDescription, .routePrefix, .namespaceName,
    .includeEnums, .optionalMarker, .logLevel]

/-- The setting of a name. -/
def ofName? (n : Text) : Option SettingKey :=
  all.find? (fun k => k.name == n)

end SettingKey

/-- Why settings cannot be made. -/
inductive SettingsError
  /-- There is no setting of this name. -/
  | unknown (name : Text)
  /-- The setting must be a text, but its value is a flag. -/
  | notText (key : SettingKey)
  /-- The value of the setting is not allowed. -/
  | invalid (name value reason : Text)
  deriving Repr, DecidableEq

namespace Settings

/-- The levels that the log may be set to. -/
def logLevels : List Text :=
  ["DEBUG", "INFO", "WARNING", "ERROR"].map String.toList

/-- Whether a text may name a namespace: an identifier, with one final line feed or none. -/
def isNamespaceName (t : Text) : Bool :=
  isIdentifier (dropFinalLineFeed t)

/-- Set one setting. -/
def set (s : Settings) (value : SettingValue) : SettingKey → Settings
  | .outputFile => { s with outputFile := value }
  | .serviceTitle => { s with serviceTitle := value }
  | .serverUrl => { s with serverUrl := value }
  | .serverDescription => { s with serverDescription := value }
  | .routePrefix => { s with routePrefix := value }
  | .namespaceName => { s with namespaceName := value }
  | .includeEnums => { s with includeEnums := value }
  | .optionalMarker => { s with optionalMarker := value }
  | .logLevel => { s with logLevel := value }

/-- Set one setting by its name. -/
def assign (s : Settings) (name : Text) (value : SettingValue) : Except SettingsError Settings :=
  match SettingKey.ofName? name with
  | none => .error (.unknown name)
  | some key => .ok (s.set value key)

/-- The value of a setting. -/
def get (s : Settings) : SettingKey → SettingValue
  | .outputFile => s.outputFile
  | .serviceTitle => s.serviceTitle
  | .serverUrl => s.serverUrl
  | .serverDescription => s.serverDescription
  | .routePrefix => s.routePrefix
  | .namespaceName => s.namespaceName
  | .includeEnums => s.includeEnums
  | .optionalMarker => s.optionalMarker
  | .logLevel => s.logLevel

/-- All settings with their names and values. -/
def toAssignments (s : Settings) : Assignments :=
  SettingKey.all.map (fun k => (k.name, s.get k))

/-- Set several settings, one after the other. -/
def assignAll (s : Settings) : Assignments → Except SettingsError Settings
  | [] => .ok s
  | (name, value) :: rest => do
      let s ← s.assign name value
      s.assignAll rest

/-- The variables that the settings look at. -/
def variableNames : List String :=
  ["RAILS_TSP_OUT", "RAILS_TSP_TITLE", "RAILS_TSP_SERVER_URL", "RAILS_TSP_ROUTE",
    "RAILS_TSP_NAMESPACE", "RAILS_TSP_NO_ENUMS", "RAILS_TSP_OPTIONAL_MARKER",
    "RAILS_TSP_LOG_LEVEL"]

/-- Whether an environment value says yes. -/
def saysYes (value : Text) : Bool :=
  ["1", "true", "yes"].any (fun yes => lower value == yes.toList)

/-- A setting under an environment value: the trimmed value, unless it is empty. -/
def overriddenBy (value : Text) (current : SettingValue) : SettingValue :=
  if (trim value).isEmpty then current else .text (trim value)

/-- Take over what the environment sets. -/
def overrideFrom (env : Environment) (s : Settings) : Settings :=
  let name := trim (env.get "RAILS_TSP_NAMESPACE")
  let level := upper (env.get "RAILS_TSP_LOG_LEVEL")
  { s with
    outputFile := overriddenBy (env.get "RAILS_TSP_OUT") s.outputFile
    serviceTitle := overriddenBy (env.get "RAILS_TSP_TITLE") s.serviceTitle
    serverUrl := overriddenBy (env.get "RAILS_TSP_SERVER_URL") s.serverUrl
    routePrefix := overriddenBy (env.get "RAILS_TSP_ROUTE") s.routePrefix
    namespaceName := if isNamespaceName name then .text name else s.namespaceName
    includeEnums := if saysYes (env.get "RAILS_TSP_NO_ENUMS") then .flag false else s.includeEnums
    optionalMarker :=
      if saysYes (env.get "RAILS_TSP_OPTIONAL_MARKER") then .flag true else s.optionalMarker
    logLevel := if logLevels.contains level then .text level else s.logLevel }

/-- The failure of a setting whose value is not allowed. -/
def refusal (s : Settings) (key : SettingKey) (reason : Text) : SettingsError :=
  .invalid key.name (s.get key).toText reason

/-- The text of a setting that must be one, if a rule allows it. -/
def checkText (s : Settings) (key : SettingKey) (allowed : Text → Bool) (reason : Text) :
    Except SettingsError Unit :=
  match s.get key with
  | .flag _ => .error (.notText key)
  | .text t => if allowed t then .ok () else .error (s.refusal key reason)

/-- Whether the output file has a name. -/
def checkOutput (s : Settings) : Except SettingsError Unit :=
  if s.outputFile.isOn then .ok () else .error (s.refusal .outputFile "must not be empty".toList)

/-- Whether the namespace is named by an identifier. -/
def checkNamespace (s : Settings) : Except SettingsError Unit :=
  let reason := "must be an identifier".toList
  if s.namespaceName.isOn then s.checkText .namespaceName isNamespaceName reason
  else .error (s.refusal .namespaceName reason)

/-- Whether the log level is one of the four, in any letter case. -/
def checkLevel (s : Settings) : Except SettingsError Unit :=
  s.checkText .logLevel (fun l => logLevels.contains (upper l))
    ("must be one of ".toList ++ join ", ".toList logLevels)

/-- The settings themselves, if every value is allowed; otherwise the first that is not. -/
def check (s : Settings) : Except SettingsError Settings := do
  s.checkOutput
  s.checkNamespace
  s.checkLevel
  return s

/-- Settings with assignments under an environment. -/
def update (env : Environment) (s : Settings) (assignments : Assignments) :
    Except SettingsError Settings := do
  let s ← s.assignAll assignments
  check (s.overrideFrom env)

/-- The settings that the three layers give. -/
def make (env : Environment) (assignments : Assignments) : Except SettingsError Settings :=
  update env {} assignments

/-- The defaults under an environment. -/
def ofEnvironment (env : Environment) : Settings :=
  overrideFrom env {}

/-! ## The environment alone is never wrong -/

theorem isOn_overriddenBy
    {current : SettingValue}
    (value : Text)
    (h : current.isOn = true) :
    (overriddenBy value current).isOn = true := by
  unfold overriddenBy
  split
  · exact h
  · simp_all [SettingValue.isOn]

theorem contains_upper_of_mem
    {level : Text}
    (h : logLevels.contains level = true) :
    logLevels.contains (upper level) = true := by
  have hall : ∀ l ∈ logLevels, logLevels.contains (upper l) = true := by decide
  exact hall level (by simpa using h)

/-- A text that may name a namespace is not empty. -/
theorem isEmpty_of_isNamespaceName
    {name : Text}
    (h : isNamespaceName name = true) :
    name.isEmpty = false := by
  cases name with
  | nil => simp [isNamespaceName, dropFinalLineFeed, isIdentifier] at h
  | cons c r => rfl

theorem checkNamespace_eq_ok
    {s : Settings} {name : Text}
    (hname : s.namespaceName = .text name)
    (hallowed : isNamespaceName name = true) :
    s.checkNamespace = .ok () := by
  have hnotEmpty := isEmpty_of_isNamespaceName hallowed
  simp [checkNamespace, checkText, get, SettingValue.isOn, hname, hallowed, hnotEmpty]

theorem checkLevel_eq_ok
    {s : Settings} {level : Text}
    (hlevel : s.logLevel = .text level)
    (hlisted : logLevels.contains (upper level) = true) :
    s.checkLevel = .ok () := by
  simp only [checkLevel, checkText, get, hlevel, hlisted, if_true]

theorem check_eq_ok
    {s : Settings}
    (houtput : s.checkOutput = .ok ())
    (hnamespace : s.checkNamespace = .ok ())
    (hlevel : s.checkLevel = .ok ()) :
    s.check = .ok s := by
  simp only [check, houtput, hnamespace, hlevel, bind, Except.bind, pure, Except.pure]

/-- Without assignments, settings are always made. -/
theorem make_nil
    (env : Environment) :
    make env [] = .ok (ofEnvironment env) := by
  have houtput : (ofEnvironment env).outputFile.isOn = true :=
    isOn_overriddenBy _ rfl
  obtain ⟨name, hname, hallowed⟩ :
      ∃ name, (ofEnvironment env).namespaceName = .text name ∧ isNamespaceName name = true := by
    simp only [ofEnvironment, overrideFrom]
    split
    · exact ⟨_, rfl, ‹_›⟩
    · exact ⟨_, rfl, by decide⟩
  obtain ⟨level, hlevel, hlisted⟩ :
      ∃ level, (ofEnvironment env).logLevel = .text level
        ∧ logLevels.contains (upper level) = true := by
    simp only [ofEnvironment, overrideFrom]
    split
    · exact ⟨_, rfl, contains_upper_of_mem ‹_›⟩
    · exact ⟨_, rfl, by decide⟩
  exact check_eq_ok (if_pos houtput) (checkNamespace_eq_ok hname hallowed)
    (checkLevel_eq_ok hlevel hlisted)

end Settings

/-- The message of a settings failure. -/
def SettingsError.message : SettingsError → Text
  | .unknown name => "there is no setting '".toList ++ name ++ ['\x27']
  | .notText key => "setting '".toList ++ key.name ++ "' must be a text".toList
  | .invalid name value reason =>
      "Invalid configuration for '".toList ++ name ++ "' = ".toList ++ value ++ ": ".toList ++ reason

end SchemaSpec
