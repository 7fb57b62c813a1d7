import SchemaSpec.Proofs.Settings.Layers
import SchemaSpec.Proofs.Text.Identifiers

/-!
# Settings that exist

Settings are checked whenever they are made or updated, so that all that come out are allowed.  What
is allowed is not quite what is expected: a line feed may stand behind the name of a namespace.

* `IsValid`: what is expected of settings.
* `IsKept`: valid settings come out, or a value is refused.
* `Breach`: the values with which neither is so.
* `isKept_run_iff`: a chain of steps, whatever the environments are, keeps the promise at each step
  exactly if there is no breach.
* `namespace_with_lineFeed`: a namespace that is let through.
-/

namespace SchemaSpec
namespace Settings

open Text

/-- What is expected of settings: an output file, a log level that is one of the four in any letter
case, and an identifier for the namespace. -/
structure IsValid (s : Settings) : Prop where
  output : s.outputFile.isOn = true
  level : ∃ level, s.logLevel = .text level ∧ upper level ∈ logLevels
  named : ∃ name, s.namespaceName = .text name ∧ isIdentifier name = true

/-- A failure that refuses the value of a setting. -/
def IsRefusal : SettingsError → Prop
  | .invalid .. => True
  | _ => False

/-- Valid settings come out, or a setting is refused for its value. -/
def IsKept : Except SettingsError Settings → Prop
  | .ok s => s.IsValid
  | .error e => IsRefusal e

/-- Values that are not refused, but do not make valid settings either. -/
inductive Breach (values : SettingKey → SettingValue) : Prop
  /-- The namespace is a flag that is on. -/
  | namespaceFlag
      (houtput : (values .outputFile).isOn = true)
      (hname : values .namespaceName = .flag true)
  /-- The log level is a flag. -/
  | levelFlag
      {name : Text}
      {level : Bool}
      (houtput : (values .outputFile).isOn = true)
      (hname : values .namespaceName = .text name)
      (hallowed : isNamespaceName name = true)
      (hlevel : values .logLevel = .flag level)
  /-- The namespace is an identifier with a line feed behind it. -/
  | finalLineFeed
      {name level : Text}
      (houtput : (values .outputFile).isOn = true)
      (hname : values .namespaceName = .text (name ++ ['\n']))
      (hidentifier : isIdentifier name = true)
      (hlevel : values .logLevel = .text level)
      (hlisted : upper level ∈ logLevels)

/-- A construction or an update: the environment that it reads, and what it assigns. -/
abbrev Step := Environment × Assignments

/-- Make settings by the first of some steps, and update them by the others. -/
def run (s : Settings) (steps : List Step) : Except SettingsError Settings :=
  steps.foldlM (fun s step => update step.1 s step.2) s

/-- The values of settings after a step: each is the one that the environment holds, or else the one
that is assigned, or else the one before. -/
def Step.settle (values : SettingKey → SettingValue) (step : Step) (key : SettingKey) :
    SettingValue :=
  (environmentValue? step.1 key).getD ((step.2.value? key.name).getD (values key))

/-- The values that settings come to by some steps, from the defaults. -/
def settledBy (steps : List Step) : SettingKey → SettingValue :=
  steps.foldl Step.settle ({} : Settings).get

section Checking

variable {s : Settings}

/-- A text may name a namespace if it is an identifier, with a line feed behind it or without. -/
theorem isNamespaceName_eq_true_iff
    {t : Text} :
    isNamespaceName t = true
      ↔ isIdentifier t = true ∨ ∃ name, t = name ++ ['\n'] ∧ isIdentifier name = true :=
  isIdentifier_dropFinalLineFeed_iff

/-- A namespace is refused if it may not name one; a flag that is on is no text to look at. -/
theorem checkNamespace_eq
    (s : Settings) :
    s.checkNamespace = match s.namespaceName with
      | .flag true => .error (.notText .namespaceName)
      | .flag false => .error (s.refusal .namespaceName "must be an identifier".toList)
      | .text name =>
          if isNamespaceName name then .ok ()
          else .error (s.refusal .namespaceName "must be an identifier".toList) := by
  unfold checkNamespace checkText
  dsimp only [get]
  cases s.namespaceName with
  | flag b =>
      cases b <;> rfl
  | text name =>
      cases name <;> rfl

/-- A log level is refused if it is not one of the four; a flag is no text to look at. -/
theorem checkLevel_eq
    (s : Settings) :
    s.checkLevel = match s.logLevel with
      | .flag _ => .error (.notText .logLevel)
      | .text level =>
          if upper level ∈ logLevels then .ok ()
          else .error (s.refusal .logLevel ("must be one of ".toList ++ join ", ".toList logLevels)) := by
  unfold checkLevel checkText
  dsimp only [get]
  cases s.logLevel with
  | flag b =>
      rfl
  | text level =>
      simp only [List.contains_iff_mem]

/-- With a breach, no value is refused. -/
theorem Breach.not_refused
    {values : SettingKey → SettingValue}
    (h : Breach values) :
    (values .outputFile).isOn = true
      ∧ values .namespaceName ≠ .flag false
      ∧ (∀ name, values .namespaceName = .text name → isNamespaceName name = true)
      ∧ (values .namespaceName ≠ .flag true →
        ∀ level, values .logLevel = .text level → upper level ∈ logLevels) := by
  cases h with
  | namespaceFlag houtput hname =>
      simp [houtput, hname]
  | levelFlag houtput hname hallowed hlevel =>
      simp [houtput, hname, hallowed, hlevel]
  | @finalLineFeed name level houtput hname hidentifier hlevel hlisted =>
      have hallowed : isNamespaceName (name ++ ['\n']) = true :=
        isNamespaceName_eq_true_iff.2 (Or.inr ⟨name, rfl, hidentifier⟩)
      simp [houtput, hname, hallowed, hlevel, hlisted]

/-- Settings that pass the check are valid unless a line feed stands behind the namespace. -/
theorem isValid_iff
    {name level : Text}
    (houtput : s.outputFile.isOn = true)
    (hname : s.namespaceName = .text name)
    (hallowed : isNamespaceName name = true)
    (hlevel : s.logLevel = .text level)
    (hlisted : upper level ∈ logLevels) :
    s.IsValid ↔ ¬ Breach s.get := by
  constructor
  · rintro ⟨-, -, ⟨m, hm, hidentifier⟩⟩ h
    cases h with
    | namespaceFlag _ hflag =>
        rw [get, hname] at hflag
        cases hflag
    | levelFlag _ _ _ hflag =>
        rw [get, hlevel] at hflag
        cases hflag
    | finalLineFeed _ hline =>
        rw [get, hm] at hline
        have hfeed : '\n' ∈ m := by
          rw [SettingValue.text.inj hline]
          exact List.mem_append_right _ List.mem_cons_self
        exact not_mem_of_isIdentifier hidentifier (by decide) hfeed
  · intro h
    refine ⟨houtput, ⟨level, hlevel, hlisted⟩, name, hname, ?_⟩
    rcases isNamespaceName_eq_true_iff.1 hallowed with hidentifier | ⟨m, rfl, hidentifier⟩
    · exact hidentifier
    · exact absurd (.finalLineFeed houtput hname hidentifier hlevel hlisted) h

/-- Settings keep the promise exactly if their values are no breach. -/
theorem isKept_check_iff
    (s : Settings) :
    IsKept s.check ↔ ¬ Breach s.get := by
  unfold check checkOutput
  cases houtput : s.outputFile.isOn with
  | false =>
      exact iff_of_true trivial (fun h => Bool.false_ne_true (houtput.symm.trans h.not_refused.1))
  | true =>
      rw [checkNamespace_eq]
      cases hname : s.namespaceName with
      | flag b =>
          cases b with
          | false =>
              exact iff_of_true trivial (fun h => h.not_refused.2.1 hname)
          | true =>
              exact iff_of_false id (not_not.2 (.namespaceFlag houtput hname))
      | text name =>
          by_cases hallowed : isNamespaceName name = true
          · simp only [hallowed, if_true]
            rw [checkLevel_eq]
            cases hlevel : s.logLevel with
            | flag b =>
                exact iff_of_false id (not_not.2 (.levelFlag houtput hname hallowed hlevel))
            | text level =>
                by_cases hlisted : upper level ∈ logLevels
                · simp only [hlisted, if_true]
                  exact isValid_iff houtput hname hallowed hlevel hlisted
                · have hnone : ¬ Breach s.get := fun h =>
                    hlisted (h.not_refused.2.2.2 (by simp [get, hname]) level hlevel)
                  simp only [hlisted, if_false]
                  exact iff_of_true trivial hnone
          · have hnone : ¬ Breach s.get := fun h => hallowed (h.not_refused.2.2.1 name hname)
            simp only [hallowed]
            exact iff_of_true trivial hnone

end Checking

/-! ## Chains of steps -/

section Running

variable {env : Environment} {s t : Settings} {a : Assignments} {steps front : List Step}

theorem isKept_update_iff
    (env : Environment)
    (s : Settings)
    (a : Assignments) :
    IsKept (update env s a) ↔ a.unknown? = none ∧ ¬ Breach (settled env a s) := by
  rw [update_eq]
  cases a.unknown? with
  | some n =>
      simp [IsKept, IsRefusal]
  | none =>
      have hget : (ofValues (settled env a s)).get = settled env a s := funext (get_ofValues _)
      simp [isKept_check_iff, hget]

theorem run_concat
    (s : Settings)
    (front : List Step)
    (env : Environment)
    (a : Assignments) :
    run s (front ++ [(env, a)]) = (run s front >>= fun t => update env t a) := by
  unfold run
  rw [List.foldlM_append]
  exact bind_congr (fun t => bind_pure (update env t a))

/-- Settings hold what the steps that led to them come to. -/
theorem get_of_run
    (h : run s steps = .ok t) :
    t.get = steps.foldl Step.settle s.get := by
  induction steps generalizing s with
  | nil =>
      rw [Except.ok.inj h]
      rfl
  | cons step steps ih =>
      obtain ⟨next, hnext, hrest⟩ := except_bind_eq_ok.1 h
      have hget : next.get = Step.settle s.get step := funext (update_eq_ok_iff.1 hnext).2.2
      rw [ih hrest, hget]
      rfl

theorem exists_of_checkNamespace
    (h : s.checkNamespace = .ok ()) :
    ∃ name, s.namespaceName = .text name ∧ isNamespaceName name = true := by
  rw [checkNamespace_eq] at h
  cases hname : s.namespaceName with
  | flag b =>
      rw [hname] at h
      cases b <;> cases h
  | text name =>
      rw [hname] at h
      dsimp only at h
      split at h
      · exact ⟨name, rfl, ‹_›⟩
      · cases h

theorem exists_of_checkLevel
    (h : s.checkLevel = .ok ()) :
    ∃ level, s.logLevel = .text level ∧ upper level ∈ logLevels := by
  rw [checkLevel_eq] at h
  cases hlevel : s.logLevel with
  | flag b =>
      rw [hlevel] at h
      cases h
  | text level =>
      rw [hlevel] at h
      dsimp only at h
      split at h
      · exact ⟨level, rfl, ‹_›⟩
      · cases h

/-- What passes the check has an output file and one of the log levels, and for the namespace an
identifier, with a line feed behind it or without. -/
theorem of_check_eq_ok
    (h : s.check = .ok t) :
    s.outputFile.isOn = true
      ∧ (∃ level, s.logLevel = .text level ∧ upper level ∈ logLevels)
      ∧ ∃ name, isIdentifier name = true
        ∧ (s.namespaceName = .text name ∨ s.namespaceName = .text (name ++ ['\n'])) := by
  obtain ⟨_, houtput, h⟩ := except_bind_eq_ok.1 h
  obtain ⟨_, hnamespace, h⟩ := except_bind_eq_ok.1 h
  obtain ⟨_, hlevel, h⟩ := except_bind_eq_ok.1 h
  refine ⟨?_, exists_of_checkLevel hlevel, ?_⟩
  · unfold checkOutput at houtput
    split at houtput
    · assumption
    · cases houtput
  · obtain ⟨name, hname, hallowed⟩ := exists_of_checkNamespace hnamespace
    rcases isNamespaceName_eq_true_iff.1 hallowed with hidentifier | ⟨m, rfl, hidentifier⟩
    · exact ⟨name, hidentifier, Or.inl hname⟩
    · exact ⟨m, hidentifier, Or.inr hname⟩

/-- Each step of a construction with updates, whatever the environments are, gives valid settings or
refuses a value, unless a name is no setting's or there is a breach.  What it gives is valid but for a
line feed behind the namespace. -/
theorem isKept_run_iff
    (hfront : run {} front = .ok s)
    (env : Environment)
    (a : Assignments) :
    (IsKept (run {} (front ++ [(env, a)]))
        ↔ a.unknown? = none ∧ ¬ Breach (settledBy (front ++ [(env, a)])))
      ∧ ∀ t, run {} (front ++ [(env, a)]) = .ok t →
        t.outputFile.isOn = true
          ∧ (∃ level, t.logLevel = .text level ∧ upper level ∈ logLevels)
          ∧ ∃ name, isIdentifier name = true
            ∧ (t.namespaceName = .text name ∨ t.namespaceName = .text (name ++ ['\n'])) := by
  have hstep : run {} (front ++ [(env, a)]) = update env s a := by
    rw [run_concat, hfront]
    rfl
  have hsettled : settledBy (front ++ [(env, a)]) = settled env a s := by
    unfold settledBy
    rw [List.foldl_append, ← get_of_run hfront]
    rfl
  rw [hstep, hsettled]
  exact ⟨isKept_update_iff env s a, fun t ht => of_check_eq_ok (update_eq_ok_iff.1 ht).2.1⟩

end Running

/-- Assignments of a namespace with a line feed behind it. -/
def brokenNamespace : Assignments :=
  [("namespace".toList, .text "Api\n".toList)]

theorem isKept_run_iff_backend :
    run {} [(shopEnvironment, backendAssignments)]
        = .ok { serviceTitle := .text "Shop".toList, namespaceName := .text "Backend".toList }
      ∧ ¬ IsKept (run {} ([(shopEnvironment, backendAssignments)] ++ [([], brokenNamespace)])) := by
  have hfront : run {} [(shopEnvironment, backendAssignments)]
      = .ok { serviceTitle := .text "Shop".toList, namespaceName := .text "Backend".toList } := by
    decide +kernel
  obtain ⟨hkept, -⟩ := isKept_run_iff hfront [] brokenNamespace
  refine ⟨hfront, fun h => (hkept.1 h).2 ?_⟩
  exact @Breach.finalLineFeed _ "Api".toList "INFO".toList (by decide +kernel) (by decide +kernel)
    (by decide) (by decide +kernel) (by decide)

/-- A namespace with a line feed behind it is let through. -/
theorem namespace_with_lineFeed :
    make [] brokenNamespace = .ok { namespaceName := .text "Api\n".toList }
      ∧ isIdentifier "Api\n".toList = false
      ∧ ¬ IsKept (make [] brokenNamespace) := by
  have hmade : make [] brokenNamespace = .ok { namespaceName := .text "Api\n".toList } := by
    decide +kernel
  refine ⟨hmade, by decide, fun h => ?_⟩
  rw [hmade] at h
  obtain ⟨name, hname, hidentifier⟩ := h.named
  obtain rfl := SettingValue.text.inj hname
  exact absurd hidentifier (by decide)

end Settings
end SchemaSpec
