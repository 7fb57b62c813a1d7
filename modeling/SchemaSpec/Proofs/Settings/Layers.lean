import SchemaSpec.Proofs.Journal.Steps
import SchemaSpec.Proofs.Text.Ends
import SchemaSpec.Settings

/-!
# Layers of settings

Each setting has the value that the environment gives it, or else the last one that it was assigned,
or else its default.  So it does not matter whether settings are made at once or updated later.

* `Assignments.value?`, `Assignments.unknown?`: the value that a name is assigned, and the first name
  that is no setting's.
* `Assignments.merged`: assignments with others over them.
* `environmentValue?`: the valid value that an environment holds for a setting.
* `update_eq`: what an update gives, setting by setting.
* `layers_compose`: making, updating and the environment.
-/

namespace SchemaSpec

open Text

namespace Assignments

/-- The value that is assigned to a name: the last one, if there are several. -/
def value? : Assignments → Text → Option SettingValue
  | [], _ => none
  | (name, value) :: rest, n => (value? rest n).or (if name = n then some value else none)

/-- The names that something is assigned to. -/
def names (a : Assignments) : List Text :=
  a.map Prod.fst

/-- The first name that is no setting's. -/
def unknown? (a : Assignments) : Option Text :=
  a.names.find? (fun n => (SettingKey.ofName? n).isNone)

/-- One more assignment: in the place of those to its name, or behind all others. -/
def put (a : Assignments) (name : Text) (value : SettingValue) : Assignments :=
  if a.names.contains name then a.map (fun p => if p.1 = name then (name, value) else p)
  else a ++ [(name, value)]

/-- Assignments with others over them. -/
def merged (a b : Assignments) : Assignments :=
  b.foldl (fun c p => c.put p.1 p.2) a

section Merging

variable {a : Assignments} {name n : Text} {value : SettingValue}

theorem exists_value?_of_mem
    (h : n ∈ a.names) :
    ∃ v, a.value? n = some v := by
  induction a with
  | nil =>
      cases h
  | cons p a ih =>
      rw [value?]
      rcases List.mem_cons.1 h with rfl | h
      · cases value? a p.1 with
        | none =>
            exact ⟨p.2, by simp⟩
        | some v =>
            exact ⟨v, rfl⟩
      · obtain ⟨v, hv⟩ := ih h
        exact ⟨v, by rw [hv]; rfl⟩

theorem value?_concat :
    value? (a ++ [(name, value)]) n = if name = n then some value else a.value? n := by
  induction a with
  | nil =>
      rw [List.nil_append, value?]
      rfl
  | cons p a ih =>
      rw [List.cons_append, value?, value?, ih]
      split <;> rfl

/-- Exchanging the values of one name changes no other. -/
theorem value?_map :
    value? (a.map (fun p => if p.1 = name then (name, value) else p)) n
      = if name = n then (a.value? n).map (fun _ => value) else a.value? n := by
  induction a with
  | nil =>
      split <;> rfl
  | cons p a ih =>
      rw [List.map_cons, value?, value?, ih]
      by_cases hp : p.1 = name <;> by_cases hn : name = n
      · cases value? a n <;> simp [hp, hn]
      · simp [hp, hn]
      · have hne : p.1 ≠ n := hn ▸ hp
        simp [hn, hne]
      · simp [hp, hn]

theorem value?_put :
    (a.put name value).value? n = if name = n then some value else a.value? n := by
  unfold put
  split
  · rename_i hmem
    obtain ⟨v, hv⟩ := exists_value?_of_mem (List.contains_iff_mem.1 hmem)
    rw [value?_map]
    split
    · rename_i hn
      rw [← hn, hv]
      rfl
    · rfl
  · exact value?_concat

/-- Each name has the value that is put over it, or else the one below. -/
theorem value?_merged
    (a b : Assignments)
    (n : Text) :
    (a.merged b).value? n = (b.value? n).or (a.value? n) := by
  induction b generalizing a with
  | nil =>
      rfl
  | cons p b ih =>
      have hstep : a.merged (p :: b) = (a.put p.1 p.2).merged b := rfl
      rw [hstep, ih, value?_put, value?, Option.or_assoc]
      split <;> rfl

theorem names_put :
    (a.put name value).names
      = if a.names.contains name then a.names else a.names ++ [name] := by
  have hfst : Prod.fst ∘ (fun p : Text × SettingValue => if p.1 = name then (name, value) else p)
      = Prod.fst := by
    funext p
    by_cases hp : p.1 = name <;> simp [hp]
  unfold put
  split
  · rw [names, List.map_map, hfst]
    rfl
  · exact List.map_append

theorem unknown?_put :
    (a.put name value).unknown?
      = a.unknown?.or (if (SettingKey.ofName? name).isNone then some name else none) := by
  unfold unknown?
  rw [names_put]
  split
  · rename_i hmem
    by_cases hname : (SettingKey.ofName? name).isNone = true
    · have hsome : (a.names.find? (fun n => (SettingKey.ofName? n).isNone)).isSome = true :=
        List.find?_isSome.2 ⟨name, List.contains_iff_mem.1 hmem, hname⟩
      obtain ⟨m, hm⟩ := Option.isSome_iff_exists.1 hsome
      rw [hm]
      rfl
    · rw [if_neg hname, Option.or_none]
  · rw [List.find?_append, List.find?_singleton]

/-- The first unknown name of assignments is the first one of those below, if they have one. -/
theorem unknown?_merged
    (a b : Assignments) :
    (a.merged b).unknown? = a.unknown?.or b.unknown? := by
  induction b generalizing a with
  | nil =>
      exact Option.or_none.symm
  | cons p b ih =>
      have hstep : a.merged (p :: b) = (a.put p.1 p.2).merged b := rfl
      have hcons : unknown? (p :: b)
          = (if (SettingKey.ofName? p.1).isNone then some p.1 else none).or (unknown? b) := by
        unfold unknown? names
        rw [List.map_cons, List.find?_cons]
        cases (SettingKey.ofName? p.1).isNone <;> rfl
      rw [hstep, ih, unknown?_put, hcons, Option.or_assoc]

end Merging

end Assignments

namespace Settings

section Values

/-- Settings with given values. -/
def ofValues (values : SettingKey → SettingValue) : Settings where
  outputFile := values .outputFile
  serviceTitle := values .serviceTitle
  serverUrl := values .serverUrl
  serverDescription := values .serverDescription
  routePrefix := values .routePrefix
  namespaceName := values .namespaceName
  includeEnums := values .includeEnums
  optionalMarker := values .optionalMarker
  logLevel := values .logLevel

@[simp] theorem get_ofValues
    (values : SettingKey → SettingValue)
    (key : SettingKey) :
    (ofValues values).get key = values key := by
  cases key <;> rfl

@[simp] theorem ofValues_get
    (s : Settings) :
    ofValues s.get = s := rfl

theorem ext_get
    {s t : Settings}
    (h : ∀ key, s.get key = t.get key) :
    s = t := by
  rw [← ofValues_get s, ← ofValues_get t, funext h]

theorem get_set
    (s : Settings)
    (value : SettingValue)
    (key k : SettingKey) :
    (s.set value key).get k = if k = key then value else s.get k := by
  cases key <;> cases k <;> rfl

end Values

/-! ## Assignments -/

section Assigning

theorem ofName?_name
    (key : SettingKey) :
    SettingKey.ofName? key.name = some key := by
  cases key <;> decide

theorem ofName?_eq_some_iff
    {n : Text}
    {key : SettingKey} :
    SettingKey.ofName? n = some key ↔ key.name = n := by
  constructor
  · intro h
    simpa using List.find?_some h
  · rintro rfl
    exact ofName?_name key

/-- The settings after assignments: each has the value assigned to its name, if there is one.  The
first name that is no setting's is told. -/
theorem assignAll_eq
    (s : Settings)
    (a : Assignments) :
    s.assignAll a = match a.unknown? with
      | some n => .error (.unknown n)
      | none => .ok (ofValues (fun key => (a.value? key.name).getD (s.get key))) := by
  induction a generalizing s with
  | nil =>
      rfl
  | cons p a ih =>
      obtain ⟨n, value⟩ := p
      unfold assignAll assign Assignments.unknown? Assignments.names
      rw [List.map_cons, List.find?_cons]
      cases hkey : SettingKey.ofName? n with
      | none =>
          rfl
      | some key =>
          have hname : key.name = n := ofName?_eq_some_iff.1 hkey
          have hvalues : (fun k => (Assignments.value? a k.name).getD ((s.set value key).get k))
              = fun k => (Assignments.value? ((n, value) :: a) k.name).getD (s.get k) := by
            funext k
            have hk : n = k.name ↔ k = key := by
              rw [← ofName?_eq_some_iff.trans eq_comm, hkey, Option.some_inj, eq_comm]
            rw [get_set, Assignments.value?]
            by_cases heq : k = key
            · cases Assignments.value? a k.name <;> simp [hk.2 heq, heq]
            · cases Assignments.value? a k.name <;> simp [heq, mt hk.1 heq]
          have hrest := ih (s.set value key)
          rw [hvalues] at hrest
          exact hrest

end Assigning

/-! ## The environment -/

/-- The valid value that an environment holds for a setting.  A text is trimmed and is valid unless
nothing is left; a namespace must be an identifier, too.  A switch is valid if it says yes, a log
level if it is one of the four in upper case. -/
def environmentValue? (env : Environment) : SettingKey → Option SettingValue
  | .outputFile => shownText? (env.get "RAILS_TSP_OUT")
  | .serviceTitle => shownText? (env.get "RAILS_TSP_TITLE")
  | .serverUrl => shownText? (env.get "RAILS_TSP_SERVER_URL")
  | .serverDescription => none
  | .routePrefix => shownText? (env.get "RAILS_TSP_ROUTE")
  | .namespaceName =>
      let name := trim (env.get "RAILS_TSP_NAMESPACE")
      if isIdentifier name then some (.text name) else none
  | .includeEnums => if saysYes (env.get "RAILS_TSP_NO_ENUMS") then some (.flag false) else none
  | .optionalMarker =>
      if saysYes (env.get "RAILS_TSP_OPTIONAL_MARKER") then some (.flag true) else none
  | .logLevel =>
      let level := upper (env.get "RAILS_TSP_LOG_LEVEL")
      if logLevels.contains level then some (.text level) else none
where
  /-- A text without the blanks around it, unless it is blank. -/
  shownText? (t : Text) : Option SettingValue :=
    if trim t = [] then none else some (.text (trim t))

theorem overriddenBy_eq
    (t : Text)
    (current : SettingValue) :
    overriddenBy t current = (environmentValue?.shownText? t).getD current := by
  unfold overriddenBy environmentValue?.shownText?
  cases trim t <;> rfl

/-- A trimmed text names a namespace just if it is an identifier. -/
theorem isNamespaceName_trim
    (t : Text) :
    isNamespaceName (trim t) = isIdentifier (trim t) := by
  have hlast : (trim t).getLast? ≠ some '\n' := by
    intro h
    have hblank := not_isBlank_last_of_trim_eq (trim_trim t) h
    exact absurd hblank (by decide)
  unfold isNamespaceName
  rw [dropFinalLineFeed_eq_self hlast]

/-- The environment wins over what is there, setting by setting. -/
theorem get_overrideFrom
    (env : Environment)
    (s : Settings)
    (key : SettingKey) :
    (s.overrideFrom env).get key = (environmentValue? env key).getD (s.get key) := by
  cases key with
  | outputFile => exact overriddenBy_eq _ _
  | serviceTitle => exact overriddenBy_eq _ _
  | serverUrl => exact overriddenBy_eq _ _
  | serverDescription => rfl
  | routePrefix => exact overriddenBy_eq _ _
  | namespaceName =>
      simp only [get, overrideFrom, environmentValue?, isNamespaceName_trim]
      split <;> rfl
  | includeEnums =>
      simp only [get, overrideFrom, environmentValue?]
      split <;> rfl
  | optionalMarker =>
      simp only [get, overrideFrom, environmentValue?]
      split <;> rfl
  | logLevel =>
      simp only [get, overrideFrom, environmentValue?]
      split <;> rfl

/-! ## Updates -/

/-- The value of a setting after an update. -/
def settled (env : Environment) (a : Assignments) (s : Settings) (key : SettingKey) : SettingValue :=
  (environmentValue? env key).getD ((a.value? key.name).getD (s.get key))

/-- An update tells the first name that is no setting's, or checks the values that come out. -/
theorem update_eq
    (env : Environment)
    (s : Settings)
    (a : Assignments) :
    update env s a = match a.unknown? with
      | some n => .error (.unknown n)
      | none => (ofValues (settled env a s)).check := by
  have hvalues : ∀ values : SettingKey → SettingValue, (ofValues values).overrideFrom env
      = ofValues (fun key => (environmentValue? env key).getD (values key)) := fun values =>
    ext_get (fun key => by rw [get_overrideFrom, get_ofValues, get_ofValues])
  unfold update
  rw [assignAll_eq]
  cases a.unknown? with
  | some n =>
      rfl
  | none =>
      exact congrArg check (hvalues _)

theorem eq_of_check
    {s t : Settings}
    (h : s.check = .ok t) :
    t = s := by
  unfold check at h
  obtain ⟨_, -, h⟩ := except_bind_eq_ok.1 h
  obtain ⟨_, -, h⟩ := except_bind_eq_ok.1 h
  obtain ⟨_, -, h⟩ := except_bind_eq_ok.1 h
  exact (Except.ok.inj h).symm

/-- Settings that an update gives have the values that come out of it. -/
theorem update_eq_ok_iff
    {env : Environment}
    {s t : Settings}
    {a : Assignments} :
    update env s a = .ok t ↔
      a.unknown? = none ∧ t.check = .ok t ∧ ∀ key, t.get key = settled env a s key := by
  rw [update_eq]
  cases a.unknown? with
  | some n =>
      simp
  | none =>
      constructor
      · intro h
        obtain rfl := eq_of_check h
        exact ⟨rfl, h, get_ofValues _⟩
      · rintro ⟨-, hcheck, hvalues⟩
        have ht : ofValues (settled env a s) = t :=
          ext_get (fun key => by rw [get_ofValues, hvalues])
        rw [← ht] at hcheck ⊢
        exact hcheck

section Composing

variable {env : Environment} {s : Settings} {a : Assignments}

/-- What is settled once stays settled: assignments over it come to the same as assignments over
those that it was settled from. -/
theorem settled_settled
    {start : Settings}
    (h : ∀ key, s.get key = settled env a start key)
    (b : Assignments) :
    settled env b s = settled env (a.merged b) start := by
  funext key
  unfold settled
  rw [h, settled, Assignments.value?_merged]
  cases environmentValue? env key <;> cases b.value? key.name <;> rfl

/-- An update of settings that were made is the same as making them with both assignments. -/
theorem update_eq_make
    (h : make env a = .ok s)
    (b : Assignments) :
    update env s b = make env (a.merged b) := by
  obtain ⟨hknown, -, hvalues⟩ := update_eq_ok_iff.1 h
  unfold make
  rw [update_eq, update_eq, Assignments.unknown?_merged, hknown, settled_settled hvalues]
  rfl

/-- An update makes settings anew from all that they hold, with the assignments over it. -/
theorem update_eq_make_toAssignments
    (env : Environment)
    (s : Settings)
    (b : Assignments) :
    update env s b = make env (s.toAssignments.merged b) := by
  have hknown : s.toAssignments.unknown? = none := by
    have hnames : s.toAssignments.names = SettingKey.all.map SettingKey.name := rfl
    unfold Assignments.unknown?
    rw [hnames]
    decide
  have hvalue : ∀ key : SettingKey, s.toAssignments.value? key.name = some (s.get key) := by
    intro key
    cases key <;> rfl
  have hsettled : settled env b s = settled env (s.toAssignments.merged b) {} := by
    funext key
    unfold settled
    rw [Assignments.value?_merged, hvalue]
    cases b.value? key.name <;> rfl
  unfold make
  rw [update_eq, update_eq, Assignments.unknown?_merged, hknown, hsettled]
  rfl

/-- A chain of updates that go through is the same as making the settings with all assignments. -/
theorem foldlM_update_eq_make
    {t : Settings}
    {bs : List Assignments}
    (h : make env a = .ok s)
    (hchain : bs.foldlM (update env) s = .ok t) :
    make env (bs.foldl Assignments.merged a) = .ok t := by
  induction bs generalizing a s with
  | nil =>
      obtain rfl := Except.ok.inj hchain
      exact h
  | cons b bs ih =>
      rw [List.foldlM_cons] at hchain
      obtain ⟨next, hnext, hrest⟩ := except_bind_eq_ok.1 hchain
      rw [update_eq_make h] at hnext
      exact ih hnext hrest

/-- An environment matters by its valid values only. -/
theorem update_congr
    {other : Environment}
    (h : ∀ key, environmentValue? other key = environmentValue? env key) :
    update other = update env := by
  funext s a
  have hsettled : settled other a s = settled env a s := by
    funext key
    unfold settled
    rw [h]
  rw [update_eq, update_eq, hsettled]

/-- How settings that were made under an environment go on and what they hold. -/
structure IsLayered (env : Environment) (a : Assignments) (s : Settings) : Prop where
  /-- To update them is to make them with the assignments over those that they were made with. -/
  update_eq : ∀ b, update env s b = make env (a.merged b)
  /-- An update with nothing gives them again. -/
  update_nil : update env s [] = .ok s
  /-- A chain of updates that go through is the same as making them with all assignments. -/
  chain_eq : ∀ (bs : List Assignments) (t : Settings), bs.foldlM (update env) s = .ok t →
    make env (bs.foldl Assignments.merged a) = .ok t
  /-- A valid value of the environment wins over every assignment. -/
  environment_wins : ∀ key value, environmentValue? env key = some value → s.get key = value
  /-- Without one, a setting has the value that it was assigned, or else its default. -/
  assigned : ∀ key, environmentValue? env key = none →
    s.get key = (a.value? key.name).getD (({} : Settings).get key)

/-- Settings are layers: without assignments they are always made, an update makes them anew and comes
to the same as all assignments at once, and the environment counts by its valid values, over all
assignments. -/
theorem layers_compose
    (env : Environment) :
    (∃ s, make env [] = .ok s)
      ∧ (∀ s b, update env s b = make env (s.toAssignments.merged b))
      ∧ (∀ a s, make env a = .ok s → IsLayered env a s)
      ∧ ∀ other, (∀ key, environmentValue? other key = environmentValue? env key) →
        update other = update env := by
  refine ⟨⟨_, make_nil env⟩, update_eq_make_toAssignments env, fun a s h => ?_,
    fun other => update_congr⟩
  obtain ⟨-, -, hvalues⟩ := update_eq_ok_iff.1 h
  exact {
    update_eq := update_eq_make h
    update_nil := (update_eq_make h []).trans h
    chain_eq := fun bs t => foldlM_update_eq_make h
    environment_wins := fun key value hkey => by rw [hvalues, settled, hkey]; rfl
    assigned := fun key hkey => by rw [hvalues, settled, hkey]; rfl }

end Composing

/-- An environment with a valid title and a namespace that is not valid. -/
def shopEnvironment : Environment :=
  [("RAILS_TSP_TITLE".toList, " Shop ".toList), ("RAILS_TSP_NAMESPACE".toList, "my shop".toList)]

/-- Assignments to a title and a namespace. -/
def backendAssignments : Assignments :=
  [("namespace".toList, .text "Backend".toList), ("service_title".toList, .text "Backend".toList)]

theorem layers_compose_shop :
    make shopEnvironment backendAssignments
        = .ok { serviceTitle := .text "Shop".toList, namespaceName := .text "Backend".toList }
      ∧ IsLayered shopEnvironment backendAssignments
        { serviceTitle := .text "Shop".toList, namespaceName := .text "Backend".toList }
      ∧ update (shopEnvironment.take 1) = update shopEnvironment := by
  have hmade : make shopEnvironment backendAssignments
      = .ok { serviceTitle := .text "Shop".toList, namespaceName := .text "Backend".toList } := by
    decide +kernel
  have hsame : ∀ key, environmentValue? (shopEnvironment.take 1) key
      = environmentValue? shopEnvironment key := by
    intro key
    cases key <;> decide +kernel
  obtain ⟨-, -, hlayered, hcongr⟩ := layers_compose shopEnvironment
  exact ⟨hmade, hlayered _ _ hmade, hcongr _ hsame⟩

end Settings
end SchemaSpec
