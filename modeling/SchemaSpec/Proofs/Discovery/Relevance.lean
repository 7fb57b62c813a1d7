import SchemaSpec.Proofs.Enumeration.OneLine
import SchemaSpec.Discovery.ModelFiles

/-!
# Reading the relevant files

Of the model files, those of the models of the tables are read, in their order, and no others.

* `asked`: the files that a reader is asked for, as a reader with effects writes them down.
* `visits_cons`: one step, the visit of the next relevant file.
* `visits_append`, `visits_of_survived`, `visits_of_stopping`: the visits of files that do not end
  them, and those up to the first file that does.
* `relevantEnums_eq`: how a run ends and what it leaves, by its visits.
* `relevantEnums_run`: what is asked for, found and reported, and how a run ends.
-/

namespace SchemaSpec
namespace ModelFiles

open Text

variable {ε : Type}

/-! ## Visits with effects -/

/-- A reader that writes down what it is asked for. -/
def recorded (read : Text → Except (Fault ε) Text) (p : Text) :
    StateM (List Text) (Except (Fault ε) Text) :=
  fun asked => (read p, asked ++ [p])

/-- The files that a reader is asked for, one after the other. -/
def asked (tableNames : List Text) (read : Text → Except (Fault ε) Text) (paths : List Text) :
    List Text :=
  (visitsWith (relevantModels tableNames) (recorded read) paths []).2

/-- One visit with a reader that writes down what it is asked for. -/
theorem visitsWith_recorded_cons
    {models : List Text}
    {p : Text}
    (hp : models.contains (modelOfPath p) = true)
    (read : Text → Except (Fault ε) Text)
    (ps before : List Text) :
    let behind := visitsWith models (recorded read) ps (before ++ [p])
    visitsWith models (recorded read) (p :: ps) before
      = match read p with
        | .ok source =>
            (.found p (EnumDecl.ofSource (modelOfPath p) source) :: behind.1, behind.2)
        | .error (.unreadable reason) => (.unreadable p reason :: behind.1, behind.2)
        | .error (.other e) => ([.stopped p e], before ++ [p]) := by
  intro behind
  rw [visitsWith, if_pos hp]
  change (match read p with
    | .ok source => (do
        let rest ← visitsWith models (recorded read) ps
        return .found p (EnumDecl.ofSource (modelOfPath p) source) :: rest)
    | .error (.unreadable reason) => (do
        let rest ← visitsWith models (recorded read) ps
        return .unreadable p reason :: rest)
    | .error (.other e) => pure [.stopped p e] : StateM (List Text) (List (Visit ε)))
      (before ++ [p]) = _
  cases read p with
  | ok source =>
      rfl
  | error fault =>
      cases fault <;> rfl

/-- A reader that writes down what it is asked for makes the same visits, one for each file. -/
theorem visitsWith_recorded
    (models : List Text)
    (read : Text → Except (Fault ε) Text)
    (paths before : List Text) :
    visitsWith models (recorded read) paths before
      = (visits models read paths, before ++ (visits models read paths).map Visit.path) := by
  induction paths generalizing before with
  | nil =>
      rw [visits_nil, List.map_nil, List.append_nil]
      rfl
  | cons p ps ih =>
      by_cases hp : models.contains (modelOfPath p) = true
      · rw [visitsWith_recorded_cons hp, visits_step, if_pos hp, ih]
        cases read p with
        | ok source =>
            simp [Visit.path]
        | error fault =>
            cases fault <;> simp [Visit.path]
      · rw [visitsWith, visits_step, if_neg hp, if_neg hp, ih]

theorem asked_eq
    (tableNames : List Text)
    (read : Text → Except (Fault ε) Text)
    (paths : List Text) :
    asked tableNames read paths
      = (visits (relevantModels tableNames) read paths).map Visit.path := by
  rw [asked, visitsWith_recorded, List.nil_append]

/-! ## The relevant files -/

/-- A file is relevant if its name is the model name of one of the tables. -/
def IsRelevant (tableNames : List Text) (path : Text) : Prop :=
  ∃ table ∈ tableNames, modelOfPath path = Naming.modelName table

instance (tableNames : List Text) : DecidablePred (IsRelevant tableNames) := fun path =>
  inferInstanceAs (Decidable (∃ table ∈ tableNames, modelOfPath path = Naming.modelName table))

/-- The relevant files among some. -/
def relevantFiles (tableNames paths : List Text) : List Text :=
  paths.filter (fun p => decide (IsRelevant tableNames p))

theorem contains_relevantModels_iff
    {tableNames : List Text}
    {p : Text} :
    (relevantModels tableNames).contains (modelOfPath p) = true ↔ IsRelevant tableNames p := by
  rw [List.contains_iff_mem, relevantModels, List.mem_map]
  exact exists_congr (fun table => and_congr_right (fun _ => eq_comm))

/-! ## One visit -/

/-- Reading a file does not end the visits: there is a text, or the file is unreadable. -/
def IsSurvived (read : Text → Except (Fault ε) Text) (p : Text) : Prop :=
  ∀ e, read p ≠ .error (.other e)

/-- What happens at a relevant file. -/
def visitOf (read : Text → Except (Fault ε) Text) (p : Text) : Visit ε :=
  match read p with
  | .ok source => .found p (EnumDecl.ofSource (modelOfPath p) source)
  | .error (.unreadable reason) => .unreadable p reason
  | .error (.other e) => .stopped p e

/-- The enums in a file. -/
def enumsIn (read : Text → Except (Fault ε) Text) (p : Text) : List EnumDecl :=
  match read p with
  | .ok source => EnumDecl.ofSource (modelOfPath p) source
  | .error _ => []

/-- The warnings about a file: one if it is unreadable. -/
def warningsAbout (read : Text → Except (Fault ε) Text) (p : Text) : List Report :=
  match read p with
  | .error (.unreadable _) =>
      [⟨.warning, "Warning: Could not parse model file ".toList ++ p⟩]
  | _ => []

section One

variable {read : Text → Except (Fault ε) Text} {p : Text}

theorem path_visitOf :
    (visitOf read p).path = p := by
  unfold visitOf
  split <;> rfl

theorem enums_visitOf :
    (visitOf read p).enums = enumsIn read p := by
  unfold visitOf enumsIn
  cases read p with
  | ok source =>
      rfl
  | error fault =>
      cases fault <;> rfl

theorem failure?_visitOf
    (h : IsSurvived read p) :
    (visitOf read p).failure? = none := by
  unfold visitOf
  split
  · rfl
  · rfl
  · rename_i e he
    exact absurd he (h e)

theorem modelName_of_mem_enumsIn
    {e : EnumDecl}
    (he : e ∈ enumsIn read p) :
    e.modelName = modelOfPath p := by
  unfold enumsIn at he
  split at he
  · exact EnumDecl.modelName_of_mem_ofSource he
  · cases he

/-- Of the lines that a visit leaves, the reports are the warnings about the file. -/
theorem reports_visitOf :
    Journal.reports ⟨[], (visitOf read p).lines⟩ = warningsAbout read p := by
  unfold visitOf warningsAbout
  cases read p with
  | ok source =>
      rfl
  | error fault =>
      cases fault <;> rfl

end One

/-! ## The whole run -/

section Run

variable {tableNames : List Text} {read : Text → Except (Fault ε) Text}

/-- The next relevant file is visited, and the files behind it unless its visit fails. -/
theorem visits_cons
    {p : Text}
    (hp : IsRelevant tableNames p)
    (ps : List Text) :
    visits (relevantModels tableNames) read (p :: ps)
      = visitOf read p
        :: if (visitOf read p).failure? = none then visits (relevantModels tableNames) read ps
          else [] := by
  rw [visits_step, if_pos (contains_relevantModels_iff.2 hp)]
  unfold visitOf
  cases read p with
  | ok source =>
      rfl
  | error fault =>
      cases fault <;> rfl

theorem visits_cons_of_irrelevant
    {p : Text}
    (hp : ¬ IsRelevant tableNames p)
    (ps : List Text) :
    visits (relevantModels tableNames) read (p :: ps)
      = visits (relevantModels tableNames) read ps := by
  rw [visits_step, if_neg (mt contains_relevantModels_iff.1 hp)]

/-- Files that are not relevant leave no trace. -/
theorem visits_relevantFiles
    (tableNames : List Text)
    (read : Text → Except (Fault ε) Text)
    (paths : List Text) :
    visits (relevantModels tableNames) read (relevantFiles tableNames paths)
      = visits (relevantModels tableNames) read paths := by
  unfold relevantFiles
  induction paths with
  | nil =>
      rfl
  | cons p ps ih =>
      by_cases hp : IsRelevant tableNames p
      · rw [List.filter_cons_of_pos (by simpa using hp), visits_cons hp, visits_cons hp, ih]
      · rw [List.filter_cons_of_neg (by simpa using hp), visits_cons_of_irrelevant hp, ih]

/-- Readers that do the same at the relevant files make the same visits. -/
theorem visits_congr
    {paths : List Text}
    {other : Text → Except (Fault ε) Text}
    (h : ∀ p ∈ relevantFiles tableNames paths, other p = read p) :
    visits (relevantModels tableNames) other paths
      = visits (relevantModels tableNames) read paths := by
  rw [← visits_relevantFiles tableNames other, ← visits_relevantFiles tableNames read]
  generalize relevantFiles tableNames paths = files at h
  induction files with
  | nil =>
      rfl
  | cons p ps ih =>
      have hps := ih (fun q hq => h q (List.mem_cons_of_mem p hq))
      rw [visits_step, visits_step, h p List.mem_cons_self, hps]

/-- Relevant files that do not end the visits are visited one by one. -/
theorem visits_append
    {before : List Text}
    (hrelevant : ∀ p ∈ before, IsRelevant tableNames p)
    (hsurvived : ∀ p ∈ before, IsSurvived read p)
    (behind : List Text) :
    visits (relevantModels tableNames) read (before ++ behind)
      = before.map (visitOf read) ++ visits (relevantModels tableNames) read behind := by
  induction before with
  | nil =>
      rfl
  | cons p ps ih =>
      have hps := ih (fun q hq => hrelevant q (List.mem_cons_of_mem p hq))
        (fun q hq => hsurvived q (List.mem_cons_of_mem p hq))
      rw [List.cons_append, visits_cons (hrelevant p List.mem_cons_self),
        if_pos (failure?_visitOf (hsurvived p List.mem_cons_self)), hps]
      rfl

/-- If no relevant file ends the visits, each is visited. -/
theorem visits_of_survived
    {paths : List Text}
    (h : ∀ p ∈ relevantFiles tableNames paths, IsSurvived read p) :
    visits (relevantModels tableNames) read paths
      = (relevantFiles tableNames paths).map (visitOf read) := by
  have hrelevant : ∀ p ∈ relevantFiles tableNames paths, IsRelevant tableNames p := fun p hp =>
    of_decide_eq_true (List.mem_filter.1 hp).2
  rw [← visits_relevantFiles, ← List.append_nil (relevantFiles tableNames paths),
    visits_append hrelevant h, visits_nil, List.append_nil, List.append_nil]

/-- The visits up to a relevant file that ends them. -/
theorem visits_of_stopping
    {before after : List Text}
    {p : Text}
    {e : ε}
    (hrelevant : ∀ q ∈ before ++ p :: after, IsRelevant tableNames q)
    (hsurvived : ∀ q ∈ before, IsSurvived read q)
    (hread : read p = .error (.other e)) :
    visits (relevantModels tableNames) read (before ++ p :: after)
      = before.map (visitOf read) ++ [.stopped p e] := by
  have hp := hrelevant p (List.mem_append_right before List.mem_cons_self)
  have hvisit : visitOf read p = .stopped p e := by
    rw [visitOf, hread]
  rw [visits_append (fun q hq => hrelevant q (List.mem_append_left _ hq)) hsurvived,
    visits_cons hp, hvisit]
  rfl

/-- Every visit is that of a relevant file. -/
theorem exists_of_mem_visits
    {paths : List Text}
    {v : Visit ε}
    (hv : v ∈ visits (relevantModels tableNames) read paths) :
    ∃ p, IsRelevant tableNames p ∧ v = visitOf read p := by
  induction paths with
  | nil =>
      cases hv
  | cons p ps ih =>
      by_cases hp : IsRelevant tableNames p
      · rw [visits_cons hp, List.mem_cons] at hv
        rcases hv with hv | hv
        · exact ⟨p, hp, hv⟩
        · split at hv
          · exact ih hv
          · cases hv
      · rw [visits_cons_of_irrelevant hp] at hv
        exact ih hv

/-- Where nothing is refused, to tell a line is to leave it. -/
theorem tell_none :
    (Logged.tell (fun _ => none) : Line → Logged ε Unit) = Logged.leave := by
  funext line
  cases line <;> rfl

/-- Lines that are left one after the other stand behind those that were there. -/
theorem leave_forM
    (lines : List Line)
    (j : Journal) :
    (lines.forM Logged.leave : Logged ε Unit) j = .ok () { j with lines := j.lines ++ lines } := by
  induction lines generalizing j with
  | nil =>
      simp [pure, EStateM.pure]
  | cons line lines ih =>
      change (EStateM.bind (Logged.leave line) (fun _ => lines.forM Logged.leave)) j = _
      have hfirst : (Logged.leave line : Logged ε Unit) j = .ok () (j.leave line) := rfl
      rw [EStateM.bind, hfirst]
      change (lines.forM Logged.leave : Logged ε Unit) (j.leave line) = _
      rw [ih, Journal.leave, List.append_assoc, List.singleton_append]

/-- What the visits leave: their lines, one visit after the other. -/
theorem leave_visits
    (made : List (Visit ε))
    (j : Journal) :
    (made.forM (fun v => v.lines.forM Logged.leave) : Logged ε Unit) j
      = .ok () { j with lines := j.lines ++ made.flatMap Visit.lines } := by
  induction made generalizing j with
  | nil =>
      simp [pure, EStateM.pure]
  | cons v vs ih =>
      change (EStateM.bind (v.lines.forM Logged.leave)
        (fun _ => vs.forM (fun v => v.lines.forM Logged.leave))) j = _
      rw [EStateM.bind, leave_forM]
      change (vs.forM (fun v => v.lines.forM Logged.leave) : Logged ε Unit) _ = _
      rw [ih, List.flatMap_cons, List.append_assoc]

/-- How a run ends, and what it leaves, by its visits. -/
theorem relevantEnums_eq
    (tableNames : List Text)
    (read : Text → Except (Fault ε) Text)
    (paths : List Text)
    (j : Journal) :
    let made := visits (relevantModels tableNames) read paths
    let left : Journal := { j with lines := j.lines ++ made.flatMap Visit.lines }
    relevantEnums tableNames read paths j
      = match made.findSome? Visit.failure? with
        | some e => .error e left
        | none => .ok (made.flatMap Visit.enums) left := by
  intro made left
  unfold relevantEnums relevantEnumsTelling
  rw [tell_none]
  change EStateM.bind (made.forM (fun v => v.lines.forM Logged.leave)) _ j = _
  rw [EStateM.bind, leave_visits]
  change (match made.findSome? Visit.failure? with
    | some e => (throw e : Logged ε (List EnumDecl))
    | none => pure (made.flatMap Visit.enums)) left = _
  cases made.findSome? Visit.failure? with
  | some e =>
      rfl
  | none =>
      rfl

/-- The reports that visits leave, behind those of the journal. -/
theorem reports_visits
    {files : List Text}
    {made : List (Visit ε)}
    (hmade : made.flatMap Visit.lines = files.flatMap (fun p => (visitOf read p).lines))
    (j : Journal) :
    Journal.reports { j with lines := j.lines ++ made.flatMap Visit.lines }
      = j.reports ++ files.flatMap (warningsAbout read) := by
  rw [Journal.reports, List.filterMap_append, hmade, List.filterMap_flatMap]
  exact congrArg (j.reports ++ ·) (List.flatMap_congr (fun p _ => reports_visitOf))

/-- Visits of files that do not end them have no failure. -/
theorem findSome?_visitOf
    {files : List Text}
    (h : ∀ p ∈ files, IsSurvived read p) :
    (files.map (visitOf read)).findSome? Visit.failure? = none := by
  rw [List.findSome?_map, List.findSome?_eq_none_iff]
  exact fun p hp => failure?_visitOf (h p hp)

/-- A run that no relevant file ends. -/
theorem relevantEnums_of_survived
    {paths : List Text}
    (h : ∀ p ∈ relevantFiles tableNames paths, IsSurvived read p)
    (j : Journal) :
    asked tableNames read paths = relevantFiles tableNames paths ∧
      ∃ left : Journal,
        relevantEnums tableNames read paths j
            = .ok ((relevantFiles tableNames paths).flatMap (enumsIn read)) left ∧
          left.reports
            = j.reports ++ (relevantFiles tableNames paths).flatMap (warningsAbout read) := by
  have hvisits := visits_of_survived h
  have hlines : ((relevantFiles tableNames paths).map (visitOf read)).flatMap Visit.lines
      = (relevantFiles tableNames paths).flatMap (fun p => (visitOf read p).lines) := by
    rw [List.flatMap_map]
  have henums : ((relevantFiles tableNames paths).map (visitOf read)).flatMap Visit.enums
      = (relevantFiles tableNames paths).flatMap (enumsIn read) := by
    rw [List.flatMap_map]
    exact List.flatMap_congr (fun p _ => enums_visitOf)
  have hrun := relevantEnums_eq tableNames read paths j
  simp only [hvisits, findSome?_visitOf h, henums] at hrun
  refine ⟨?_, _, hrun, reports_visits hlines j⟩
  rw [asked_eq, hvisits, List.map_map]
  exact List.map_id'' (fun p => path_visitOf) _

/-- A run that a relevant file ends. -/
theorem relevantEnums_of_stopping
    {paths before after : List Text}
    {p : Text}
    {e : ε}
    (hfiles : relevantFiles tableNames paths = before ++ p :: after)
    (hsurvived : ∀ q ∈ before, IsSurvived read q)
    (hread : read p = .error (.other e))
    (j : Journal) :
    asked tableNames read paths = before ++ [p] ∧
      ∃ left : Journal,
        relevantEnums tableNames read paths j = .error e left ∧
          left.reports = j.reports ++ before.flatMap (warningsAbout read) := by
  have hrelevant : ∀ q ∈ before ++ p :: after, IsRelevant tableNames q := by
    intro q hq
    rw [← hfiles] at hq
    exact of_decide_eq_true (List.mem_filter.1 hq).2
  have hvisits : visits (relevantModels tableNames) read paths
      = before.map (visitOf read) ++ [.stopped p e] := by
    rw [← visits_relevantFiles, hfiles, visits_of_stopping hrelevant hsurvived hread]
  have hlines : (before.map (visitOf read) ++ [Visit.stopped p e]).flatMap Visit.lines
      = before.flatMap (fun q => (visitOf read q).lines) := by
    rw [List.flatMap_append, List.flatMap_map]
    exact List.append_nil _
  have hend : (before.map (visitOf read) ++ [Visit.stopped p e]).findSome? Visit.failure?
      = some e := by
    rw [List.findSome?_append, findSome?_visitOf hsurvived]
    rfl
  have hrun := relevantEnums_eq tableNames read paths j
  simp only [hvisits, hend] at hrun
  refine ⟨?_, _, hrun, reports_visits hlines j⟩
  rw [asked_eq, hvisits, List.map_append, List.map_map]
  exact congrArg (· ++ [p]) (List.map_id'' (fun q => path_visitOf) _)

/-- Every enum of a run belongs to the model of a table. -/
theorem modelName_of_mem_relevantEnums
    {paths : List Text}
    {enums : List EnumDecl}
    {j left : Journal}
    (hrun : relevantEnums tableNames read paths j = .ok enums left)
    {e : EnumDecl}
    (he : e ∈ enums) :
    ∃ table ∈ tableNames, e.modelName = Naming.modelName table := by
  rw [relevantEnums_eq] at hrun
  split at hrun
  · cases hrun
  · cases hrun
    obtain ⟨v, hv, he⟩ := List.mem_flatMap.1 he
    obtain ⟨p, ⟨table, htable, hname⟩, rfl⟩ := exists_of_mem_visits hv
    rw [enums_visitOf] at he
    exact ⟨table, htable, (modelName_of_mem_enumsIn he).trans hname⟩

end Run

/-- The relevant files are read in their order, each as often as it comes, and no others.  An
unreadable one leaves a warning and nothing else.  A failure of another kind ends the run at its
file; otherwise the enums are those of the relevant files, one file after the other.  What the
reader does at other files does not matter, and every enum belongs to the model of a table. -/
theorem relevantEnums_run
    (tableNames : List Text)
    (read : Text → Except (Fault ε) Text)
    (paths : List Text)
    (j : Journal) :
    ((∀ p ∈ relevantFiles tableNames paths, IsSurvived read p) →
      asked tableNames read paths = relevantFiles tableNames paths ∧
        ∃ left : Journal,
          relevantEnums tableNames read paths j
              = .ok ((relevantFiles tableNames paths).flatMap (enumsIn read)) left ∧
            left.reports
              = j.reports ++ (relevantFiles tableNames paths).flatMap (warningsAbout read)) ∧
      (∀ before p after e, relevantFiles tableNames paths = before ++ p :: after →
        (∀ q ∈ before, IsSurvived read q) → read p = .error (.other e) →
          asked tableNames read paths = before ++ [p] ∧
            ∃ left : Journal,
              relevantEnums tableNames read paths j = .error e left ∧
                left.reports = j.reports ++ before.flatMap (warningsAbout read)) ∧
      (∀ other : Text → Except (Fault ε) Text,
        (∀ p ∈ relevantFiles tableNames paths, other p = read p) →
          asked tableNames other paths = asked tableNames read paths ∧
            relevantEnums tableNames other paths j = relevantEnums tableNames read paths j) ∧
      ∀ enums left, relevantEnums tableNames read paths j = .ok enums left →
        ∀ e ∈ enums, ∃ table ∈ tableNames, e.modelName = Naming.modelName table := by
  refine ⟨?_, ?_, ?_, ?_⟩
  · exact fun h => relevantEnums_of_survived h j
  · exact fun _ _ _ _ hfiles hsurvived hread =>
      relevantEnums_of_stopping hfiles hsurvived hread j
  · intro other h
    have hvisits := visits_congr h
    exact ⟨by rw [asked_eq, asked_eq, hvisits], by
      rw [relevantEnums_eq, relevantEnums_eq, hvisits]⟩
  · exact fun _ _ hrun _ he => modelName_of_mem_relevantEnums hrun he

/-- With and without a table of notes, whose file fails in another way. -/
theorem relevantEnums_run_notes :
    let read : Text → Except (Fault Unit) Text := fun p =>
      if p = "app/order.rb".toList then .ok "enum :status, [:open]".toList
      else if p = "app/user.rb".toList then .error (.unreadable "denied".toList)
      else .error (.other ())
    let paths := ["app/user.rb", "app/note.rb", "app/order.rb", "app/user.rb"].map String.toList
    let warning : Report := ⟨.warning, "Warning: Could not parse model file app/user.rb".toList⟩
    (asked ["orders".toList, "users".toList] read paths
        = ["app/user.rb", "app/order.rb", "app/user.rb"].map String.toList ∧
      ∃ left : Journal,
        relevantEnums ["orders".toList, "users".toList] read paths {}
            = .ok [⟨"status".toList, "Order".toList, ["open".toList]⟩] left ∧
          left.reports = [warning, warning]) ∧
      asked ["notes".toList, "users".toList] read paths
          = ["app/user.rb", "app/note.rb"].map String.toList ∧
        ∃ left : Journal,
          relevantEnums ["notes".toList, "users".toList] read paths {} = .error () left ∧
            left.reports = [warning] := by
  intro read paths warning
  have hfiles : relevantFiles ["orders".toList, "users".toList] paths
      = ["app/user.rb", "app/order.rb", "app/user.rb"].map String.toList := by
    decide +kernel
  have hsurvived : ∀ p ∈ relevantFiles ["orders".toList, "users".toList] paths,
      IsSurvived read p := by
    intro p hp e
    rw [hfiles] at hp
    simp only [List.map_cons, List.map_nil, List.mem_cons, List.not_mem_nil, or_false] at hp
    rcases hp with rfl | rfl | rfl <;> exact fun h => by cases h
  have henums : (relevantFiles ["orders".toList, "users".toList] paths).flatMap (enumsIn read)
      = [⟨"status".toList, "Order".toList, ["open".toList]⟩] := by
    decide +kernel
  have hnotes : relevantFiles ["notes".toList, "users".toList] paths
      = ["app/user.rb".toList] ++ "app/note.rb".toList :: ["app/user.rb".toList] := by
    decide +kernel
  obtain ⟨hasked, left, hrun, hreports⟩ :=
    (relevantEnums_run ["orders".toList, "users".toList] read paths {}).1 hsurvived
  rw [henums] at hrun
  rw [hfiles] at hasked hreports
  refine ⟨⟨hasked, left, hrun, hreports⟩, ?_⟩
  refine (relevantEnums_run ["notes".toList, "users".toList] read paths {}).2.1 _ _ _ ()
    hnotes ?_ rfl
  intro p hp e
  rw [List.mem_singleton.1 hp]
  exact fun h => by cases h

end ModelFiles
end SchemaSpec
