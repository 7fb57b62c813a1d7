import SchemaSpec.Proofs.Discovery.Relevance
import SchemaSpec.Proofs.Files.Faults
import SchemaSpec.Proofs.Generate.Decision
import SchemaSpec.CommandLine.Run

/-!
# Stops that go through to the system

A run that stops is told to the user, unless the stop goes through to the system.  That happens for a
few reasons, all of which lie in what the run is given, and in what its output console takes.

* `PassesOn`: a computation stops in a way that goes through to the system; `passesOn_bind` follows it
  through the steps of a decision.
* `Generate.Unplanned`, `Generate.Untold`: the reasons before there is a plan, and all of them.
* `Generate.passesOn_decision`, `Generate.passesOn_generate`: there are no others.
-/

namespace SchemaSpec

open Text

section PassingOn

variable {α β : Type}

/-- A computation stops in a way that goes through to the system. -/
def PassesOn (x : Except Stop α) : Prop :=
  ∃ stop, x = .error stop ∧ stop.isTold = false

theorem not_passesOn_ok
    (a : α) :
    ¬ PassesOn (.ok a) := by
  rintro ⟨stop, h, -⟩
  cases h

theorem passesOn_error_iff
    {stop : Stop} :
    PassesOn (.error stop : Except Stop α) ↔ stop.isTold = false := by
  constructor
  · rintro ⟨s, h, hs⟩
    cases h
    exact hs
  · exact fun h => ⟨stop, rfl, h⟩

/-- A computation in two parts passes a stop on in the first part or in the second. -/
theorem passesOn_bind
    {x : Except Stop α}
    {f : α → Except Stop β} :
    PassesOn (x >>= f) ↔ PassesOn x ∨ ∃ a, x = .ok a ∧ PassesOn (f a) := by
  cases x with
  | ok a =>
      have hfirst : PassesOn (.ok a >>= f) ↔ PassesOn (f a) := Iff.rfl
      rw [hfirst]
      constructor
      · exact fun h => Or.inr ⟨a, rfl, h⟩
      · rintro (h | ⟨b, hb, h⟩)
        · exact absurd h (not_passesOn_ok a)
        · cases hb
          exact h
  | error stop =>
      have hfirst : PassesOn (.error stop >>= f) ↔ stop.isTold = false := passesOn_error_iff
      rw [hfirst, passesOn_error_iff]
      constructor
      · exact Or.inl
      · rintro (h | ⟨b, hb, -⟩)
        · exact h
        · cases hb

/-- Steps that end or pass a stop on do so one after the other. -/
theorem forM_eq_ok_or
    {γ : Type}
    {f : γ → Except Stop Unit}
    (h : ∀ c, f c = .ok () ∨ PassesOn (f c))
    (cs : List γ) :
    cs.forM f = .ok () ∨ PassesOn (cs.forM f) := by
  induction cs with
  | nil =>
      exact Or.inl rfl
  | cons c cs ih =>
      have hstep : (c :: cs).forM f = f c >>= fun _ => cs.forM f := rfl
      rw [hstep]
      rcases h c with hc | hc
      · rw [hc]
        exact ih
      · exact Or.inr (passesOn_bind.2 (Or.inl hc))

theorem passesOn_forM
    {γ : Type}
    {f : γ → Except Stop Unit}
    (h : ∀ c, f c = .ok () ∨ PassesOn (f c))
    (cs : List γ) :
    PassesOn (cs.forM f) ↔ ∃ c ∈ cs, PassesOn (f c) := by
  induction cs with
  | nil =>
      exact iff_of_false (not_passesOn_ok ()) (by simp)
  | cons c cs ih =>
      have hstep : (c :: cs).forM f = f c >>= fun _ => cs.forM f := rfl
      rw [hstep, List.exists_mem_cons_iff]
      rcases h c with hc | hc
      · rw [hc]
        exact ih.trans (or_iff_right (not_passesOn_ok ())).symm
      · exact iff_of_true (passesOn_bind.2 (Or.inl hc)) (Or.inl hc)

/-- Of failed file operations, only those with a null character in the path go through. -/
theorem isTold_system
    {e : SystemError} :
    (Stop.system e).isTold = true ↔ e.fault ≠ .nullCharacter := by
  obtain ⟨fault, segments⟩ := e
  cases fault <;> simp [Stop.isTold, SystemFault.report?]

theorem not_passesOn_system
    {x : Except SystemError α}
    (h : Reports x) :
    ¬ PassesOn (x.mapError Stop.system) := by
  rintro ⟨stop, hstop, htold⟩
  obtain ⟨e, he, rfl⟩ := mapError_eq_error.1 hstop
  rw [isTold_system.2 (h e he)] at htold
  cases htold

theorem passesOn_locate?
    {directory : Path}
    {t : Text} :
    PassesOn ((Path.locate? directory t).mapError Stop.system) ↔ '\x00' ∈ t := by
  unfold Path.locate?
  by_cases h : '\x00' ∈ t
  · rw [if_pos (by simpa using h)]
    exact iff_of_true (passesOn_error_iff.2 rfl) h
  · rw [if_neg (by simpa using h)]
    exact iff_of_false (not_passesOn_ok _) h

end PassingOn

/-- The bytes of a file are no text. -/
def FileTree.Garbled (tree : FileTree) (p : Path) : Prop :=
  ∃ content e, tree.readBytes p = .ok content ∧ decode content = .error e

namespace Generate

variable {tree : FileTree} {r : Request}

/-- The warning about a relevant model file is refused. -/
def RefusesWarning (tree : FileTree) (r : Request) (models : List TableModel) (files : List Path) :
    Prop :=
  ∃ file ∈ ModelFiles.relevantFiles (models.map TableModel.tableName) (files.map Path.toText),
    ∃ warning ∈ ModelFiles.warningsAbout (readModelFile tree) file,
      ∃ e, r.refusal? warning = some e

/-- The enums of a project are collected, if there is need for them: its model files are found, and
every warning about one of them is taken. -/
def Collects (tree : FileTree) (r : Request) (listing : Path) (models : List TableModel) : Prop :=
  r.settings.includeEnums.isOn = true → models ≠ [] →
    ∃ files, ModelFiles.modelFiles tree (SchemaFile.projectRoot listing) = .ok files
      ∧ ¬ RefusesWarning tree r models files

/-- Why a run stops without telling the user, and without a plan. -/
inductive Unplanned (tree : FileTree) (r : Request) : Prop
  /-- The name of the output file holds a null character. -/
  | output
      {name : Text}
      (hname : r.output = .ok name)
      (hnull : '\x00' ∈ name)
  /-- The directory holds a null character, and the target lies in it. -/
  | directory
      {name : Text}
      (hname : r.output = .ok name)
      (hrelative : Path.isAbsolute name = false)
      (hnull : '\x00' ∈ r.directory)
  /-- The directory holds a null character, and the listing is searched from it. -/
  | search
      {target : Path}
      {isThere : Bool}
      (hcleared : Cleared tree r target isThere)
      (hnull : '\x00' ∈ r.directory)
  /-- The listing is no text. -/
  | listing
      {target listing : Path}
      {isThere : Bool}
      (hcleared : Cleared tree r target isThere)
      (hlisting : listingFor tree r = .ok listing)
      (hgarbled : tree.Garbled listing)
  /-- The listing has an integer default with too many digits. -/
  | literal
      {target listing : Path}
      {isThere : Bool}
      {text : Text}
      {e : LiteralError}
      (hcleared : Cleared tree r target isThere)
      (hlisting : listingFor tree r = .ok listing)
      (hread : tree.readText listing = .ok text)
      (hparse : Schema.parse text = .error e)
  /-- The output console cannot encode the warning about a model file. -/
  | warning
      {target listing : Path}
      {isThere : Bool}
      {text : Text}
      {models : List TableModel}
      {files : List Path}
      (hcleared : Cleared tree r target isThere)
      (hlisting : listingFor tree r = .ok listing)
      (hread : tree.readText listing = .ok text)
      (hparse : Schema.parse text = .ok models)
      (hinclude : r.settings.includeEnums.isOn = true)
      (hfiles : ModelFiles.modelFiles tree (SchemaFile.projectRoot listing) = .ok files)
      (hrefused : RefusesWarning tree r models files)
  /-- The document to be extended is no text. -/
  | document
      {target listing : Path}
      {text : Text}
      {models : List TableModel}
      (hcleared : Cleared tree r target true)
      (happend : r.append = true)
      (hlisting : listingFor tree r = .ok listing)
      (hread : tree.readText listing = .ok text)
      (hparse : Schema.parse text = .ok models)
      (hcollects : Collects tree r listing models)
      (hgarbled : tree.Garbled target)

/-- Why a run stops without telling the user. -/
inductive Untold (tree : FileTree) (r : Request) : Prop
  /-- There is no plan, for one of the reasons above. -/
  | unplanned
      (h : Unplanned tree r)
  /-- The file for a new document is open, and a setting that the document says cannot be encoded. -/
  | encoding
      {p : Plan}
      {e : EncodeError}
      (hplan : decision tree r = .ok p)
      (hnew : p.outcome.action = .created ∨ p.outcome.action = .overwritten)
      (hfault : r.documentFault? = some e)
      (hopened : (p.place tree []).2 = .ok ())
  /-- The plan has been acted on, and the output console cannot encode the report of it. -/
  | report
      {p : Plan}
      {e : EncodeError}
      (hplan : decision tree r = .ok p)
      (hdone : (p.apply tree).2 = .ok ())
      (hrefused : r.refusal? ⟨.info, p.outcome.report⟩ = some e)

section Steps

theorem passesOn_readText
    {p : Path}
    (h : Path.NullFree p) :
    PassesOn ((tree.readText p).mapError Stop.ofRead) ↔ tree.Garbled p := by
  unfold FileTree.Garbled
  cases hbytes : tree.readBytes p with
  | error e =>
      have hread : tree.readText p = .error (.system e) := by
        simp only [FileTree.readText, hbytes]
      have htold : (Stop.system e).isTold = true :=
        isTold_system.2 (FileTree.reports_readBytes h e hbytes)
      rw [hread]
      refine iff_of_false (fun hpasses => ?_) (by simp)
      have hpassed := passesOn_error_iff.1 hpasses
      rw [Stop.ofRead, htold] at hpassed
      cases hpassed
  | ok content =>
      cases hdecode : decode content with
      | error e =>
          have hread : tree.readText p = .error (.undecodable e) := by
            simp only [FileTree.readText, hbytes, hdecode]
          rw [hread]
          exact iff_of_true (passesOn_error_iff.2 rfl) ⟨content, e, rfl, hdecode⟩
      | ok text =>
          have hread : tree.readText p = .ok (unifyLineEnds text) := by
            simp only [FileTree.readText, hbytes, hdecode]
          rw [hread]
          refine iff_of_false (not_passesOn_ok _) ?_
          rintro ⟨other, e, hother, he⟩
          rw [← Except.ok.inj hother, hdecode] at he
          cases he

theorem passesOn_tablesIn
    {listing : Path}
    (h : Path.NullFree listing) :
    PassesOn (tablesIn tree listing) ↔ tree.Garbled listing
      ∨ ∃ text e, tree.readText listing = .ok text ∧ Schema.parse text = .error e := by
  have hparse : ∀ text, PassesOn ((Schema.parse text).mapError Stop.oversized)
      ↔ ∃ e, Schema.parse text = .error e := by
    intro text
    cases Schema.parse text with
    | ok models =>
        exact iff_of_false (not_passesOn_ok models) (by simp)
    | error e =>
        exact iff_of_true (passesOn_error_iff.2 rfl) ⟨e, rfl⟩
  unfold tablesIn
  rw [passesOn_bind, passesOn_readText h]
  simp only [mapError_eq_ok, hparse]
  refine or_congr_right ⟨?_, ?_⟩
  · rintro ⟨text, hread, e, he⟩
    exact ⟨text, e, hread, he⟩
  · rintro ⟨text, e, hread, he⟩
    exact ⟨text, hread, e, he⟩

/-- Settling the target passes on a null character in what it is made of. -/
theorem passesOn_target
    {name : Text}
    (hname : r.output = .ok name) :
    PassesOn r.target
      ↔ '\x00' ∈ name ∨ Path.isAbsolute name = false ∧ '\x00' ∈ r.directory := by
  have hbase : PassesOn (r.base.mapError Stop.system) ↔ '\x00' ∈ r.directory := passesOn_locate?
  have htarget : r.target
      = if Path.isAbsolute name then (Path.locate? [] name).mapError Stop.system
        else r.base.mapError Stop.system
          >>= fun base => (Path.locate? base name).mapError Stop.system := by
    unfold Request.target
    rw [hname]
    rfl
  rw [htarget]
  by_cases habsolute : Path.isAbsolute name = true
  · rw [if_pos habsolute, passesOn_locate?]
    simp [habsolute]
  · rw [if_neg habsolute, passesOn_bind, hbase]
    simp only [passesOn_locate?, mapError_eq_ok, Request.base, Path.locate?_eq_ok_iff]
    rw [Bool.not_eq_true] at habsolute
    constructor
    · rintro (hnull | ⟨_, -, hnull⟩)
      · exact Or.inr ⟨habsolute, hnull⟩
      · exact Or.inl hnull
    · rintro (hnull | ⟨-, hnull⟩)
      · by_cases hdirectory : '\x00' ∈ r.directory
        · exact Or.inl hdirectory
        · exact Or.inr ⟨_, ⟨hdirectory, rfl⟩, hnull⟩
      · exact Or.inl hnull

theorem passesOn_listingFor :
    PassesOn (listingFor tree r) ↔ '\x00' ∈ r.directory := by
  have hbase : PassesOn (r.base.mapError Stop.system) ↔ '\x00' ∈ r.directory := passesOn_locate?
  unfold listingFor
  rw [passesOn_bind, hbase]
  refine or_iff_left ?_
  rintro ⟨base, -, hpasses⟩
  rcases passesOn_bind.1 hpasses with hfind | ⟨found, -, hpasses⟩
  · exact not_passesOn_system (reports_find? tree base) hfind
  · cases found with
    | none =>
        cases passesOn_error_iff.1 hpasses
    | some found =>
        exact not_passesOn_ok _ hpasses

theorem told_eq_ok_or
    (line : Line) :
    Logged.told r.refused? line = .ok () ∨ PassesOn (Logged.told r.refused? line) := by
  cases line with
  | record _ =>
      exact Or.inl rfl
  | report report =>
      unfold Logged.told Request.refused?
      dsimp only
      cases r.refusal? report with
      | none =>
          exact Or.inl rfl
      | some e =>
          exact Or.inr (passesOn_error_iff.2 rfl)

theorem passesOn_told_report
    {report : Report} :
    PassesOn (Logged.told r.refused? (.report report)) ↔ ∃ e, r.refusal? report = some e := by
  unfold Logged.told Request.refused?
  dsimp only
  cases r.refusal? report with
  | none =>
      exact iff_of_false (not_passesOn_ok ()) (by simp)
  | some e =>
      exact iff_of_true (passesOn_error_iff.2 rfl) ⟨e, rfl⟩

/-- Telling of a visit passes a stop on exactly if the warning about the file is refused. -/
theorem passesOn_toldOf
    {read : Text → Except (ModelFiles.Fault Stop) Text}
    {file : Text} :
    PassesOn (toldOf r (ModelFiles.visitOf read file))
      ↔ ∃ warning ∈ ModelFiles.warningsAbout read file, ∃ e, r.refusal? warning = some e := by
  unfold toldOf
  rw [passesOn_forM told_eq_ok_or]
  unfold ModelFiles.visitOf ModelFiles.warningsAbout
  cases read file with
  | ok source =>
      refine iff_of_false ?_ (by simp)
      rintro ⟨line, hline, hpasses⟩
      rw [List.mem_singleton.1 hline] at hpasses
      exact not_passesOn_ok () hpasses
  | error fault =>
      cases fault with
      | unreadable reason =>
          dsimp only [ModelFiles.Visit.lines]
          rw [List.exists_mem_cons_iff, List.exists_mem_cons_iff, List.exists_mem_cons_iff]
          simp only [passesOn_told_report, List.not_mem_nil, false_and, exists_false, or_false]
          exact or_iff_right (not_passesOn_ok ())
      | other e =>
          exact iff_of_false (by simp [ModelFiles.Visit.lines]) (by simp)

/-- Telling of the model files ends, or passes a stop on since a warning is refused. -/
theorem told_visitsIn
    (tree : FileTree)
    (r : Request)
    (models : List TableModel)
    (files : List Path) :
    ((visitsIn tree models files).forM (toldOf r) = .ok ()
        ∨ PassesOn ((visitsIn tree models files).forM (toldOf r)))
      ∧ (PassesOn ((visitsIn tree models files).forM (toldOf r))
        ↔ RefusesWarning tree r models files) := by
  have hsurvived : ∀ file, ModelFiles.IsSurvived (readModelFile tree) file := by
    intro file e
    unfold readModelFile
    cases tree.readText (Path.segmentsOf file) <;> exact fun h => by cases h
  have hvisits : visitsIn tree models files
      = (ModelFiles.relevantFiles (models.map TableModel.tableName) (files.map Path.toText)).map
        (ModelFiles.visitOf (readModelFile tree)) :=
    ModelFiles.visits_of_survived (fun file _ => hsurvived file)
  have hends : ∀ v, toldOf r v = .ok () ∨ PassesOn (toldOf r v) := fun v =>
    forM_eq_ok_or told_eq_ok_or v.lines
  refine ⟨forM_eq_ok_or hends _, (passesOn_forM hends _).trans ?_⟩
  rw [hvisits]
  simp only [List.mem_map, exists_exists_and_eq_and, passesOn_toldOf]
  rfl

/-- Only a relevant file can be warned about. -/
theorem RefusesWarning.ne_nil
    {models : List TableModel}
    {files : List Path}
    (h : RefusesWarning tree r models files) :
    models ≠ [] := by
  rintro rfl
  obtain ⟨file, hfile, -⟩ := h
  obtain ⟨table, htable, -⟩ := of_decide_eq_true (List.mem_filter.1 hfile).2
  cases htable

/-- The order of the tables does not matter to the warnings. -/
theorem refusesWarning_sortModels
    {models : List TableModel}
    {files : List Path} :
    RefusesWarning tree r (sortModels models) files ↔ RefusesWarning tree r models files := by
  have hrelevant : ∀ file, ModelFiles.IsRelevant ((sortModels models).map TableModel.tableName) file
      ↔ ModelFiles.IsRelevant (models.map TableModel.tableName) file := by
    intro file
    unfold ModelFiles.IsRelevant sortModels
    simp
  unfold RefusesWarning ModelFiles.relevantFiles
  simp only [hrelevant]

theorem collects_sortModels
    {listing : Path}
    {models : List TableModel} :
    Collects tree r listing (sortModels models) ↔ Collects tree r listing models := by
  unfold Collects
  simp only [sortModels_ne_nil, refusesWarning_sortModels]

/-- Enums are collected if the settings ask for them and there are tables. -/
theorem collects_iff
    {models : List TableModel} :
    (r.settings.includeEnums.isOn && !models.isEmpty) = true
      ↔ r.settings.includeEnums.isOn = true ∧ models ≠ [] := by
  cases models <;> simp

/-- Collecting enums passes a stop on exactly if a warning is refused. -/
theorem passesOn_enumsOrNone
    {listing : Path}
    {models : List TableModel} :
    PassesOn (enumsOrNone tree r listing models) ↔ r.settings.includeEnums.isOn = true
      ∧ ∃ files, ModelFiles.modelFiles tree (SchemaFile.projectRoot listing) = .ok files
        ∧ RefusesWarning tree r models files := by
  unfold enumsOrNone
  by_cases hcollect : (r.settings.includeEnums.isOn && !models.isEmpty) = true
  · rw [if_pos hcollect]
    unfold enumsFor
    rw [passesOn_bind, or_iff_right (not_passesOn_system (reports_modelFiles tree _))]
    simp only [mapError_eq_ok, passesOn_bind, (told_visitsIn tree r models _).2]
    constructor
    · rintro ⟨files, hfiles, hrefused | ⟨-, -, hpasses⟩⟩
      · exact ⟨(collects_iff.1 hcollect).1, files, hfiles, hrefused⟩
      · exact absurd hpasses (not_passesOn_ok _)
    · rintro ⟨-, files, hfiles, hrefused⟩
      exact ⟨files, hfiles, Or.inl hrefused⟩
  · rw [if_neg hcollect]
    refine iff_of_false (not_passesOn_ok _) ?_
    rintro ⟨hon, files, -, hrefused⟩
    exact hcollect (collects_iff.2 ⟨hon, hrefused.ne_nil⟩)

theorem exists_enumsOrNone_iff
    {listing : Path}
    {models : List TableModel} :
    (∃ enums, enumsOrNone tree r listing models = .ok enums) ↔ Collects tree r listing models := by
  unfold enumsOrNone
  by_cases hcollect : (r.settings.includeEnums.isOn && !models.isEmpty) = true
  · obtain ⟨hon, hne⟩ := collects_iff.1 hcollect
    rw [if_pos hcollect]
    unfold Collects enumsFor
    simp only [hon, hne, ne_eq, not_false_eq_true, true_imp_iff]
    constructor
    · rintro ⟨enums, henums⟩
      obtain ⟨files, hfiles, henums⟩ := except_bind_eq_ok.1 henums
      obtain ⟨_, htold, -⟩ := except_bind_eq_ok.1 henums
      refine ⟨files, mapError_eq_ok.1 hfiles, fun hrefused => ?_⟩
      exact not_passesOn_ok () (htold ▸ (told_visitsIn tree r models files).2.2 hrefused)
    · rintro ⟨files, hfiles, htaken⟩
      obtain ⟨hends, hpasses⟩ := told_visitsIn tree r models files
      have htold := hends.resolve_right (fun h => htaken (hpasses.1 h))
      exact ⟨_, except_bind_eq_ok.2 ⟨files, mapError_eq_ok.2 hfiles,
        except_bind_eq_ok.2 ⟨(), htold, rfl⟩⟩⟩
  · rw [if_neg hcollect]
    exact iff_of_true ⟨[], rfl⟩ (fun hon hne => absurd (collects_iff.2 ⟨hon, hne⟩) hcollect)

theorem passesOn_extension
    {target listing : Path}
    {models : List TableModel}
    {enums : List EnumDecl}
    (h : Path.NullFree target) :
    PassesOn (extension tree r target listing models enums) ↔ tree.Garbled target := by
  unfold extension
  rw [passesOn_bind, passesOn_readText h]
  refine or_iff_left ?_
  rintro ⟨existing, -, hpasses⟩
  split at hpasses
  · cases passesOn_error_iff.1 hpasses
  · exact not_passesOn_ok _ hpasses

/-- Opening the file for a plan passes nothing on. -/
theorem not_passesOn_place
    {p : Plan}
    (h : Path.NullFree p.outcome.target)
    (text : Text) :
    ¬ PassesOn (p.place tree text).2 := by
  unfold Plan.place
  split
  · rintro ⟨stop, hstop, htold⟩
    obtain ⟨e, he, rfl⟩ := mapError_eq_error.1 hstop
    unfold creationStop at htold
    split at htold
    · cases htold
    · rw [isTold_system.2 (FileTree.reports_placeText h false text e he)] at htold
      cases htold
  · exact not_passesOn_system (FileTree.reports_placeText h true text)

/-- Acting on a plan passes on what cannot be encoded, if the file can be opened. -/
theorem passesOn_apply
    {p : Plan}
    (h : Path.NullFree p.outcome.target) :
    PassesOn (p.apply tree).2 ↔ (∃ draft e, p.content = some draft ∧ draft.fault? = some e)
      ∧ (p.place tree []).2 = .ok () := by
  unfold Plan.apply
  cases hcontent : p.content with
  | none =>
      exact iff_of_false (not_passesOn_ok ()) (by simp)
  | some draft =>
      dsimp only
      rw [passesOn_bind, or_iff_right (not_passesOn_place h _)]
      unfold Draft.ending Draft.written
      cases hfault : draft.fault? with
      | none =>
          refine iff_of_false ?_ ?_
          · rintro ⟨_, -, hpasses⟩
            exact not_passesOn_ok () hpasses
          · rintro ⟨⟨other, e, hother, he⟩, -⟩
            rw [← Option.some.inj hother, hfault] at he
            cases he
      | some e =>
          constructor
          · rintro ⟨_, hopened, -⟩
            exact ⟨⟨draft, e, rfl, hfault⟩, hopened⟩
          · rintro ⟨-, hopened⟩
            exact ⟨(), hopened, passesOn_error_iff.2 rfl⟩

theorem passesOn_reported
    {o : Outcome} :
    PassesOn (reported r o) ↔ ∃ e, r.refusal? ⟨.info, o.report⟩ = some e := by
  unfold reported Request.refused?
  cases r.refusal? ⟨.info, o.report⟩ with
  | none =>
      exact iff_of_false (not_passesOn_ok o) (by simp)
  | some e =>
      exact iff_of_true (passesOn_error_iff.2 rfl) ⟨e, rfl⟩

/-- What a plan writes cannot be encoded exactly if it is a new document that says such a setting. -/
theorem exists_fault_iff
    {p : Plan}
    (hplan : decision tree r = .ok p) :
    (∃ draft e, p.content = some draft ∧ draft.fault? = some e)
      ↔ (p.outcome.action = .created ∨ p.outcome.action = .overwritten)
        ∧ ∃ e, r.documentFault? = some e := by
  obtain ⟨isThere, models, enums, hdecided⟩ := decision_eq_ok hplan
  obtain ⟨-, -, hfresh | ⟨hold, hnone⟩⟩ := planFor_eq_ok hdecided.made
  · have hcontent : p.content
        = some ⟨Document.render r.settings (sortModels models) enums, r.documentFault?⟩ := by
      rw [hfresh]
      rfl
    have hnew : p.outcome.action = .created ∨ p.outcome.action = .overwritten := by
      rw [hfresh]
      dsimp only [freshPlan]
      split
      · exact Or.inr rfl
      · exact Or.inl rfl
    rw [hcontent]
    constructor
    · rintro ⟨draft, e, hdraft, he⟩
      rw [← Option.some.inj hdraft] at he
      exact ⟨hnew, e, he⟩
    · rintro ⟨-, e, he⟩
      exact ⟨_, e, rfl, he⟩
  · refine iff_of_false ?_ ?_
    · rintro ⟨draft, e, hdraft, he⟩
      rw [hnone draft hdraft] at he
      cases he
    · rintro ⟨hnew | hnew, -⟩ <;> rcases hold with hold | hold <;> rw [hold] at hnew <;> cases hnew

end Steps

section Whole

/-- The target of a request in a directory without null characters has none. -/
theorem nullFree_target
    (hdirectory : Path.NullFree r.workingDirectory)
    {target : Path}
    (h : r.target = .ok target) :
    Path.NullFree target := by
  have hroot : Path.NullFree [] := fun s hs => absurd hs List.not_mem_nil
  unfold Request.target at h
  obtain ⟨output, -, h⟩ := except_bind_eq_ok.1 h
  split at h
  · exact Path.nullFree_locate? hroot (mapError_eq_ok.1 h)
  · obtain ⟨base, hbase, h⟩ := except_bind_eq_ok.1 h
    exact Path.nullFree_locate? (Path.nullFree_locate? hdirectory (mapError_eq_ok.1 hbase))
      (mapError_eq_ok.1 h)

theorem nullFree_listingFor
    (ht : tree.IsProper)
    (hdirectory : Path.NullFree r.workingDirectory)
    {listing : Path}
    (h : listingFor tree r = .ok listing) :
    Path.NullFree listing := by
  unfold listingFor at h
  obtain ⟨base, hbase, h⟩ := except_bind_eq_ok.1 h
  obtain ⟨found, hfind, h⟩ := except_bind_eq_ok.1 h
  cases found with
  | none =>
      cases h
  | some found =>
      cases h
      exact nullFree_find? ht (Path.nullFree_locate? hdirectory (mapError_eq_ok.1 hbase))
        (mapError_eq_ok.1 hfind)

/-- Once its target is settled, a run without a plan passes on what the listing, a warning about a model
file or the document to be extended is wrong about. -/
theorem unplanned_of_decisionFrom
    (ht : tree.IsProper)
    (hdirectory : Path.NullFree r.workingDirectory)
    {target : Path}
    {isThere : Bool}
    (hcleared : Cleared tree r target isThere)
    (h : PassesOn (decisionFrom tree r target isThere)) :
    Unplanned tree r := by
  unfold decisionFrom at h
  rw [passesOn_bind, passesOn_listingFor] at h
  rcases h with hnull | ⟨listing, hlisting, h⟩
  · exact .search hcleared hnull
  rw [passesOn_bind, passesOn_tablesIn (nullFree_listingFor ht hdirectory hlisting)] at h
  rcases h with (hgarbled | ⟨text, e, hread, hparse⟩) | ⟨models, htables, h⟩
  · exact .listing hcleared hlisting hgarbled
  · exact .literal hcleared hlisting hread hparse
  obtain ⟨text, hread, hparse⟩ := except_bind_eq_ok.1 htables
  have hread := mapError_eq_ok.1 hread
  have hparse := mapError_eq_ok.1 hparse
  rw [passesOn_bind, passesOn_enumsOrNone] at h
  rcases h with ⟨hinclude, files, hfiles, hrefused⟩ | ⟨enums, henums, h⟩
  · exact .warning hcleared hlisting hread hparse hinclude hfiles
      (refusesWarning_sortModels.1 hrefused)
  have hcollects := collects_sortModels.1 (exists_enumsOrNone_iff.1 ⟨enums, henums⟩)
  unfold planFor at h
  split at h
  · rename_i hextend
    rw [Bool.and_eq_true] at hextend
    obtain ⟨happend, rfl⟩ := hextend
    rw [passesOn_extension (nullFree_target hdirectory hcleared.settled)] at h
    exact .document hcleared happend hlisting hread hparse hcollects h
  · exact absurd h (not_passesOn_ok _)

/-- What passes a stop on before there is a plan, and nothing else does. -/
theorem passesOn_decision
    (ht : tree.IsProper)
    (hdirectory : Path.NullFree r.workingDirectory)
    {name : Text}
    (hname : r.output = .ok name) :
    PassesOn (decision tree r) ↔ Unplanned tree r := by
  have hstart : ∀ {target : Path} {isThere : Bool}, Cleared tree r target isThere →
      PassesOn (decisionFrom tree r target isThere) → PassesOn (decision tree r) := by
    intro target isThere hcleared h
    rwa [decision_of_cleared hcleared]
  have htables : ∀ {listing : Path} {text : Text} {models : List TableModel},
      tree.readText listing = .ok text → Schema.parse text = .ok models →
      tablesIn tree listing = .ok models := fun hread hparse =>
    except_bind_eq_ok.2 ⟨_, mapError_eq_ok.2 hread, mapError_eq_ok.2 hparse⟩
  constructor
  · intro h
    unfold decision at h
    rw [passesOn_bind, passesOn_target hname] at h
    rcases h with (hnull | ⟨hrelative, hnull⟩) | ⟨target, htarget, h⟩
    · exact .output hname hnull
    · exact .directory hname hrelative hnull
    rw [passesOn_bind] at h
    rcases h with h | ⟨isThere, hfound, h⟩
    · exact absurd h (not_passesOn_system (FileTree.reports_isFile? tree target))
    split at h
    · cases passesOn_error_iff.1 h
    · rename_i hallowed
      exact unplanned_of_decisionFrom ht hdirectory
        ⟨htarget, mapError_eq_ok.1 hfound, not_not.1 (mt blocked_iff.2 hallowed)⟩ h
  · intro h
    cases h with
    | output hout hnull =>
        exact passesOn_bind.2 (Or.inl ((passesOn_target hout).2 (Or.inl hnull)))
    | directory hout hrelative hnull =>
        exact passesOn_bind.2 (Or.inl ((passesOn_target hout).2 (Or.inr ⟨hrelative, hnull⟩)))
    | search hcleared hnull =>
        exact hstart hcleared (passesOn_bind.2 (Or.inl (passesOn_listingFor.2 hnull)))
    | listing hcleared hlisting hgarbled =>
        have hfirst := (passesOn_tablesIn (nullFree_listingFor ht hdirectory hlisting)).2
          (Or.inl hgarbled)
        exact hstart hcleared
          (passesOn_bind.2 (Or.inr ⟨_, hlisting, passesOn_bind.2 (Or.inl hfirst)⟩))
    | literal hcleared hlisting hread hparse =>
        have hfirst := (passesOn_tablesIn (nullFree_listingFor ht hdirectory hlisting)).2
          (Or.inr ⟨_, _, hread, hparse⟩)
        exact hstart hcleared
          (passesOn_bind.2 (Or.inr ⟨_, hlisting, passesOn_bind.2 (Or.inl hfirst)⟩))
    | warning hcleared hlisting hread hparse hinclude hfiles hrefused =>
        have hsecond := passesOn_enumsOrNone.2
          ⟨hinclude, _, hfiles, refusesWarning_sortModels.2 hrefused⟩
        exact hstart hcleared (passesOn_bind.2 (Or.inr ⟨_, hlisting, passesOn_bind.2
          (Or.inr ⟨_, htables hread hparse, passesOn_bind.2 (Or.inl hsecond)⟩)⟩))
    | @document target listing text models hcleared happend hlisting hread hparse hcollects hgarbled =>
        obtain ⟨enums, henums⟩ := exists_enumsOrNone_iff.2 (collects_sortModels.2 hcollects)
        have hplan : PassesOn (planFor tree r target true listing (sortModels models) enums) := by
          unfold planFor
          rw [happend, if_pos (by rfl)]
          exact (passesOn_extension (nullFree_target hdirectory hcleared.settled)).2 hgarbled
        exact hstart hcleared (passesOn_bind.2 (Or.inr ⟨listing, hlisting, passesOn_bind.2
          (Or.inr ⟨models, htables hread hparse, passesOn_bind.2 (Or.inr ⟨enums, henums, hplan⟩)⟩)⟩))

/-- A run passes a stop on for one of the reasons, and for no other. -/
theorem passesOn_generate
    (ht : tree.IsProper)
    (hdirectory : Path.NullFree r.workingDirectory)
    {name : Text}
    (hname : r.output = .ok name)
    (j : Journal) :
    PassesOn (generate tree r j).outcome ↔ Untold tree r := by
  have htarget : ∀ {p : Plan}, decision tree r = .ok p → Path.NullFree p.outcome.target := by
    intro p hp
    obtain ⟨_, _, _, hdecided⟩ := decision_eq_ok hp
    exact nullFree_target hdirectory hdecided.cleared.settled
  rw [outcome_generate, passesOn_bind, passesOn_decision ht hdirectory hname]
  constructor
  · rintro (h | ⟨p, hp, h⟩)
    · exact .unplanned h
    rcases passesOn_bind.1 h with h | ⟨_, hdone, h⟩
    · obtain ⟨hfault, hopened⟩ := (passesOn_apply (htarget hp)).1 h
      obtain ⟨hnew, e, he⟩ := (exists_fault_iff hp).1 hfault
      exact .encoding hp hnew he hopened
    · obtain ⟨e, he⟩ := passesOn_reported.1 h
      exact .report hp hdone he
  · intro h
    cases h with
    | unplanned h =>
        exact Or.inl h
    | encoding hp hnew hfault hopened =>
        have hacting := (passesOn_apply (htarget hp)).2
          ⟨(exists_fault_iff hp).2 ⟨hnew, _, hfault⟩, hopened⟩
        exact Or.inr ⟨_, hp, passesOn_bind.2 (Or.inl hacting)⟩
    | report hp hdone hrefused =>
        exact Or.inr ⟨_, hp, passesOn_bind.2
          (Or.inr ⟨_, hdone, passesOn_reported.2 ⟨_, hrefused⟩⟩)⟩

end Whole

end Generate

end SchemaSpec
