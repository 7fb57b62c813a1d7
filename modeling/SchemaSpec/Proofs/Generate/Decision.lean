import SchemaSpec.Proofs.Journal.Results
import SchemaSpec.Generate

/-!
# What a run decides

A plan depends on the request and on what is read from the tree, and not on the journal: it is decided
step by step, and the first step that fails ends it.

* `listingFor`, `tablesIn`, `enumsFor`, `extension`: the steps, each with its failures.
* `decision`: the plan of a run, or the stop that ends it.
* `reported`: how telling of an outcome ends.
* `comesTo_plan`, `outcome_generate`: planning comes to the decision, and a run to acting on it and to
  telling of it; `exists_plan_of_outcome` reads this back.
* `Cleared`: a target that may be written.
* `Decided`, `planFor_eq_ok`, `decision_eq_ok`: what a plan was made from.
-/

namespace SchemaSpec
namespace Generate

open Text

section Steps

variable (tree : FileTree) (r : Request)

/-- The listing of a request. -/
def listingFor : Except Stop Path := do
  let base ← r.base.mapError Stop.system
  match ← (SchemaFile.find? tree base).mapError Stop.system with
  | none => .error (.failure (.schemaNotFound r.directory SchemaFile.searched))
  | some found => .ok found.path

/-- The tables of a listing, in its order. -/
def tablesIn (listing : Path) : Except Stop (List TableModel) := do
  let text ← (tree.readText listing).mapError Stop.ofRead
  (Schema.parse text).mapError Stop.oversized

/-- What reading the relevant files of a project gives, file by file. -/
def visitsIn (models : List TableModel) (files : List Path) : List (ModelFiles.Visit Stop) :=
  ModelFiles.visits (ModelFiles.relevantModels (models.map TableModel.tableName))
    (readModelFile tree) (files.map Path.toText)

/-- How telling of a visit ends. -/
def toldOf (v : ModelFiles.Visit Stop) : Except Stop Unit :=
  v.lines.forM (Logged.told r.refused?)

/-- The enums of the relevant model files of a project, unless a warning about one is refused. -/
def enumsFor (listing : Path) (models : List TableModel) : Except Stop (List EnumDecl) := do
  let files ← (ModelFiles.modelFiles tree (SchemaFile.projectRoot listing)).mapError Stop.system
  (visitsIn tree models files).forM (toldOf r)
  return (visitsIn tree models files).flatMap ModelFiles.Visit.enums

/-- The enums of a run: those of the model files, unless the settings leave them out or there are no
tables. -/
def enumsOrNone (listing : Path) (models : List TableModel) : Except Stop (List EnumDecl) :=
  if r.settings.includeEnums.isOn && !models.isEmpty then enumsFor tree r listing models
  else .ok []

/-- The plan of extending the document in a target. -/
def extension (target listing : Path) (models : List TableModel) (enums : List EnumDecl) :
    Except Stop Plan := do
  let existing ← (tree.readText target).mapError Stop.ofRead
  match Document.merge existing models enums r.today r.settings.optionalMarker.isOn with
  | .error e => .error (.failure (.cannotAppend target.toText e.message))
  | .ok merged =>
      .ok (if merged.changed then
        ⟨⟨.appended, target, listing, merged.appended⟩, some ⟨merged.content, none⟩⟩
      else ⟨⟨.skipped, target, listing, []⟩, none⟩)

/-- The plan of writing a new document to a target. -/
def freshPlan (target : Path) (isThere : Bool) (listing : Path) (models : List TableModel)
    (enums : List EnumDecl) : Plan :=
  ⟨⟨if r.force && isThere then .overwritten else .created, target, listing,
    models.map TableModel.name⟩, some ⟨Document.render r.settings models enums, r.documentFault?⟩⟩

/-- The plan for a target, once the listing has been read. -/
def planFor (target : Path) (isThere : Bool) (listing : Path) (models : List TableModel)
    (enums : List EnumDecl) : Except Stop Plan :=
  if r.append && isThere then extension tree r target listing models enums
  else .ok (freshPlan r target isThere listing models enums)

/-- The plan of a run whose target is settled, and may be written. -/
def decisionFrom (target : Path) (isThere : Bool) : Except Stop Plan := do
  let listing ← listingFor tree r
  let models ← tablesIn tree listing
  let enums ← enumsOrNone tree r listing (sortModels models)
  planFor tree r target isThere listing (sortModels models) enums

/-- How telling of an outcome ends. -/
def reported (o : Outcome) : Except Stop Outcome :=
  match r.refused? ⟨.info, o.report⟩ with
  | some stop => .error stop
  | none => .ok o

/-- The plan of a run, or the stop that ends it. -/
def decision : Except Stop Plan := do
  let target ← r.target
  let isThere ← (tree.isFile? target).mapError Stop.system
  if isThere && !r.force && !r.append then .error (.failure (.outputExists target.toText))
  else decisionFrom tree r target isThere

end Steps

section Agreement

variable {tree : FileTree} {r : Request}

theorem comesTo_findListing :
    (findListing tree r).ComesTo (listingFor tree r) := by
  refine (Logged.comesTo_lift _).bind (fun base _ => ?_)
  refine (Logged.comesTo_lift _).bind (fun found _ => ?_)
  cases found with
  | none =>
      exact Logged.comesTo_throw _
  | some found =>
      exact (Logged.comesTo_leave _).bind (g := fun _ => .ok found.path)
        (fun _ _ => Logged.comesTo_pure found.path)

theorem comesTo_readSchema
    (listing : Path) :
    (readSchema tree listing).ComesTo (tablesIn tree listing) := by
  refine (Logged.comesTo_lift _).bind (fun text _ => ?_)
  have hparse : (Schema.parse text).mapError Stop.oversized
      = (Schema.read text).mapError Stop.oversized >>= fun read => .ok read.1 := by
    unfold Schema.parse
    cases Schema.read text <;> rfl
  rw [hparse]
  refine (Logged.comesTo_lift _).bind (fun read _ => ?_)
  obtain ⟨models, place⟩ := read
  dsimp only
  cases place.openTable? with
  | none =>
      exact Logged.comesTo_pure models
  | some name =>
      exact (Logged.comesTo_leave _).bind (g := fun _ => .ok models)
        (fun _ _ => Logged.comesTo_pure models)

/-- No model file ends the visits: one that cannot be read is passed over. -/
theorem findSome?_visitsIn
    (models : List TableModel)
    (files : List Path) :
    (visitsIn tree models files).findSome? ModelFiles.Visit.failure? = none := by
  unfold visitsIn
  induction files.map Path.toText with
  | nil =>
      rfl
  | cons p ps ih =>
      rw [ModelFiles.visits_step]
      split
      · unfold readModelFile
        cases tree.readText (Path.segmentsOf p) with
        | ok source =>
            exact ih
        | error e =>
            exact ih
      · exact ih

theorem comesTo_collectEnums
    (listing : Path)
    (models : List TableModel) :
    (collectEnums tree r listing models).ComesTo (enumsFor tree r listing models) := by
  refine (Logged.comesTo_lift _).bind (fun files _ => ?_)
  have hlines : ((visitsIn tree models files).forM
      (fun v => (ModelFiles.Visit.lines v).forM (Logged.tell r.refused?)) : Logged Stop Unit).ComesTo
        ((visitsIn tree models files).forM (toldOf r)) :=
    Logged.comesTo_forM (fun _ => Logged.comesTo_forM (Logged.comesTo_tell _) _) _
  refine hlines.bind (g := fun _ => .ok ((visitsIn tree models files).flatMap
    ModelFiles.Visit.enums)) (fun _ _ => ?_)
  have hnone : (visitsIn tree models files).findSome? ModelFiles.Visit.failure? = none :=
    findSome?_visitsIn models files
  unfold visitsIn at hnone
  rw [hnone]
  exact Logged.comesTo_pure _

theorem comesTo_planAppend
    (target listing : Path)
    (models : List TableModel)
    (enums : List EnumDecl) :
    (planAppend tree r target listing models enums).ComesTo
      (extension tree r target listing models enums) := by
  refine (Logged.comesTo_lift _).bind (fun existing _ => ?_)
  cases Document.merge existing models enums r.today r.settings.optionalMarker.isOn with
  | error e =>
      exact Logged.comesTo_throw _
  | ok merged =>
      dsimp only
      split
      · exact Logged.comesTo_pure _
      · exact Logged.comesTo_pure _

/-- Planning comes to the decision. -/
theorem comesTo_plan
    (tree : FileTree)
    (r : Request) :
    (plan tree r).ComesTo (decision tree r) := by
  refine (Logged.comesTo_lift _).bind (fun target _ => ?_)
  refine (Logged.comesTo_lift _).bind (fun isThere _ => ?_)
  dsimp only
  by_cases hblocked : (isThere && !r.force && !r.append) = true
  · rw [if_pos hblocked, if_pos hblocked]
    exact (Logged.comesTo_throw _).bind
      (g := fun _ => .error (.failure (.outputExists target.toText))) (fun _ h => by cases h)
  rw [if_neg hblocked, if_neg hblocked]
  refine comesTo_findListing.bind (fun listing _ => ?_)
  refine ((comesTo_readSchema listing).operation _ _ _).bind (fun models _ => ?_)
  -- The rest does not depend on whether the enums were collected.
  have hplan : ∀ enums : List EnumDecl, (if r.append && isThere then
        planAppend tree r target listing (sortModels models) enums
      else pure (freshPlan r target isThere listing (sortModels models) enums)
        : Logged Stop Plan).ComesTo
        (planFor tree r target isThere listing (sortModels models) enums) := by
    intro enums
    unfold planFor
    split
    · exact comesTo_planAppend target listing _ enums
    · exact Logged.comesTo_pure _
  unfold enumsOrNone
  split
  · exact ((comesTo_collectEnums listing _).operation _ _ _).bind (fun enums _ => hplan enums)
  · exact (Logged.comesTo_pure []).bind (fun enums _ => hplan enums)

/-- A run comes to acting on the decision, and to telling of it. -/
theorem outcome_generate
    (tree : FileTree)
    (r : Request)
    (j : Journal) :
    (generate tree r j).outcome
      = decision tree r >>= fun p => (p.apply tree).2 >>= fun _ => reported r p.outcome := by
  have hplan := comesTo_plan tree r j
  unfold Logged.result at hplan
  unfold generate
  cases hrun : plan tree r j with
  | error e after =>
      rw [hrun] at hplan
      rw [← hplan]
      rfl
  | ok p after =>
      rw [hrun] at hplan
      rw [← hplan]
      dsimp only
      split
      · rename_i hdone
        simp only [bind, Except.bind, hdone]
      · rename_i hdone
        simp only [bind, Except.bind, hdone, reported]
        cases r.refused? ⟨.info, p.outcome.report⟩ <;> rfl

/-- A run leaves the tree that acting on the decision leaves. -/
theorem tree_generate
    {p : Plan}
    (h : decision tree r = .ok p)
    (j : Journal) :
    (generate tree r j).tree = (p.apply tree).1 := by
  have hplan := comesTo_plan tree r j
  rw [h] at hplan
  unfold Logged.result at hplan
  unfold generate
  cases hrun : plan tree r j with
  | error e after =>
      rw [hrun] at hplan
      cases hplan
  | ok q after =>
      rw [hrun] at hplan
      rw [← Except.ok.inj hplan]
      dsimp only
      split
      · rename_i hdone
        rw [hdone]
      · rename_i hdone
        rw [hdone]
        cases r.refused? ⟨.info, q.outcome.report⟩ <;> rfl

/-- A run that ends has made a plan and acted on it. -/
theorem exists_plan_of_outcome
    {j : Journal}
    {o : Outcome}
    (h : (generate tree r j).outcome = .ok o) :
    ∃ p, decision tree r = .ok p ∧ (p.apply tree).2 = .ok () ∧ p.outcome = o
      ∧ r.refused? ⟨.info, o.report⟩ = none := by
  rw [outcome_generate] at h
  obtain ⟨p, hp, h⟩ := except_bind_eq_ok.1 h
  obtain ⟨_, happly, htold⟩ := except_bind_eq_ok.1 h
  unfold reported at htold
  split at htold
  · cases htold
  · rename_i hrefused
    cases htold
    exact ⟨p, hp, happly, rfl, hrefused⟩

end Agreement

section Plans

variable {tree : FileTree} {r : Request} {p : Plan}

/-- The target of a request is settled: whether it is a file is known, and it may be written. -/
structure Cleared (tree : FileTree) (r : Request) (target : Path) (isThere : Bool) : Prop where
  settled : r.target = .ok target
  found : tree.isFile? target = .ok isThere
  allowed : isThere = true → r.force = true ∨ r.append = true

/-- The target of a request is blocked exactly if it is a file that may not be written. -/
theorem blocked_iff
    {isThere : Bool} :
    (isThere && !r.force && !r.append) = true
      ↔ ¬ (isThere = true → r.force = true ∨ r.append = true) := by
  cases isThere <;> cases r.force <;> cases r.append <;> simp

theorem decision_of_cleared
    {target : Path}
    {isThere : Bool}
    (h : Cleared tree r target isThere) :
    decision tree r = decisionFrom tree r target isThere := by
  have hallowed : ¬ (isThere && !r.force && !r.append) = true := fun hblocked =>
    blocked_iff.1 hblocked h.allowed
  unfold decision
  rw [h.settled]
  change (tree.isFile? target).mapError Stop.system >>= _ = _
  rw [h.found]
  exact if_neg hallowed

/-- What a plan was made from. -/
structure Decided (tree : FileTree) (r : Request) (p : Plan) (isThere : Bool)
    (models : List TableModel) (enums : List EnumDecl) : Prop where
  cleared : Cleared tree r p.outcome.target isThere
  listing : listingFor tree r = .ok p.outcome.schema
  tables : tablesIn tree p.outcome.schema = .ok models
  collected : enumsOrNone tree r p.outcome.schema (sortModels models) = .ok enums
  made : planFor tree r p.outcome.target isThere p.outcome.schema (sortModels models) enums = .ok p

theorem sortModels_ne_nil
    {models : List TableModel} :
    sortModels models ≠ [] ↔ models ≠ [] := by
  rw [← List.length_pos_iff, ← List.length_pos_iff, sortModels, List.length_mergeSort]

/-- A plan for a target and a listing names both.  What extends a document can be encoded. -/
theorem planFor_eq_ok
    {target listing : Path}
    {isThere : Bool}
    {models : List TableModel}
    {enums : List EnumDecl}
    (h : planFor tree r target isThere listing models enums = .ok p) :
    p.outcome.target = target ∧ p.outcome.schema = listing
      ∧ (p = freshPlan r target isThere listing models enums
        ∨ (p.outcome.action = .appended ∨ p.outcome.action = .skipped)
          ∧ ∀ draft, p.content = some draft → draft.fault? = none) := by
  unfold planFor at h
  split at h
  · unfold extension at h
    obtain ⟨existing, -, h⟩ := except_bind_eq_ok.1 h
    split at h
    · cases h
    · cases h
      split
      · refine ⟨rfl, rfl, Or.inr ⟨Or.inl rfl, fun draft hdraft => ?_⟩⟩
        rw [← Option.some.inj hdraft]
      · exact ⟨rfl, rfl, Or.inr ⟨Or.inr rfl, fun draft hdraft => by cases hdraft⟩⟩
  · cases h
    exact ⟨rfl, rfl, Or.inl rfl⟩

/-- Each plan is made from a target, a listing, its tables and the enums of a project. -/
theorem decision_eq_ok
    (h : decision tree r = .ok p) :
    ∃ isThere models enums, Decided tree r p isThere models enums := by
  unfold decision at h
  obtain ⟨target, htarget, h⟩ := except_bind_eq_ok.1 h
  obtain ⟨isThere, hfound, h⟩ := except_bind_eq_ok.1 h
  split at h
  · cases h
  rename_i hallowed
  have hcleared : Cleared tree r target isThere :=
    ⟨htarget, mapError_eq_ok.1 hfound, not_not.1 (mt blocked_iff.2 hallowed)⟩
  unfold decisionFrom at h
  obtain ⟨listing, hlisting, h⟩ := except_bind_eq_ok.1 h
  obtain ⟨models, htables, h⟩ := except_bind_eq_ok.1 h
  obtain ⟨enums, henums, h⟩ := except_bind_eq_ok.1 h
  obtain ⟨rfl, rfl, -⟩ := planFor_eq_ok h
  exact ⟨isThere, models, enums, hcleared, hlisting, htables, henums, h⟩

end Plans

end Generate
end SchemaSpec
