import SchemaSpec.Proofs.Enumeration.OneLine
import SchemaSpec.Proofs.Document.EnumTypes
import SchemaSpec.Proofs.Document.Sheet
import SchemaSpec.Proofs.Generate.Decision
import SchemaSpec.Proofs.Generate.Effect

/-!
# Enums in generated documents

The enums of a namespace come from all model files that are about one model, and a file is about the
model that its name says, whatever directory it is in.  Each declaration gives an enum of its own.

* `Document.enumNames`: the names of the enums that a block declares, read off its lines.
* `declarationsOf`, `collected`: the declarations of a model, and of the models of all tables, in the
  order of the model files.
* `filesOf`, `filesFor`: the model files of a project, and those that a run reads.
* `EnumsOfFiles`: what the namespaces of a document have to do with the model files.
* `enumNames_generate`: a document that a run creates or overwrites is such a document; so an enum is
  declared in it twice exactly if the model files declare it twice.
-/

namespace SchemaSpec

open Text

namespace Document

section Names

/-- The name of the enum that a line opens, if it opens one. -/
def openedEnum? (line : Text) : Option Text :=
  (after? "    enum ".toList line).bind
    (fun rest => (after? " \x7b".toList.reverse rest.reverse).map List.reverse)

/-- The names of the enums that a block declares, in order. -/
def enumNames (block : Text) : List Text :=
  (lines block).filterMap openedEnum?

theorem openedEnum?_named
    (name : Text) :
    openedEnum? ("    enum ".toList ++ name ++ " \x7b".toList) = some name := by
  have hopen : after? "    enum ".toList ("    enum ".toList ++ name ++ " \x7b".toList)
      = some (name ++ " \x7b".toList) := by
    rw [after?_eq_some_iff, List.append_assoc]
  have hclose : after? " \x7b".toList.reverse (name ++ " \x7b".toList).reverse
      = some name.reverse := by
    rw [after?_eq_some_iff, List.reverse_append]
  unfold openedEnum?
  rw [hopen, Option.bind_some, hclose, Option.map_some, List.reverse_reverse]

theorem openedEnum?_enumLine
    (e : EnumDecl) :
    openedEnum? (enumLine e) = some (Naming.toPascal e.fieldName) :=
  openedEnum?_named _

theorem openedEnum?_eq_none
    {line : Text}
    (h : after? "    enum ".toList line = none) :
    openedEnum? line = none := by
  unfold openedEnum?
  rw [h]
  rfl

theorem openedEnum?_enumMemberLine
    (v : Text) :
    openedEnum? (enumMemberLine v) = none := by
  unfold enumMemberLine
  rw [List.append_assoc]
  exact openedEnum?_eq_none rfl

theorem openedEnum?_namespaceLine
    (modelName : Text) :
    openedEnum? (namespaceLine modelName) = none := by
  unfold namespaceLine
  rw [List.append_assoc]
  exact openedEnum?_eq_none rfl

theorem filterMap_enumRows
    (e : EnumDecl) :
    (enumRows e).filterMap openedEnum? = [Naming.toPascal e.fieldName] := by
  have hmembers : (e.values.map enumMemberLine).filterMap openedEnum? = [] := by
    rw [List.filterMap_eq_nil_iff]
    intro row hrow
    obtain ⟨v, -, rfl⟩ := List.mem_map.1 hrow
    exact openedEnum?_enumMemberLine v
  have hend : ["    \x7d".toList].filterMap openedEnum? = [] := by decide
  simp only [enumRows, List.filterMap_cons_some (openedEnum?_enumLine e), List.filterMap_append,
    hmembers, hend, List.append_nil]

theorem filterMap_spaced
    {α : Type}
    {f : Text → Option α}
    (hblank : f [] = none)
    (groups : List (List Text)) :
    (spaced groups).filterMap f = groups.flatMap (fun rows => rows.filterMap f) := by
  induction groups with
  | nil =>
      rfl
  | cons rows groups ih =>
      cases groups with
      | nil =>
          simp [spaced]
      | cons next rest =>
          rw [spaced, List.filterMap_append, List.filterMap_cons_none hblank, ih]
          rfl

/-- A namespace declares its enums, each under its name, and no other. -/
theorem enumNames_enumNamespace
    {modelName : Text}
    {enums : List EnumDecl}
    (hname : '\n' ∉ modelName)
    (hne : enums ≠ [])
    (h : ∀ e ∈ enums, OneLine (enumTexts e) ∧ e.values ≠ []) :
    enumNames (enumNamespace modelName enums)
      = enums.map (fun e => Naming.toPascal e.fieldName) := by
  have hend : [closingLine].filterMap openedEnum? = [] := by decide
  unfold enumNames
  rw [lines_enumNamespace hname hne h, namespaceRows,
    List.filterMap_cons_none (openedEnum?_namespaceLine modelName), List.filterMap_append,
    filterMap_spaced (by decide), hend, List.append_nil, List.flatMap_map]
  simp only [filterMap_enumRows]
  exact List.map_eq_flatMap.symm

end Names

end Document

namespace Generate

open Document

variable {tree : FileTree} {r : Request} {j : Journal}

section Declarations

/-- The declarations in a model file; one that cannot be read has none. -/
def declaredIn (tree : FileTree) (modelName : Text) (file : Path) : List EnumDecl :=
  match tree.readText (Path.segmentsOf file.toText) with
  | .ok source => EnumDecl.ofSource modelName source
  | .error _ => []

/-- The declarations of a model: those of the files with its name, in the order of the files. -/
def declarationsOf (tree : FileTree) (files : List Path) (modelName : Text) : List EnumDecl :=
  (files.filter (fun p => ModelFiles.modelOfPath p.toText == modelName)).flatMap
    (declaredIn tree modelName)

/-- What a model file declares, if it is about the model of a table. -/
def declaredFor (tree : FileTree) (tables : List TableModel) (file : Path) : List EnumDecl :=
  if (ModelFiles.relevantModels (tables.map TableModel.tableName)).contains
      (ModelFiles.modelOfPath file.toText) then
    declaredIn tree (ModelFiles.modelOfPath file.toText) file
  else []

/-- The declarations of the models of some tables, in the order of the files. -/
def collected (tree : FileTree) (tables : List TableModel) (files : List Path) : List EnumDecl :=
  files.flatMap (declaredFor tree tables)

/-- Reading files gives what they declare for the models of the tables. -/
theorem flatMap_visitsIn
    (tree : FileTree)
    (tables : List TableModel)
    (files : List Path) :
    (visitsIn tree tables files).flatMap ModelFiles.Visit.enums = collected tree tables files := by
  induction files with
  | nil =>
      rfl
  | cons p files ih =>
      unfold visitsIn at ih ⊢
      unfold collected
      rw [List.flatMap_cons, List.map_cons, ModelFiles.visits_step]
      unfold declaredFor declaredIn
      by_cases hmem : (ModelFiles.relevantModels (tables.map TableModel.tableName)).contains
          (ModelFiles.modelOfPath p.toText) = true
      · rw [if_pos hmem, if_pos hmem, readModelFile]
        cases tree.readText (Path.segmentsOf p.toText) with
        | ok source =>
            exact congrArg (EnumDecl.ofSource (ModelFiles.modelOfPath p.toText) source ++ ·) ih
        | error e =>
            exact ih
      · rw [if_neg hmem, if_neg hmem]
        exact ih

theorem modelName_of_mem_declaredIn
    {modelName : Text}
    {file : Path}
    {e : EnumDecl}
    (h : e ∈ declaredIn tree modelName file) :
    e.modelName = modelName := by
  unfold declaredIn at h
  split at h
  · exact EnumDecl.modelName_of_mem_ofSource h
  · cases h

/-- The enums of a model, among all that the files declare, are its declarations. -/
theorem enumsOf_collected
    {tables : List TableModel}
    {modelName : Text}
    (h : modelName ∈ ModelFiles.relevantModels (tables.map TableModel.tableName))
    (files : List Path) :
    enumsOf (collected tree tables files) modelName = declarationsOf tree files modelName := by
  induction files with
  | nil =>
      rfl
  | cons p files ih =>
      -- What a file declares belongs to the model of its name: all of it is kept, or none.
      have hself : ∀ n, enumsOf (declaredIn tree n p) n = declaredIn tree n p := by
        intro n
        refine List.filter_eq_self.2 (fun e he => ?_)
        rw [modelName_of_mem_declaredIn he, beq_self_eq_true]
      have hother : ∀ n, n ≠ modelName → enumsOf (declaredIn tree n p) modelName = [] := by
        intro n hn
        refine enumsOf_eq_nil (fun hmem => ?_)
        obtain ⟨e, he, hname⟩ := List.mem_map.1 hmem
        exact hn ((modelName_of_mem_declaredIn he).symm.trans hname)
      have hfirst : enumsOf (declaredFor tree tables p) modelName
          = if ModelFiles.modelOfPath p.toText = modelName then declaredIn tree modelName p
            else [] := by
        unfold declaredFor
        by_cases hp : ModelFiles.modelOfPath p.toText = modelName
        · rw [hp, if_pos (List.contains_iff_mem.2 h), if_pos rfl, hself]
        · rw [if_neg hp]
          split
          · exact hother _ hp
          · rfl
      have hsplit : ∀ es ds : List EnumDecl,
          enumsOf (es ++ ds) modelName = enumsOf es modelName ++ enumsOf ds modelName := fun es ds =>
        List.filter_append es ds
      unfold collected at ih ⊢
      rw [List.flatMap_cons, hsplit, hfirst, ih]
      unfold declarationsOf
      by_cases hp : ModelFiles.modelOfPath p.toText = modelName
      · rw [if_pos hp, List.filter_cons_of_pos (by simpa using hp), List.flatMap_cons]
      · rw [if_neg hp, List.filter_cons_of_neg (by simpa using hp), List.nil_append]

/-- Every enum that the files declare for the models of the tables belongs to one of these. -/
theorem relevant_of_mem_collected
    {tables : List TableModel}
    {files : List Path}
    {e : EnumDecl}
    (h : e ∈ collected tree tables files) :
    e.modelName ∈ ModelFiles.relevantModels (tables.map TableModel.tableName) := by
  obtain ⟨p, -, h⟩ := List.mem_flatMap.1 h
  unfold declaredFor at h
  split at h
  · rename_i hmem
    rw [modelName_of_mem_declaredIn h]
    exact List.contains_iff_mem.1 hmem
  · cases h

theorem oneLine_declarationsOf
    {files : List Path}
    {modelName : Text}
    (hname : '\n' ∉ modelName)
    {e : EnumDecl}
    (h : e ∈ declarationsOf tree files modelName) :
    OneLine (enumTexts e) ∧ e.values ≠ [] := by
  obtain ⟨p, -, he⟩ := List.mem_flatMap.1 h
  unfold declaredIn at he
  split at he
  · exact EnumDecl.oneLine_ofSource hname he
  · cases he

end Declarations

section Written

/-- The model files of a project: what is found below its `app/models`, but for the file that holds no
model of its own. -/
def filesOf (tree : FileTree) (project : Path) : Except SystemError (List Path) := do
  let found ← tree.searchAll project
    (["node_modules", ".git", "dist", "build", "vendor", "tmp", "concerns"].map String.toList)
    (["app/models/**/*.rb", "backend/app/models/**/*.rb", "server/app/models/**/*.rb",
      "**/app/models/**/*.rb"].map String.toList)
  return found.filter (fun p => p.name != "application_record.rb".toList)

/-- The model files that a run reads: those of the project of the listing, if enums are to be included
and there are tables. -/
def filesFor (tree : FileTree) (r : Request) (listing : Path) (tables : List TableModel) :
    Except SystemError (List Path) :=
  if r.settings.includeEnums.isOn && !tables.isEmpty then
    filesOf tree (SchemaFile.projectRoot listing)
  else .ok []

/-- What the namespaces of a new document have to do with the model files that a run reads.  There is a
namespace for each model of a table that a model file with its name declares an enum for; behind the
namespaces stand the models of the tables, with the types of their columns. -/
structure EnumsOfFiles (tree : FileTree) (r : Request) (o : Outcome) (text : Text)
    (tables : List TableModel) (files : List Path) (names : List Text) : Prop where
  document : text = join ['\n'] [opening r.settings, join ['\n', '\n']
    (names.map (fun n => namespaceText n (declarationsOf tree files n))
      ++ modelPart (collected tree (sortModels tables) files) r.settings.optionalMarker.isOn
        (sortModels tables)), closing]
  shown : o.models = (sortModels tables).map TableModel.name
  found : filesFor tree r o.schema tables = .ok files
  nodup : names.Nodup
  mem : ∀ n, n ∈ names ↔ r.settings.includeEnums.isOn = true
    ∧ n ∈ ModelFiles.relevantModels (tables.map TableModel.tableName)
    ∧ declarationsOf tree files n ≠ []
  /-- A namespace has one enum for each declaration, in order. -/
  declared : ∀ n ∈ names, enumNames (namespaceText n (declarationsOf tree files n))
    = (declarationsOf tree files n).map (fun e => Naming.toPascal e.fieldName)
  /-- Names repeat exactly if two declarations give their enums one name. -/
  unique : ∀ n ∈ names, (enumNames (namespaceText n (declarationsOf tree files n))).Nodup
    ↔ (declarationsOf tree files n).Pairwise
      (fun d e => Naming.toPascal d.fieldName ≠ Naming.toPascal e.fieldName)

theorem modelFiles_eq_filesOf
    (tree : FileTree)
    (project : Path) :
    ModelFiles.modelFiles tree project = filesOf tree project := rfl

theorem enumsOf_ne_nil_iff
    {enums : List EnumDecl}
    {modelName : Text} :
    enumsOf enums modelName ≠ [] ↔ modelName ∈ enums.map EnumDecl.modelName := by
  constructor
  · exact fun h => not_not.1 (mt enumsOf_eq_nil h)
  · intro h
    obtain ⟨e, he, hname⟩ := List.mem_map.1 h
    exact List.ne_nil_of_mem (List.mem_filter.2 ⟨he, beq_iff_eq.2 hname⟩)

theorem relevant_of_mem_map_collected
    {tables : List TableModel}
    {files : List Path}
    {n : Text}
    (h : n ∈ (collected tree tables files).map EnumDecl.modelName) :
    n ∈ ModelFiles.relevantModels (tables.map TableModel.tableName) := by
  obtain ⟨e, he, rfl⟩ := List.mem_map.1 h
  exact relevant_of_mem_collected he

/-- The enums of a run are what the model files declare for the models of the tables. -/
theorem exists_files_of_enumsOrNone
    {listing : Path}
    {tables : List TableModel}
    {enums : List EnumDecl}
    (h : enumsOrNone tree r listing tables = .ok enums) :
    ∃ files, enums = collected tree tables files
      ∧ filesFor tree r listing tables = .ok files
      ∧ ∀ n, n ∈ enums.map EnumDecl.modelName ↔ r.settings.includeEnums.isOn = true
        ∧ n ∈ ModelFiles.relevantModels (tables.map TableModel.tableName)
        ∧ declarationsOf tree files n ≠ [] := by
  unfold enumsOrNone at h
  split at h
  · rename_i hcollect
    unfold enumsFor at h
    obtain ⟨files, hfiles, h⟩ := except_bind_eq_ok.1 h
    obtain ⟨-, -, h⟩ := except_bind_eq_ok.1 h
    rw [flatMap_visitsIn] at h
    cases h
    have hread : filesFor tree r listing tables = .ok files := by
      rw [filesFor, if_pos hcollect, ← modelFiles_eq_filesOf]
      exact mapError_eq_ok.1 hfiles
    refine ⟨files, rfl, hread, fun n => ?_⟩
    constructor
    · intro hn
      have hrelevant := relevant_of_mem_map_collected hn
      refine ⟨(Bool.and_eq_true_iff.1 hcollect).1, hrelevant, ?_⟩
      rw [← enumsOf_collected hrelevant files]
      exact enumsOf_ne_nil_iff.2 hn
    · rintro ⟨-, hn, hne⟩
      rw [← enumsOf_collected hn files] at hne
      exact enumsOf_ne_nil_iff.1 hne
  · -- No model file is read, since enums are left out or there are no tables.
    rename_i hcollect
    cases h
    refine ⟨[], rfl, by rw [filesFor, if_neg hcollect], fun n => ?_⟩
    refine iff_of_false List.not_mem_nil ?_
    rintro ⟨-, -, hne⟩
    exact hne rfl

/-- A run that creates or overwrites a document has written what the tables and the enums that it read
give. -/
theorem written_of_outcome
    (ht : tree.IsRooted)
    {o : Outcome}
    (h : (generate tree r j).outcome = .ok o)
    (haction : o.action = .created ∨ o.action = .overwritten) :
    ∃ tables enums, tablesIn tree o.schema = .ok tables
      ∧ enumsOrNone tree r o.schema (sortModels tables) = .ok enums
      ∧ o.models = (sortModels tables).map TableModel.name
      ∧ (generate tree r j).tree.entry? o.target
        = some (.file (encode (render r.settings (sortModels tables) enums))) := by
  obtain ⟨p, hp, happly, rfl, -⟩ := exists_plan_of_outcome h
  obtain ⟨isThere, tables, enums, hdecided⟩ := decision_eq_ok hp
  -- A plan that extends the target has another action.
  have hfresh : p = freshPlan r p.outcome.target isThere p.outcome.schema (sortModels tables) enums := by
    obtain ⟨-, -, hfresh | ⟨hold | hold, -⟩⟩ := planFor_eq_ok hdecided.made
    · exact hfresh
    · rw [hold] at haction
      rcases haction with hno | hno <;> cases hno
    · rw [hold] at haction
      rcases haction with hno | hno <;> cases hno
  have hcontent : p.content
      = some ⟨render r.settings (sortModels tables) enums, r.documentFault?⟩ :=
    congrArg Plan.content hfresh
  obtain ⟨replace, hplaced⟩ :=
    apply_placed ht (above_notMem_target hdecided.cleared.settled) hcontent happly
  rw [tree_generate hp]
  exact ⟨tables, enums, hdecided.tables, hdecided.collected,
    congrArg (fun q : Plan => q.outcome.models) hfresh, (hplaced.written rfl).1⟩

theorem mem_relevantModels_sortModels
    {tables : List TableModel}
    {n : Text} :
    n ∈ ModelFiles.relevantModels ((sortModels tables).map TableModel.tableName)
      ↔ n ∈ ModelFiles.relevantModels (tables.map TableModel.tableName) := by
  have hperm : (sortModels tables).Perm tables := List.mergeSort_perm _ _
  exact ((hperm.map TableModel.tableName).map Naming.modelName).mem_iff

/-- The order of the tables does not matter to the files that are read. -/
theorem filesFor_sortModels
    {listing : Path}
    {tables : List TableModel} :
    filesFor tree r listing (sortModels tables) = filesFor tree r listing tables := by
  have hempty : (sortModels tables).isEmpty = tables.isEmpty := by
    rw [Bool.eq_iff_iff, List.isEmpty_iff, List.isEmpty_iff]
    exact not_iff_not.1 sortModels_ne_nil
  rw [filesFor, hempty, ← filesFor]

/-- A document that a run creates or overwrites has one namespace for each model with enums.  Such a
namespace declares what the readable model files with the name of the model declare, all of it, in
order; so it declares an enum twice exactly if two of these declarations give their enums one name. -/
theorem enumNames_generate
    (ht : tree.IsRooted)
    {o : Outcome}
    (h : (generate tree r j).outcome = .ok o)
    (haction : o.action = .created ∨ o.action = .overwritten) :
    ∃ text tables files names,
      (generate tree r j).tree.entry? o.target = some (.file (encode text))
      ∧ tablesIn tree o.schema = .ok tables
      ∧ EnumsOfFiles tree r o text tables files names := by
  obtain ⟨tables, enums, htables, henums, hshown, hwritten⟩ := written_of_outcome ht h haction
  obtain ⟨files, hcollected, hfiles, hmodels⟩ := exists_files_of_enumsOrNone henums
  have hnames : ∀ n, n ∈ EnumDecl.distinct (enums.map EnumDecl.modelName)
      ↔ n ∈ enums.map EnumDecl.modelName := fun n =>
    EnumDecl.mem_distinct
  have hread : ∀ n ∈ EnumDecl.distinct (enums.map EnumDecl.modelName),
      enumNames (namespaceText n (declarationsOf tree files n))
        = (declarationsOf tree files n).map (fun e => Naming.toPascal e.fieldName) := by
    intro n hn
    obtain ⟨-, hrelevant, hne⟩ := (hmodels n).1 ((hnames n).1 hn)
    have hline : '\n' ∉ n := by
      obtain ⟨t, -, ht⟩ := List.mem_map.1 hrelevant
      rw [← ht]
      exact Naming.lineFeed_not_mem_toPascal _
    rw [← namespaceText_eq]
    exact enumNames_enumNamespace hline hne (fun e he => oneLine_declarationsOf hline he)
  have hown : ∀ n ∈ EnumDecl.distinct (enums.map EnumDecl.modelName),
      namespaceText n (enumsOf enums n) = namespaceText n (declarationsOf tree files n) := by
    intro n hn
    rw [hcollected, enumsOf_collected ((hmodels n).1 ((hnames n).1 hn)).2.1]
  refine ⟨_, tables, files, EnumDecl.distinct (enums.map EnumDecl.modelName), hwritten, htables, ?_⟩
  exact {
    document := by
      rw [render_eq_join, List.map_congr_left hown, ← hcollected]
    shown := hshown
    found := filesFor_sortModels ▸ hfiles
    nodup := EnumDecl.nodup_distinct _
    mem := fun n => by rw [hnames, hmodels, mem_relevantModels_sortModels]
    declared := hread
    unique := fun n hn => by rw [hread n hn, List.Nodup, List.pairwise_map] }

end Written

section Samples

/-- A project whose one table has a model file that declares an enum twice. -/
def repeatedEnums : FileTree where
  entries :=
    [(["db".toList], .directory),
      (["db".toList, "schema.rb".toList],
        .file (encode "create_table \"orders\" do |t|\nend\n".toList)),
      (["app".toList], .directory),
      (["app".toList, "models".toList], .directory),
      (["app".toList, "models".toList, "order.rb".toList],
        .file (encode "enum :status, [:open]\nenum :status, [:open]\n".toList))]

/-- The namespace of orders in a document for the project above. -/
def ordersNamespace : Text :=
  enumNamespace "Order".toList
    [⟨"status".toList, "Order".toList, ["open".toList]⟩,
      ⟨"status".toList, "Order".toList, ["open".toList]⟩]

theorem action_repeatedEnums :
    (generate repeatedEnums (requestFor "api.tsp".toList)).outcome.toOption.map Outcome.action
      = some .created := by
  decide +kernel

/-- The document for this project has the enums of its model file. -/
theorem enumNames_generate_repeatedEnums :
    repeatedEnums.IsRooted
      ∧ ∃ o, (generate repeatedEnums (requestFor "api.tsp".toList)).outcome = .ok o
        ∧ o.action = .created
        ∧ ∃ text tables files names,
          FileTree.entry? (generate repeatedEnums (requestFor "api.tsp".toList)).tree o.target
              = some (.file (encode text))
            ∧ tablesIn repeatedEnums o.schema = .ok tables
            ∧ EnumsOfFiles repeatedEnums (requestFor "api.tsp".toList) o text tables files names := by
  have hrooted : repeatedEnums.IsRooted :=
    (FileTree.isProper_of_entries (by decide +kernel)).rooted
  have hends := action_repeatedEnums
  cases houtcome : (generate repeatedEnums (requestFor "api.tsp".toList)).outcome with
  | error stop =>
      rw [houtcome] at hends
      cases hends
  | ok o =>
      rw [houtcome] at hends
      have haction : o.action = .created := Option.some.inj hends
      exact ⟨hrooted, o, rfl, haction, enumNames_generate hrooted houtcome (Or.inl haction)⟩

/-- The model file declares one enum twice, and so does the namespace in the document. -/
theorem enum_declared_twice :
    ∃ text, (generate repeatedEnums (requestFor "api.tsp".toList)).outcome.toOption.map
          Outcome.action = some .created
      ∧ FileTree.entry? (generate repeatedEnums (requestFor "api.tsp".toList)).tree
          ["api.tsp".toList] = some (.file (encode text))
      ∧ ordersNamespace <:+: text
      ∧ ¬ (enumNames ordersNamespace).Nodup := by
  have hwritten : FileTree.entry? (generate repeatedEnums (requestFor "api.tsp".toList)).tree
        ["api.tsp".toList]
      = some (.file (encode (opening {} ++ ['\n'] ++ ordersNamespace
        ++ "\n\n  model Order \x7b\n    id: int64;\n  \x7d\n\x7d\n".toList))) := by
    decide +kernel
  exact ⟨_, action_repeatedEnums, hwritten, ⟨_, _, rfl⟩, by decide +kernel⟩

end Samples

end Generate
end SchemaSpec
