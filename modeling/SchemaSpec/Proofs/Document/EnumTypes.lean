import SchemaSpec.Proofs.Document.References

/-!
# Enum types in whole documents

The types of columns and the namespaces of enums are written by two passes over one list of enums,
which may mix the enums of several models and name one twice.

* `HoldsEnum`, `columnType`: a list of enums has one for a column of a model, and the type of the
  column.
* `memberRow`, `enumText`, `namespaceText`: an enum value by value, and the enums of a model.
* `columnText`, `modelText`: a column with its type, and the columns of a model.
* `render_enumTypes`: a document has one namespace for each model with enums, all enums of the model in
  it, and each enum type that a column has is declared.
-/

namespace SchemaSpec
namespace Document

open Text

section Written

/-- The line of a value of an enum.  The value stands as it is if it is an identifier, one final line
feed left aside, and otherwise in backquotes, with a backslash before each backquote in it. -/
def memberRow (v : Text) : Text :=
  "      ".toList
    ++ (if isIdentifier (dropFinalLineFeed v) then v
        else ['\x60'] ++ v.flatMap (fun c => if c = '\x60' then ['\\', '\x60'] else [c])
          ++ ['\x60'])
    ++ [',']

/-- An enum: a line with its name, a line for each value, in order, and a closing line. -/
def enumText (e : EnumDecl) : Text :=
  join ['\n'] ["    enum ".toList ++ Naming.toPascal e.fieldName ++ " \x7b".toList,
    join ['\n'] (e.values.map memberRow), "    \x7d".toList]

/-- The enums of a model, in order, in a namespace that is named after the model. -/
def namespaceText (modelName : Text) (enums : List EnumDecl) : Text :=
  join ['\n'] ["  namespace ".toList ++ modelName ++ "Enums \x7b".toList,
    join ['\n', '\n'] (enums.map enumText), "  \x7d".toList]

/-- There is an enum for a column of a model. -/
def HoldsEnum (enums : List EnumDecl) (modelName fieldName : Text) : Prop :=
  ∃ e ∈ enums, e.modelName = modelName ∧ e.fieldName = fieldName

instance (enums : List EnumDecl) (modelName fieldName : Text) :
    Decidable (HoldsEnum enums modelName fieldName) :=
  inferInstanceAs (Decidable (∃ e ∈ enums, e.modelName = modelName ∧ e.fieldName = fieldName))

/-- The type of a column of a model: that of its enum if there is one, and otherwise its own. -/
def columnType (enums : List EnumDecl) (modelName : Text) (f : Field) : Text :=
  if HoldsEnum enums modelName f.name then
    modelName ++ "Enums.".toList ++ Naming.toPascal f.name
  else f.typeName

/-- What stands behind a column on its line. -/
def remark (f : Field) : Text :=
  match nonEmpty? f.metadata with
  | some m => " // ".toList ++ m
  | none => []

/-- The line of a column of a model, with its type. -/
def columnRow (enums : List EnumDecl) (modelName : Text) (optionalMarker : Bool) (f : Field) :
    Text :=
  "    ".toList ++ f.name ++ (if optionalMarker && f.nullable then ['?'] else []) ++ ": ".toList
    ++ columnType enums modelName f ++ (if f.nullable then " | null".toList else []) ++ [';']
    ++ remark f

/-- A column of a model, below its description. -/
def columnText (enums : List EnumDecl) (modelName : Text) (optionalMarker : Bool) (f : Field) :
    Text :=
  join ['\n'] (commentRows "    ".toList f.description
    ++ [columnRow enums modelName optionalMarker f])

/-- A model with its columns, in order, below its comment. -/
def modelText (enums : List EnumDecl) (optionalMarker : Bool) (m : TableModel) : Text :=
  join ['\n'] (commentRows "  ".toList m.comment
    ++ ["  model ".toList ++ m.name ++ " \x7b".toList,
      join ['\n'] (m.fields.map (columnText enums m.name optionalMarker)), "  \x7d".toList])

/-- The models of a document, or the line that stands for them. -/
def modelPart (enums : List EnumDecl) (optionalMarker : Bool) (models : List TableModel) :
    List Text :=
  match models with
  | [] => ["  // No models found in schema.rb".toList]
  | m :: ms => (m :: ms).map (modelText enums optionalMarker)

end Written

section Types

variable {enums : List EnumDecl}

/-- A block of three parts, one below the other. -/
theorem join_three
    (t u v : Text) :
    join ['\n'] [t, u, v] = t ++ '\n' :: (u ++ '\n' :: v) := by
  change t ++ ['\n'] ++ (u ++ ['\n'] ++ v) = _
  simp only [List.append_assoc, List.cons_append, List.nil_append]

theorem enumText_eq
    (e : EnumDecl) :
    enumBlock e = enumText e := by
  have hrow : ∀ v, enumMemberLine v = memberRow v := fun _ => rfl
  rw [enumBlock_eq, List.map_congr_left (fun v _ => hrow v)]
  exact (join_three (enumLine e) _ _).symm

theorem namespaceText_eq
    (modelName : Text)
    (enums : List EnumDecl) :
    enumNamespace modelName enums = namespaceText modelName enums := by
  have hsplit : "Enums \x7b".toList = "Enums".toList ++ " \x7b".toList := by decide
  have hhead : namespaceLine modelName
      = "  namespace ".toList ++ modelName ++ "Enums \x7b".toList := by
    unfold namespaceLine enumNamespaceName
    rw [hsplit]
    simp only [List.append_assoc]
  rw [enumNamespace_eq, List.map_congr_left (fun e _ => enumText_eq e), hhead]
  exact (join_three _ _ _).symm

/-- The search for the enum of a column finds one if there is one. -/
theorem fieldType_eq_columnType
    (enums : List EnumDecl)
    (modelName : Text)
    (f : Field) :
    fieldType modelName enums f = columnType enums modelName f := by
  have hany : enums.any (fun e => e.modelName == modelName && e.fieldName == f.name) = true
      ↔ HoldsEnum enums modelName f.name := by
    simp [HoldsEnum]
  unfold fieldType enumType? columnType
  by_cases h : HoldsEnum enums modelName f.name
  · rw [if_pos (hany.2 h), if_pos h, Option.getD_some]
    simp [enumNamespaceName]
  · rw [if_neg (fun hin => h (hany.1 hin)), if_neg h, Option.getD_none]

/-- Lines with a line feed behind each, and a text behind them, are the lines and the text joined. -/
theorem flatMap_append_eq_join
    (rows : List Text)
    {ts : List Text}
    (h : ts ≠ []) :
    rows.flatMap (fun row => row ++ ['\n']) ++ join ['\n'] ts = join ['\n'] (rows ++ ts) := by
  induction rows with
  | nil =>
      rfl
  | cons row rows ih =>
      rw [List.flatMap_cons, List.append_assoc, ih, List.cons_append,
        join_cons (List.append_ne_nil_of_right_ne_nil rows h)]

theorem columnText_eq
    (modelName : Text)
    (optionalMarker : Bool)
    (f : Field) :
    fieldLines modelName enums optionalMarker f
      = columnText enums modelName optionalMarker f := by
  have hrow : fieldRow modelName enums optionalMarker f
      = columnRow enums modelName optionalMarker f := by
    unfold fieldRow columnRow
    rw [fieldType_eq_columnType]
    rfl
  rw [fieldLines_eq, hrow]
  exact flatMap_append_eq_join _ (List.cons_ne_nil _ [])

/-- A document gives each column the type of its enum, if there is one. -/
theorem modelText_eq
    (optionalMarker : Bool)
    (m : TableModel) :
    modelBlock enums optionalMarker m = modelText enums optionalMarker m := by
  rw [modelBlock_eq, List.map_congr_left (fun f _ => columnText_eq m.name optionalMarker f),
    modelText, ← flatMap_append_eq_join _ (List.cons_ne_nil _ _), join_three]
  rfl

end Types

section Namespaces

variable {enums : List EnumDecl}

/-- The members of a list, each once, in the order of their first occurrence. -/
structure FirstSeen (names all : List Text) : Prop where
  mem : ∀ n, n ∈ names ↔ n ∈ all
  order : names.Pairwise (fun n k => all.idxOf n < all.idxOf k)

theorem firstSeen_distinct
    (all : List Text) :
    FirstSeen (EnumDecl.distinct all) all where
  mem _ := EnumDecl.mem_distinct
  order := EnumDecl.pairwise_distinct all

theorem namespaces_eq
    (enums : List EnumDecl) :
    namespaces enums
      = (EnumDecl.distinct (enums.map EnumDecl.modelName)).map
          (fun n => enumNamespace n (enumsOf enums n)) := by
  rw [namespaces, group_eq, List.map_map]
  rfl

/-- The enums of each of some models, put together, are the enums of those models. -/
theorem perm_flatMap_enumsOf
    {names : List Text}
    (hnodup : names.Nodup) :
    (names.flatMap (enumsOf enums)).Perm (enumsAmong enums names) := by
  induction names with
  | nil =>
      simp [enumsAmong]
  | cons n names ih =>
      obtain ⟨hn, hrest⟩ := List.nodup_cons.1 hnodup
      -- The enums of the first model and those of the others are the two sides of one filter.
      have hfirst : (enumsAmong enums (n :: names)).filter (fun e => e.modelName == n)
          = enumsOf enums n := enumsOf_enumsAmong List.mem_cons_self
      have hothers : (enumsAmong enums (n :: names)).filter (fun e => !(e.modelName == n))
          = enumsAmong enums names := by
        unfold enumsAmong
        rw [List.filter_filter]
        refine List.filter_congr (fun e _ => ?_)
        by_cases he : e.modelName = n
        · simp [he, hn]
        · simp [he]
      have hsplit := List.filter_append_perm (fun e => e.modelName == n)
        (enumsAmong enums (n :: names))
      rw [hfirst, hothers] at hsplit
      exact ((ih hrest).append_left _).trans hsplit

/-- No enum is lost and none is repeated when enums are put together by model. -/
theorem perm_enums
    (enums : List EnumDecl) :
    ((EnumDecl.distinct (enums.map EnumDecl.modelName)).flatMap (enumsOf enums)).Perm enums := by
  have hall : enumsAmong enums (EnumDecl.distinct (enums.map EnumDecl.modelName)) = enums := by
    unfold enumsAmong
    refine List.filter_eq_self.2 (fun e he => ?_)
    rw [List.contains_iff_mem, EnumDecl.mem_distinct]
    exact List.mem_map_of_mem he
  have hperm : ((EnumDecl.distinct (enums.map EnumDecl.modelName)).flatMap (enumsOf enums)).Perm
      (enumsAmong enums (EnumDecl.distinct (enums.map EnumDecl.modelName))) :=
    perm_flatMap_enumsOf (EnumDecl.nodup_distinct _)
  rwa [hall] at hperm

end Namespaces

section Whole

/-- A document with the types of its columns resolved and its namespaces set out. -/
theorem render_eq_join
    (s : Settings)
    (models : List TableModel)
    (enums : List EnumDecl) :
    render s models enums
      = join ['\n'] [opening s, join ['\n', '\n']
          ((EnumDecl.distinct (enums.map EnumDecl.modelName)).map
              (fun n => namespaceText n (enumsOf enums n))
            ++ modelPart enums s.optionalMarker.isOn models), closing] := by
  have hspaces : namespaces enums = (EnumDecl.distinct (enums.map EnumDecl.modelName)).map
      (fun n => namespaceText n (enumsOf enums n)) := by
    rw [namespaces_eq]
    exact List.map_congr_left (fun n _ => namespaceText_eq n _)
  have hshown : shownBlocks s models enums
      = namespaces enums ++ modelPart enums s.optionalMarker.isOn models := by
    cases models with
    | nil =>
        rfl
    | cons m ms =>
        exact congrArg (namespaces enums ++ ·)
          (List.map_congr_left (fun k _ => modelText_eq s.optionalMarker.isOn k))
  rw [render_eq, body_eq, hshown, hspaces, join_three]
  simp only [List.append_assoc, List.cons_append, List.nil_append]

/-- An enum for a column of a model is declared in the document, in the namespace of the model. -/
theorem declaresEnum_render
    {s : Settings}
    {models : List TableModel}
    {enums : List EnumDecl}
    {modelName fieldName : Text}
    (h : HoldsEnum enums modelName fieldName) :
    DeclaresEnum (enumNamespaceName modelName) (Naming.toPascal fieldName)
      (render s models enums) := by
  obtain ⟨e, he, rfl, rfl⟩ := h
  have hown : e ∈ enumsOf enums e.modelName := List.mem_filter.2 ⟨he, beq_self_eq_true _⟩
  have hblock := enumNamespace_mem_namespaces he
  rw [namespaces_eq] at hblock
  have hspaces : (EnumDecl.distinct (enums.map EnumDecl.modelName)).map
      (fun n => enumNamespace n (enumsOf enums n))
      = (EnumDecl.distinct (enums.map EnumDecl.modelName)).map
        (fun n => namespaceText n (enumsOf enums n)) :=
    List.map_congr_left (fun n _ => namespaceText_eq n _)
  rw [hspaces] at hblock
  have hjoined := declaresEnum_join
    (List.mem_append_left (modelPart enums s.optionalMarker.isOn models) hblock)
    (declaresEnum_enumNamespace hown)
  have hgap : endsInWord false (opening s ++ ['\n']) = false := by
    rw [endsInWord_concat]
    decide
  have hdocument := (hjoined.append_left hgap).append_right ('\n' :: closing)
  rw [render_eq_join, join_three]
  simpa only [List.append_assoc, List.cons_append, List.nil_append] using hdocument

/-- Enum types and enum namespaces agree in the document of any models and enums.  Each column has the
type of its enum exactly if there is one.  The models with enums have one namespace each, in the order
of their first enum, with all their enums in order, each with all its values; no enum is lost, repeated
or moved.  Each enum type that a column has is declared. -/
theorem render_enumTypes
    (s : Settings)
    (models : List TableModel)
    (enums : List EnumDecl) :
    ∃ names, FirstSeen names (enums.map EnumDecl.modelName)
      ∧ render s models enums
        = join ['\n'] [opening s, join ['\n', '\n']
            (names.map (fun n => namespaceText n (enumsOf enums n))
              ++ modelPart enums s.optionalMarker.isOn models), closing]
      ∧ (names.flatMap (enumsOf enums)).Perm enums
      ∧ (∀ n ∈ names, ∀ e ∈ enumsOf enums n, e.modelName = n)
      ∧ ∀ m ∈ models, ∀ f ∈ m.fields, HoldsEnum enums m.name f.name →
        DeclaresEnum (m.name ++ "Enums".toList) (Naming.toPascal f.name)
          (render s models enums) := by
  refine ⟨_, firstSeen_distinct _, render_eq_join s models enums, perm_enums enums, ?_, ?_⟩
  · exact fun n _ e he => beq_iff_eq.1 (List.mem_filter.1 he).2
  · exact fun m _ f _ h => declaresEnum_render h

/-- The enums of two models, mixed, with one of them named twice. -/
def mixedEnums : List EnumDecl :=
  [orderEnum "state".toList "open".toList, ⟨"kind".toList, "Post".toList, ["note".toList]⟩,
    orderEnum "state".toList "shut".toList]

/-- The namespace of a model has both enums that are declared for one column of it. -/
theorem render_enumTypes_order :
    ∃ names, FirstSeen names ["Order".toList, "Post".toList, "Order".toList]
      ∧ (names.flatMap (enumsOf mixedEnums)).Perm mixedEnums
      ∧ DeclaresEnum "OrderEnums".toList "State".toList
        (render {} [orderModel "state".toList] mixedEnums) := by
  obtain ⟨names, hnames, -, hperm, -, hdeclared⟩ :=
    render_enumTypes {} [orderModel "state".toList] mixedEnums
  exact ⟨names, hnames, hperm, hdeclared (orderModel "state".toList) List.mem_cons_self
    { name := "state".toList, typeName := "int32".toList } List.mem_cons_self (by decide)⟩

end Whole

end Document
end SchemaSpec
