import SchemaSpec.Proofs.Enumeration.OneLine
import SchemaSpec.Proofs.Document.Sheet
import SchemaSpec.Proofs.Listing.Facts

/-!
# Free text in documents

A listing and the model files hold free text: comments, defaults, names of tables, values of enums.
None of it leaves the place that a document has for it.

* `cutAt?_openComment`: the text of a comment does not close it.
* `fieldRow_plain`: metadata stands behind `//` on the line of its column.
* `Confined`: what holds of a document whose texts stay in their places.
* `confined_render`: this holds of the document of every listing.
-/

namespace SchemaSpec
namespace Document

open Text

section Comments

/-- A line on which the first sign that closes a comment ends the line. -/
def IsClosed (row : Text) : Prop :=
  ∃ before, cutAt? "*/".toList row = some (before, [])

/-- The text of a comment holds no sign that closes it, and makes none with the space behind it. -/
theorem cutAt?_openComment
    (t : Text) :
    cutAt? "*/".toList (openComment t ++ " */".toList) = some (openComment t ++ [' '], []) := by
  induction t using openComment.induct with
  | case1 =>
      decide
  | case2 r ih =>
      simp only [String.reduceToList] at ih ⊢
      simp [openComment, cutAt?, after?, ih]
  | case3 c r hc ih =>
      -- A star with a slash behind it would be the pair that is written apart, so `c` is none.
      have hstart : c = '*' → (openComment r ++ " */".toList).head? ≠ some '/' := by
        rintro rfl hslash
        cases r with
        | nil =>
            simp [openComment] at hslash
        | cons d r =>
            have hd : d ≠ '/' := fun heq => hc r rfl (by rw [heq])
            unfold openComment at hslash
            split at hslash <;> simp_all
      have hno : after? "*/".toList (c :: (openComment r ++ " */".toList)) = none := by
        cases hrest : openComment r ++ " */".toList with
        | nil =>
            simp at hrest
        | cons d rest =>
            rw [hrest] at hstart
            by_cases hstar : c = '*'
            · have hd : d ≠ '/' := by simpa using hstart hstar
              simp [after?, hstar, hd]
            · simp [after?, hstar]
      rw [openComment, List.cons_append, cutAt?, hno, ih]
      · rfl
      · exact hc

/-- Spaces before a text change nothing about where it is cut. -/
theorem cutAt?_spaces
    {spaces : Text}
    (hspaces : ∀ c ∈ spaces, c = ' ')
    {t before behind : Text}
    (h : cutAt? "*/".toList t = some (before, behind)) :
    cutAt? "*/".toList (spaces ++ t) = some (spaces ++ before, behind) := by
  induction spaces with
  | nil =>
      exact h
  | cons c spaces ih =>
      have hrest := ih (fun d hd => hspaces d (List.mem_cons_of_mem _ hd))
      have hno : after? "*/".toList (' ' :: (spaces ++ t)) = none := by
        simp [after?]
      rw [hspaces c List.mem_cons_self, List.cons_append, cutAt?, hno, hrest]
      rfl

/-- Every comment is closed at the end of its line and not before. -/
theorem isClosed_of_mem_commentRows
    {indent row : Text}
    {text : Option Text}
    (hindent : ∀ c ∈ indent, c = ' ')
    (h : row ∈ commentRows indent text) :
    IsClosed row := by
  obtain ⟨t, -, rfl⟩ := List.mem_map.1 h
  have hopen : cutAt? "*/".toList ("/** ".toList ++ (openComment t ++ " */".toList))
      = some ("/** ".toList ++ (openComment t ++ [' ']), []) := by
    have ht := cutAt?_openComment t
    simp only [String.reduceToList, List.cons_append, List.nil_append] at ht ⊢
    simp [cutAt?, after?, ht]
  refine ⟨indent ++ ("/** ".toList ++ (openComment t ++ [' '])), ?_⟩
  rw [List.append_assoc, List.append_assoc]
  exact cutAt?_spaces hindent hopen

end Comments

section Metadata

/-- What stands behind a column on its line. -/
def trailing (f : Field) : Text :=
  match nonEmpty? f.metadata with
  | some m => " // ".toList ++ m
  | none => []

/-- A line that is another one, with nothing or a `//` behind it. -/
def IsBehindSlashes (row line : Text) : Prop :=
  ∃ rest, line = row ++ rest ∧ (rest = [] ∨ " // ".toList <+: rest)

variable {s : Settings} {models : List TableModel} {enums : List EnumDecl}

/-- Metadata only adds something behind the line that its column has without it. -/
theorem fieldRow_plain
    (modelName : Text)
    (enums : List EnumDecl)
    (optionalMarker : Bool)
    (f : Field) :
    fieldRow modelName enums optionalMarker f
      = fieldRow modelName enums optionalMarker f.plain ++ trailing f := by
  have hnone : nonEmpty? f.plain.metadata = none := rfl
  unfold fieldRow trailing
  rw [hnone]
  cases nonEmpty? f.metadata with
  | none =>
      simp only [List.append_nil]
      rfl
  | some t =>
      simp only [List.append_nil]
      rfl

theorem isBehindSlashes_self
    (row : Text) :
    IsBehindSlashes row row :=
  ⟨[], (List.append_nil row).symm, Or.inl rfl⟩

theorem isBehindSlashes_fieldRow
    (modelName : Text)
    (optionalMarker : Bool)
    (f : Field) :
    IsBehindSlashes (fieldRow modelName enums optionalMarker f.plain)
      (fieldRow modelName enums optionalMarker f) := by
  refine ⟨trailing f, fieldRow_plain modelName enums optionalMarker f, ?_⟩
  unfold trailing
  split
  · exact Or.inr (List.prefix_append _ _)
  · exact Or.inl rfl

theorem forall₂_modelRows_plain
    (optionalMarker : Bool)
    (m : TableModel) :
    List.Forall₂ IsBehindSlashes (modelRows enums optionalMarker m.plain)
      (modelRows enums optionalMarker m) := by
  have hself : ∀ rows : List Text, List.Forall₂ IsBehindSlashes rows rows := fun rows =>
    List.forall₂_same.2 (fun row _ => isBehindSlashes_self row)
  have hfield : ∀ f : Field, List.Forall₂ IsBehindSlashes
      (fieldRows m.name enums optionalMarker f.plain) (fieldRows m.name enums optionalMarker f) :=
    fun f => List.rel_append (hself _)
      (List.Forall₂.cons (isBehindSlashes_fieldRow m.name optionalMarker f) List.Forall₂.nil)
  have hfields : List.Forall₂ IsBehindSlashes
      ((m.fields.map Field.plain).flatMap (fieldRows m.name enums optionalMarker))
      (m.fields.flatMap (fieldRows m.name enums optionalMarker)) := by
    induction m.fields with
    | nil =>
        exact List.Forall₂.nil
    | cons f fs ih =>
        exact List.rel_append (hfield f) ih
  exact List.rel_append (hself _) (List.Forall₂.cons (isBehindSlashes_self _)
    (List.rel_append (forall₂_orBlank (isBehindSlashes_self []) hfields) (hself _)))

theorem modelTexts_plain_subset
    (m : TableModel) :
    modelTexts m.plain ⊆ modelTexts m := by
  intro t ht
  simp only [modelTexts, TableModel.plain, List.mem_cons, List.mem_append, List.mem_flatMap,
    List.mem_map] at ht ⊢
  rcases ht with ht | ht | ⟨g, ⟨f, hf, rfl⟩, ht⟩
  · exact Or.inl ht
  · exact Or.inr (Or.inl ht)
  · refine Or.inr (Or.inr ⟨f, hf, ?_⟩)
    simp only [fieldTexts, Field.plain, Option.toList_none, List.append_nil, List.mem_cons] at ht
    simp only [fieldTexts, List.mem_cons, List.mem_append]
    rcases ht with ht | ht | ht
    · exact Or.inl ht
    · exact Or.inr (Or.inl ht)
    · exact Or.inr (Or.inr (Or.inl ht))

end Metadata

section Confinement

/-- What holds of the document of some models and enums when each text stays in its place: every text
is one line, so that each column, value and comment has its own line; comments end where their lines
end; and metadata adds nothing but what stands behind `//` on the line of its column. -/
structure Confined (s : Settings) (models : List TableModel) (enums : List EnumDecl) : Prop where
  oneLine : OneLine (models.flatMap modelTexts ++ enums.flatMap enumTexts)
  rows : lines (render s models enums) = documentRows s models enums
  tableComments : ∀ m ∈ models, ∀ row ∈ commentRows "  ".toList m.comment, IsClosed row
  descriptions : ∀ m ∈ models, ∀ f ∈ m.fields,
    ∀ row ∈ commentRows "    ".toList f.description, IsClosed row
  columns : ∀ m ∈ models, ∀ f ∈ m.fields,
    fieldRow m.name enums s.optionalMarker.isOn f
      = fieldRow m.name enums s.optionalMarker.isOn f.plain ++ trailing f
  metadata : List.Forall₂ IsBehindSlashes
    (lines (render s (models.map TableModel.plain) enums)) (lines (render s models enums))

variable {s : Settings} {models : List TableModel} {enums : List EnumDecl}

theorem confined_of_oneLine
    (hs : OneLine (settingTexts s))
    (hmodels : ∀ m ∈ models, OneLine (modelTexts m))
    (henums : ∀ e ∈ enums, OneLine (enumTexts e) ∧ e.values ≠ []) :
    Confined s models enums := by
  have hplain : ∀ m ∈ models.map TableModel.plain, OneLine (modelTexts m) := by
    intro p hp
    obtain ⟨m, hm, rfl⟩ := List.mem_map.1 hp
    exact fun t ht => hmodels m hm t (modelTexts_plain_subset m ht)
  have houter : ∀ c ∈ "  ".toList, c = ' ' := by simp
  have hinner : ∀ c ∈ "    ".toList, c = ' ' := by simp
  refine
    { oneLine := fun t ht => ?_
      rows := lines_render hs hmodels henums
      tableComments := fun m _ row hrow => isClosed_of_mem_commentRows houter hrow
      descriptions := fun m _ f _ row hrow => isClosed_of_mem_commentRows hinner hrow
      columns := fun m _ f _ => fieldRow_plain m.name enums s.optionalMarker.isOn f
      metadata := ?_ }
  · rcases List.mem_append.1 ht with ht | ht
    · obtain ⟨m, hm, ht⟩ := List.mem_flatMap.1 ht
      exact hmodels m hm t ht
    · obtain ⟨e, he, ht⟩ := List.mem_flatMap.1 ht
      exact (henums e he).1 t ht
  · rw [lines_render hs hplain henums, lines_render hs hmodels henums]
    exact forall₂_documentRows isBehindSlashes_self
      (fun m _ => forall₂_modelRows_plain s.optionalMarker.isOn m)

/-- The free text of a listing and of model files stays in its places in the document, and what an
option for precision, scale, limit, default or referenced table says changes metadata only. -/
theorem confined_render
    {listing : Text}
    {parsed : List TableModel}
    (hparse : Schema.parse listing = .ok parsed)
    (hmodels : models ⊆ parsed)
    {sources : List (Text × Text)}
    (hsources : ∀ source ∈ sources, '\n' ∉ source.1)
    (hs : OneLine (settingTexts s)) :
    Confined s models (sources.flatMap (fun source => EnumDecl.ofSource source.1 source.2))
      ∧ ∀ header block body body' m m',
        List.Forall₂ (Column.SameButFacts block) body body' →
        Schema.blockModel header block body = .ok m →
        Schema.blockModel header block body' = .ok m' →
        m.plain = m'.plain := by
  refine ⟨confined_of_oneLine hs (fun m hm => ?_) (fun e he => ?_), ?_⟩
  · exact (Schema.isRead_of_parse hparse m (hmodels hm)).oneLine
  · obtain ⟨source, hsource, he⟩ := List.mem_flatMap.1 he
    exact EnumDecl.oneLine_ofSource (hsources source hsource) he
  · exact fun header block body body' m m' h hread hread' =>
      Schema.plain_blockModel h hread hread'

/-- A listing whose texts try to leave their places. -/
def unrulyListing : Text :=
  join ['\n'] ["create_table \"posts\", comment: \"a */ b **// c*\" do |t|".toList,
    "  t.string \"title\", comment: \"*/\", limit: 5, default: \"one\\ntwo\"".toList,
    "  t.references \"user\", foreign_key: \x7b to_table: \"peo*/ple\" \x7d".toList, "end".toList]

/-- The model of that listing. -/
def unrulyPost : TableModel where
  name := "Post".toList
  tableName := "posts".toList
  comment := some "a */ b **// c*".toList
  primaryKey := some "id".toList
  fields := [
    { name := "id".toList, typeName := "int64".toList, nullable := false },
    { name := "title".toList, typeName := "string".toList, description := some "*/".toList
      metadata := some "limit: 5; default: \"one two\"".toList
      default := some (.text "one two".toList) },
    { name := "user_id".toList, typeName := "int64".toList
      metadata := some "ref: peo*/ple".toList }]

/-- The tables that one header gives with one of two columns that differ in facts. -/
def titled (column : Text) : Except LiteralError TableModel :=
  Schema.blockModel (Header.ofAttributes "posts".toList []) ['t'] [column]

theorem sameButFacts_title :
    Column.SameButFacts ['t'] "t.string \"title\", limit: 5".toList
      "t.string \"title\", default: \"*/\"".toList := by
  have hline : Column.columnParts? ['t'] "t.string \"title\", limit: 5".toList
      = some ("string".toList, "title".toList, ", limit: 5".toList) := by
    decide +kernel
  have hline' : Column.columnParts? ['t'] "t.string \"title\", default: \"*/\"".toList
      = some ("string".toList, "title".toList, ", default: \"*/\"".toList) := by
    decide +kernel
  refine Column.SameButFacts.facts hline hline' (fun key hkey => ?_)
  have hlimit : Options.parse ", limit: 5".toList = [("limit".toList, "5".toList)] := by
    decide +kernel
  have hdefault : Options.parse ", default: \"*/\"".toList
      = [("default".toList, "\"*/\"".toList)] := by
    decide +kernel
  have hneLimit : key ≠ "limit".toList := fun heq => hkey (heq ▸ by decide)
  have hneDefault : key ≠ "default".toList := fun heq => hkey (heq ▸ by decide)
  rw [hlimit, hdefault, Options.get?, Options.get?, List.lookup_cons, List.lookup_cons,
    beq_false_of_ne hneLimit, beq_false_of_ne hneDefault]

theorem confined_render_post :
    Schema.parse unrulyListing = .ok [unrulyPost]
      ∧ (∀ source ∈ [("Post".toList, "enum :state, %w[*/ open]".toList)], '\n' ∉ source.1)
      ∧ OneLine (settingTexts {})
      ∧ Confined {} [unrulyPost]
        ([("Post".toList, "enum :state, %w[*/ open]".toList)].flatMap
          (fun source => EnumDecl.ofSource source.1 source.2))
      ∧ ∃ m m', titled "t.string \"title\", limit: 5".toList = .ok m
        ∧ titled "t.string \"title\", default: \"*/\"".toList = .ok m'
        ∧ m ≠ m' ∧ m.plain = m'.plain := by
  have hparse : Schema.parse unrulyListing = .ok [unrulyPost] := by decide +kernel
  have hsources : ∀ source ∈ [("Post".toList, "enum :state, %w[*/ open]".toList)],
      '\n' ∉ source.1 := by decide
  have hs : OneLine (settingTexts {}) := by decide
  obtain ⟨hconfined, hfacts⟩ :=
    confined_render hparse (List.Subset.refl [unrulyPost]) hsources hs
  have hdiffer : ∃ m m', titled "t.string \"title\", limit: 5".toList = .ok m
      ∧ titled "t.string \"title\", default: \"*/\"".toList = .ok m' ∧ m ≠ m' := by
    refine ⟨_, _, rfl, rfl, ?_⟩
    decide +kernel
  obtain ⟨m, m', hm, hm', hne⟩ := hdiffer
  exact ⟨hparse, hsources, hs, hconfined, m, m', hm, hm', hne,
    hfacts _ _ _ _ m m' (List.Forall₂.cons sameButFacts_title List.Forall₂.nil) hm hm'⟩

end Confinement

end Document
end SchemaSpec
