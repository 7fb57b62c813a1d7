import Mathlib.Data.List.Forall2
import SchemaSpec.Proofs.Document.Bodies

/-!
# The lines of a whole document

A document is laid out line by line: a column takes one line, and one more for its description, a
value of an enum takes one line, the comment of a table takes one line.  This holds as long as no text
in it has a line feed.

* `spaced`: groups of lines with empty lines between them.
* `fieldRows`, `modelRows`, `enumRows`, `namespaceRows`, `documentRows`: the lines of each part.
* `lines_render`: a document has these lines and no other.
* `forall₂_documentRows`: lines that correspond to each other, column by column, correspond to each
  other in the whole document.
-/

namespace SchemaSpec
namespace Document

open Text

section Spacing

/-- Groups of lines with an empty line between each two of them. -/
def spaced : List (List Text) → List Text
  | [] => []
  | [rows] => rows
  | rows :: next :: rest => rows ++ [] :: spaced (next :: rest)

/-- Lines, or an empty line if there are none. -/
def orBlank : List Text → List Text
  | [] => [[]]
  | row :: rows => row :: rows

theorem lines_join_spaced
    {ts : List Text}
    (h : ts ≠ []) :
    lines (join ['\n', '\n'] ts) = spaced (ts.map lines) := by
  induction ts with
  | nil =>
      exact absurd rfl h
  | cons t ts ih =>
      cases ts with
      | nil =>
          rfl
      | cons u us =>
          rw [lines_join_blank (List.cons_ne_nil u us), ih (List.cons_ne_nil u us)]
          rfl

theorem lines_join_orBlank
    (ts : List Text) :
    lines (join ['\n'] ts) = orBlank (ts.flatMap lines) := by
  cases ts with
  | nil =>
      rfl
  | cons t ts =>
      obtain ⟨row, rows, hrows⟩ := List.exists_cons_of_ne_nil (lines_ne_nil t)
      rw [lines_join_lineFeed (List.cons_ne_nil t ts), List.flatMap_cons, hrows]
      rfl

variable {R : Text → Text → Prop}

theorem forall₂_spaced
    (hblank : R [] [])
    {groups groups' : List (List Text)}
    (h : List.Forall₂ (List.Forall₂ R) groups groups') :
    List.Forall₂ R (spaced groups) (spaced groups') := by
  induction h with
  | nil =>
      exact List.Forall₂.nil
  | cons hrows hrest ih =>
      cases hrest with
      | nil =>
          exact hrows
      | cons hnext hrest =>
          exact List.rel_append hrows (List.Forall₂.cons hblank ih)

theorem forall₂_orBlank
    (hblank : R [] [])
    {rows rows' : List Text}
    (h : List.Forall₂ R rows rows') :
    List.Forall₂ R (orBlank rows) (orBlank rows') := by
  cases h with
  | nil =>
      exact List.Forall₂.cons hblank List.Forall₂.nil
  | cons hrow hrest =>
      exact List.Forall₂.cons hrow hrest

end Spacing

section Parts

/-- The lines of a column: its description, unless there is none, and its declaration. -/
def fieldRows (modelName : Text) (enums : List EnumDecl) (optionalMarker : Bool) (f : Field) :
    List Text :=
  commentRows "    ".toList f.description ++ [fieldRow modelName enums optionalMarker f]

/-- The lines of a model: its comment, unless there is none, and its columns between two lines. -/
def modelRows (enums : List EnumDecl) (optionalMarker : Bool) (m : TableModel) : List Text :=
  commentRows "  ".toList m.comment
    ++ headerLine m.name
      :: (orBlank (m.fields.flatMap (fieldRows m.name enums optionalMarker)) ++ [closingLine])

/-- The lines of an enum: its values between two lines. -/
def enumRows (e : EnumDecl) : List Text :=
  enumLine e :: (e.values.map enumMemberLine ++ ["    \x7d".toList])

/-- The lines of a namespace of enums. -/
def namespaceRows (modelName : Text) (enums : List EnumDecl) : List Text :=
  namespaceLine modelName :: (spaced (enums.map enumRows) ++ [closingLine])

/-- The lines of the models, or the line that stands for them. -/
def shownRows (s : Settings) (models : List TableModel) (enums : List EnumDecl) :
    List (List Text) :=
  match models with
  | [] => [[placeholder]]
  | m :: ms => (m :: ms).map (modelRows enums s.optionalMarker.isOn)

/-- The lines of a document. -/
def documentRows (s : Settings) (models : List TableModel) (enums : List EnumDecl) : List Text :=
  openingRows s
    ++ spaced ((group enums).map (fun g => namespaceRows g.1 g.2) ++ shownRows s models enums)
    ++ [['\x7d'], []]

variable {modelName : Text} {enums : List EnumDecl} {optionalMarker : Bool}

theorem lines_commentRows
    {indent : Text}
    {text : Option Text}
    (hindent : '\n' ∉ indent)
    (h : OneLine text.toList) :
    (commentRows indent text).flatMap lines = commentRows indent text := by
  rcases commentRows_cases hindent h with hnil | ⟨row, hrow, -, hone⟩
  · rw [hnil]
    rfl
  · rw [hrow, List.flatMap_singleton, hone]

theorem lines_fieldLines
    {f : Field}
    (hmodel : '\n' ∉ modelName)
    (h : OneLine (fieldTexts f)) :
    lines (fieldLines modelName enums optionalMarker f)
      = fieldRows modelName enums optionalMarker f := by
  have hdescription : OneLine f.description.toList := fun t ht =>
    h t (List.mem_cons_of_mem _ (List.mem_cons_of_mem _ (List.mem_append_left _ ht)))
  rw [fieldLines_eq, lines_flatMap_append, lines_commentRows (by decide) hdescription,
    lines_eq_singleton (lineFeed_not_mem_fieldRow hmodel h)]
  rfl

theorem lines_modelBlock_eq_rows
    {m : TableModel}
    (h : OneLine (modelTexts m)) :
    lines (modelBlock enums optionalMarker m) = modelRows enums optionalMarker m := by
  have hname : '\n' ∉ m.name := h m.name List.mem_cons_self
  have hcomment : OneLine m.comment.toList := fun t ht =>
    h t (List.mem_cons_of_mem _ (List.mem_append_left _ ht))
  have hfields : ∀ f ∈ m.fields, lines (fieldLines m.name enums optionalMarker f)
      = fieldRows m.name enums optionalMarker f := fun f hf =>
    lines_fieldLines hname (fun t ht =>
      h t (List.mem_cons_of_mem _ (List.mem_append_right _ (List.mem_flatMap.2 ⟨f, hf, ht⟩))))
  have hheader : '\n' ∉ headerLine m.name :=
    lineFeed_not_mem_append (lineFeed_not_mem_append (by decide) hname) (by decide)
  rw [lines_modelBlock, lines_commentRows (by decide) hcomment, lines_eq_singleton hheader,
    lines_join_orBlank, List.flatMap_map, List.flatMap_congr hfields]
  rfl

theorem lines_enumBlock
    {e : EnumDecl}
    (h : OneLine (enumTexts e))
    (hvalues : e.values ≠ []) :
    lines (enumBlock e) = enumRows e := by
  have hopen : '\n' ∉ enumLine e :=
    lineFeed_not_mem_append (lineFeed_not_mem_append (by decide)
      (Naming.lineFeed_not_mem_toPascal _)) (by decide)
  have hmembers : ∀ row ∈ e.values.map enumMemberLine, '\n' ∉ row := by
    intro row hrow
    obtain ⟨v, hv, rfl⟩ := List.mem_map.1 hrow
    have hvalue : '\n' ∉ v := h v (by simp [enumTexts, hv])
    exact lineFeed_not_mem_append (lineFeed_not_mem_append (by decide)
      (lineFeed_not_mem_enumMember hvalue)) (by decide)
  rw [enumBlock_eq, lines_append_cons, lines_append_cons, lines_eq_singleton hopen,
    lines_join (by simpa using hvalues) hmembers,
    lines_eq_singleton (by decide : '\n' ∉ "    \x7d".toList)]
  rfl

theorem lines_enumNamespace
    (hname : '\n' ∉ modelName)
    (hne : enums ≠ [])
    (h : ∀ e ∈ enums, OneLine (enumTexts e) ∧ e.values ≠ []) :
    lines (enumNamespace modelName enums) = namespaceRows modelName enums := by
  have hopen : '\n' ∉ namespaceLine modelName :=
    lineFeed_not_mem_append (lineFeed_not_mem_append (by decide)
      (lineFeed_not_mem_append hname (by decide))) (by decide)
  have hrows : (enums.map enumBlock).map lines = enums.map enumRows := by
    rw [List.map_map]
    exact List.map_congr_left (fun e he => lines_enumBlock (h e he).1 (h e he).2)
  rw [enumNamespace_eq, lines_append_cons, lines_append_cons, lines_eq_singleton hopen,
    lines_join_spaced (by simpa using hne), hrows,
    lines_eq_singleton (by decide : '\n' ∉ closingLine)]
  rfl

end Parts

section Whole

variable {s : Settings} {models : List TableModel} {enums : List EnumDecl}

theorem map_lines_namespaces
    (h : ∀ e ∈ enums, OneLine (enumTexts e) ∧ e.values ≠ []) :
    (namespaces enums).map lines = (group enums).map (fun g => namespaceRows g.1 g.2) := by
  obtain ⟨names, -, hmem, hgroup⟩ := exists_group_eq enums
  unfold namespaces
  rw [hgroup, List.map_map, List.map_map, List.map_map]
  refine List.map_congr_left (fun n hn => ?_)
  obtain ⟨e, he, rfl⟩ := List.mem_map.1 ((hmem n).1 hn)
  have hown : e ∈ enumsOf enums e.modelName := List.mem_filter.2 ⟨he, by simp⟩
  exact lines_enumNamespace ((h e he).1 e.modelName List.mem_cons_self) (List.ne_nil_of_mem hown)
    (fun d hd => h d (List.mem_filter.1 hd).1)

theorem map_lines_shownBlocks
    (hmodels : ∀ m ∈ models, OneLine (modelTexts m))
    (henums : ∀ e ∈ enums, OneLine (enumTexts e) ∧ e.values ≠ []) :
    (shownBlocks s models enums).map lines
      = (group enums).map (fun g => namespaceRows g.1 g.2) ++ shownRows s models enums := by
  cases models with
  | nil =>
      have hone : lines placeholder = [placeholder] := by decide
      rw [shownBlocks, List.map_append, map_lines_namespaces henums, List.map_singleton, hone]
      rfl
  | cons m ms =>
      rw [shownBlocks, blocksOf, List.map_append, map_lines_namespaces henums, List.map_map]
      exact congrArg _ (List.map_congr_left (fun m hm => lines_modelBlock_eq_rows (hmodels m hm)))

/-- The lines of a document, if its texts are one line each. -/
theorem lines_render
    (hs : OneLine (settingTexts s))
    (hmodels : ∀ m ∈ models, OneLine (modelTexts m))
    (henums : ∀ e ∈ enums, OneLine (enumTexts e) ∧ e.values ≠ []) :
    lines (render s models enums) = documentRows s models enums := by
  have hsome : shownBlocks s models enums ≠ [] := by
    cases models with
    | nil =>
        exact List.append_ne_nil_of_right_ne_nil _ (List.cons_ne_nil _ _)
    | cons m ms =>
        exact List.append_ne_nil_of_right_ne_nil _ (List.cons_ne_nil _ _)
  have hend : lines closing = [['\x7d'], []] := by decide
  have hrender : render s models enums
      = opening s ++ '\n' :: (join ['\n', '\n'] (shownBlocks s models enums) ++ '\n' :: closing) := by
    rw [render_eq, body_eq]
    simp only [List.append_assoc, List.cons_append, List.nil_append]
  rw [hrender, lines_append_cons, lines_append_cons, lines_opening hs, lines_join_spaced hsome,
    map_lines_shownBlocks hmodels henums, hend, documentRows, List.append_assoc]

/-- Documents with models whose columns have corresponding lines have corresponding lines. -/
theorem forall₂_documentRows
    {R : Text → Text → Prop}
    (hrefl : ∀ row, R row row)
    {change : TableModel → TableModel}
    (hchange : ∀ m ∈ models, List.Forall₂ R (modelRows enums s.optionalMarker.isOn (change m))
      (modelRows enums s.optionalMarker.isOn m)) :
    List.Forall₂ R (documentRows s (models.map change) enums) (documentRows s models enums) := by
  have hself : ∀ rows : List Text, List.Forall₂ R rows rows := fun rows =>
    List.forall₂_same.2 (fun row _ => hrefl row)
  have hshown : List.Forall₂ (List.Forall₂ R) (shownRows s (models.map change) enums)
      (shownRows s models enums) := by
    cases models with
    | nil =>
        exact List.forall₂_same.2 (fun rows _ => hself rows)
    | cons m ms =>
        have hmap : List.Forall₂ (fun m' m => List.Forall₂ R
            (modelRows enums s.optionalMarker.isOn m') (modelRows enums s.optionalMarker.isOn m))
            ((m :: ms).map change) (m :: ms) :=
          List.forall₂_map_left_iff.2 (List.forall₂_same.2 hchange)
        exact List.forall₂_map_left_iff.2 (List.forall₂_map_right_iff.2 hmap)
  have hgroups : List.Forall₂ (List.Forall₂ R)
      ((group enums).map (fun g => namespaceRows g.1 g.2))
      ((group enums).map (fun g => namespaceRows g.1 g.2)) :=
    List.forall₂_same.2 (fun rows _ => hself rows)
  exact List.rel_append (List.rel_append (hself _)
    (forall₂_spaced (hrefl []) (List.rel_append hgroups hshown))) (hself _)

end Whole

end Document
end SchemaSpec
