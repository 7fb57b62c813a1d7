import SchemaSpec.Proofs.Document.Layout
import SchemaSpec.Proofs.Text.Casing

/-!
# The lines of blocks

Models and enums without line feeds in their texts give blocks of a plain form: a comment line or
none, an opening line, inner lines that are empty or indented by four, and a closing line.

* `modelTexts`, `enumTexts`, `settingTexts`: the texts that are written; `OneLine` says that they
  have no line feed.
* `IsBlock`: the form of a block.
* `isBlock_modelBlock`, `isBlock_enumNamespace`: all blocks have it.
-/

namespace SchemaSpec
namespace Document

open Text

/-- Texts without line feeds. -/
def OneLine (ts : List Text) : Prop :=
  ∀ t ∈ ts, '\n' ∉ t

instance (ts : List Text) : Decidable (OneLine ts) := by
  unfold OneLine
  infer_instance

/-- The texts of a column. -/
def fieldTexts (f : Field) : List Text :=
  f.name :: f.typeName :: (f.description.toList ++ f.metadata.toList)

/-- The texts of a model. -/
def modelTexts (m : TableModel) : List Text :=
  m.name :: (m.comment.toList ++ m.fields.flatMap fieldTexts)

/-- The texts of an enum. -/
def enumTexts (e : EnumDecl) : List Text :=
  e.modelName :: e.fieldName :: e.values

/-- The texts of the settings that are written. -/
def settingTexts (s : Settings) : List Text :=
  [s.serviceTitle, s.serverUrl, s.serverDescription, s.routePrefix, s.namespaceName].map
    SettingValue.toText

/-- An inner line of a block. -/
def IsInner (line : Text) : Prop :=
  line = [] ∨ "    ".toList <+: line

/-- Whether a line opens a block. -/
def opensBlock (line : Text) : Bool :=
  "  model ".toList.isPrefixOf line || "  namespace ".toList.isPrefixOf line

/-- Whether a line is the comment of a block. -/
def isBlockComment (line : Text) : Bool :=
  "  /** ".toList.isPrefixOf line

/-- The form of a block. -/
def IsBlock (t : Text) : Prop :=
  ∃ above opener inner, lines t = above ++ opener :: (inner ++ [closingLine])
    ∧ (above = [] ∨ ∃ comment, above = [comment] ∧ isBlockComment comment = true)
    ∧ opensBlock opener = true ∧ ∀ line ∈ inner, IsInner line

section Comments

theorem lineFeed_not_mem_openComment
    {t : Text}
    (h : '\n' ∉ t) :
    '\n' ∉ openComment t := by
  induction t using openComment.induct with
  | case1 =>
      exact h
  | case2 r ih =>
      have hr : '\n' ∉ r := fun hmem => h (by simp [hmem])
      simpa [openComment] using ih hr
  | case3 c r hc ih =>
      have hr : '\n' ∉ r := fun hmem => h (List.mem_cons_of_mem _ hmem)
      have hne : '\n' ≠ c := fun heq => h (heq ▸ List.mem_cons_self)
      rw [openComment]
      · simpa [hne] using ih hr
      · exact hc

theorem mem_of_nonEmpty?
    {text : Option Text}
    {t : Text}
    (h : nonEmpty? text = some t) :
    t ∈ text.toList := by
  rw [nonEmpty?, Option.filter_eq_some_iff] at h
  exact Option.mem_toList.2 h.1

/-- A comment is one line or none. -/
theorem commentRows_cases
    {indent : Text}
    {text : Option Text}
    (hindent : '\n' ∉ indent)
    (h : OneLine text.toList) :
    commentRows indent text = [] ∨ ∃ row, commentRows indent text = [row]
      ∧ (indent ++ "/** ".toList) <+: row ∧ lines row = [row] := by
  unfold commentRows
  cases htext : nonEmpty? text with
  | none =>
      exact Or.inl rfl
  | some t =>
      refine Or.inr ⟨_, rfl, ⟨openComment t ++ " */".toList, ?_⟩, lines_eq_singleton ?_⟩
      · simp only [List.append_assoc]
      · have ht := lineFeed_not_mem_openComment (h t (mem_of_nonEmpty? htext))
        exact lineFeed_not_mem_append (lineFeed_not_mem_append
          (lineFeed_not_mem_append hindent (by decide)) ht) (by decide)

end Comments

section Columns

/-- The last line of a column. -/
def fieldRow (modelName : Text) (enums : List EnumDecl) (optionalMarker : Bool) (f : Field) :
    Text :=
  "    ".toList ++ f.name
    ++ (if optionalMarker && f.nullable then ['?'] else [])
    ++ ": ".toList ++ fieldType modelName enums f
    ++ (if f.nullable then " | null".toList else [])
    ++ [';']
    ++ (match nonEmpty? f.metadata with
        | some m => " // ".toList ++ m
        | none => [])

variable {modelName : Text} {enums : List EnumDecl} {optionalMarker : Bool}

theorem fieldLines_eq
    (f : Field) :
    fieldLines modelName enums optionalMarker f
      = (commentRows "    ".toList f.description).flatMap (fun row => row ++ ['\n'])
        ++ fieldRow modelName enums optionalMarker f := by
  unfold fieldLines fieldRow
  rw [docComment?_eq]
  cases nonEmpty? f.metadata with
  | none =>
      simp only [List.append_assoc]
  | some m =>
      simp only [List.append_assoc]

theorem lineFeed_not_mem_fieldType
    {f : Field}
    (hmodel : '\n' ∉ modelName)
    (h : OneLine (fieldTexts f)) :
    '\n' ∉ fieldType modelName enums f := by
  unfold fieldType enumType?
  split
  · exact lineFeed_not_mem_append (lineFeed_not_mem_append
      (lineFeed_not_mem_append hmodel (by decide)) (by decide)) (Naming.lineFeed_not_mem_toPascal _)
  · exact h f.typeName (by simp [fieldTexts])

theorem lineFeed_not_mem_fieldRow
    {f : Field}
    (hmodel : '\n' ∉ modelName)
    (h : OneLine (fieldTexts f)) :
    '\n' ∉ fieldRow modelName enums optionalMarker f := by
  have hname : '\n' ∉ f.name := h f.name (by simp [fieldTexts])
  have hmark : '\n' ∉ (if optionalMarker && f.nullable then ['?'] else []) := by
    split <;> decide
  have hnull : '\n' ∉ (if f.nullable then " | null".toList else []) := by
    split <;> decide
  unfold fieldRow
  refine lineFeed_not_mem_append (lineFeed_not_mem_append (lineFeed_not_mem_append
    (lineFeed_not_mem_append (lineFeed_not_mem_append (lineFeed_not_mem_append
      (lineFeed_not_mem_append (by decide) hname) hmark) (by decide))
      (lineFeed_not_mem_fieldType hmodel h)) hnull) (by decide)) ?_
  split
  · rename_i t ht
    have htext : t ∈ fieldTexts f := by
      simp [fieldTexts, Option.mem_toList.1 (mem_of_nonEmpty? ht)]
    exact lineFeed_not_mem_append (by decide) (h t htext)
  · exact List.not_mem_nil

/-- The lines of a column are inner lines. -/
theorem isInner_of_mem_fieldLines
    {f : Field}
    (hmodel : '\n' ∉ modelName)
    (h : OneLine (fieldTexts f)) :
    ∀ line ∈ lines (fieldLines modelName enums optionalMarker f), IsInner line := by
  have hcomment : OneLine f.description.toList := fun t ht =>
    h t (List.mem_cons_of_mem _ (List.mem_cons_of_mem _ (List.mem_append_left _ ht)))
  intro line hline
  rw [fieldLines_eq, lines_flatMap_append, List.mem_append,
    lines_eq_singleton (lineFeed_not_mem_fieldRow hmodel h)] at hline
  rcases hline with hline | hline
  · rcases commentRows_cases (by decide : '\n' ∉ "    ".toList) hcomment with
      hnil | ⟨row, hrow, hindent, hone⟩
    · rw [hnil] at hline
      cases hline
    · rw [hrow, List.flatMap_singleton, hone] at hline
      rw [List.mem_singleton.1 hline]
      exact Or.inr ((List.prefix_append _ _).trans hindent)
  · rw [List.mem_singleton.1 hline]
    refine Or.inr ?_
    unfold fieldRow
    simp only [List.append_assoc]
    exact List.prefix_append _ _

end Columns

section Enums

theorem lineFeed_not_mem_enumMember
    {v : Text}
    (h : '\n' ∉ v) :
    '\n' ∉ enumMember v := by
  unfold enumMember
  split
  · exact h
  · have hescaped : '\n' ∉ v.flatMap (fun c => if c = '\x60' then ['\\', '\x60'] else [c]) := by
      intro hmem
      obtain ⟨c, hc, hmem⟩ := List.mem_flatMap.1 hmem
      split at hmem
      · simp at hmem
      · exact h (List.mem_singleton.1 hmem ▸ hc)
    simp [hescaped]

/-- The line that opens an enum. -/
def enumLine (e : EnumDecl) : Text :=
  "    enum ".toList ++ Naming.toPascal e.fieldName ++ " \x7b".toList

theorem enumBlock_eq
    (e : EnumDecl) :
    enumBlock e
      = enumLine e ++ '\n'
        :: (join ['\n'] (e.values.map enumMemberLine) ++ '\n' :: "    \x7d".toList) := by
  have hend : "\n    \x7d".toList = '\n' :: "    \x7d".toList := by decide
  unfold enumBlock enumLine
  rw [brace_lineFeed, hend]
  simp only [List.append_assoc, List.cons_append, List.nil_append]

/-- The lines of an enum are inner lines. -/
theorem isInner_of_mem_enumBlock
    {e : EnumDecl}
    (h : OneLine (enumTexts e)) :
    ∀ line ∈ lines (enumBlock e), IsInner line := by
  have hopen : '\n' ∉ enumLine e :=
    lineFeed_not_mem_append (lineFeed_not_mem_append (by decide)
      (Naming.lineFeed_not_mem_toPascal _)) (by decide)
  intro line hline
  rw [enumBlock_eq, lines_append_cons, lines_append_cons, lines_eq_singleton hopen,
    lines_eq_singleton (by decide : '\n' ∉ "    \x7d".toList)] at hline
  simp only [List.mem_append, List.mem_singleton] at hline
  rcases hline with rfl | hmember | rfl
  · refine Or.inr ?_
    have hsplit : "    enum ".toList = "    ".toList ++ "enum ".toList := by decide
    unfold enumLine
    rw [hsplit, List.append_assoc, List.append_assoc]
    exact List.prefix_append _ _
  · by_cases hvalues : e.values = []
    · rw [hvalues] at hmember
      exact Or.inl (List.mem_singleton.1 hmember)
    · rw [lines_join_lineFeed (by simpa using hvalues), List.mem_flatMap] at hmember
      obtain ⟨row, hrow, hline⟩ := hmember
      obtain ⟨v, hv, rfl⟩ := List.mem_map.1 hrow
      have hvalue : '\n' ∉ v := h v (by simp [enumTexts, hv])
      have hone : '\n' ∉ enumMemberLine v :=
        lineFeed_not_mem_append (lineFeed_not_mem_append (by decide)
          (lineFeed_not_mem_enumMember hvalue)) (by decide)
      rw [lines_eq_singleton hone] at hline
      rw [List.mem_singleton.1 hline]
      refine Or.inr ?_
      have hsplit : "      ".toList = "    ".toList ++ "  ".toList := by decide
      unfold enumMemberLine
      rw [hsplit, List.append_assoc, List.append_assoc]
      exact List.prefix_append _ _
  · exact Or.inr (by decide)

end Enums

section Blocks

theorem opensBlock_headerLine
    (name : Text) :
    opensBlock (headerLine name) = true := by
  unfold opensBlock headerLine
  rw [Bool.or_eq_true, List.isPrefixOf_iff_prefix, List.append_assoc]
  exact Or.inl (List.prefix_append _ _)

theorem opensBlock_namespaceLine
    (modelName : Text) :
    opensBlock (namespaceLine modelName) = true := by
  unfold opensBlock namespaceLine
  rw [Bool.or_eq_true, List.append_assoc]
  refine Or.inr ?_
  rw [List.isPrefixOf_iff_prefix]
  exact List.prefix_append _ _

/-- A model block has the form of a block. -/
theorem isBlock_modelBlock
    {m : TableModel}
    (h : OneLine (modelTexts m))
    (enums : List EnumDecl)
    (optionalMarker : Bool) :
    IsBlock (modelBlock enums optionalMarker m) := by
  have hname : '\n' ∉ m.name := h m.name List.mem_cons_self
  have hcomment : OneLine m.comment.toList := fun t ht =>
    h t (List.mem_cons_of_mem _ (List.mem_append_left _ ht))
  have hfields : ∀ f ∈ m.fields, OneLine (fieldTexts f) := fun f hf t ht =>
    h t (List.mem_cons_of_mem _ (List.mem_append_right _ (List.mem_flatMap.2 ⟨f, hf, ht⟩)))
  have hheader : '\n' ∉ headerLine m.name :=
    lineFeed_not_mem_append (lineFeed_not_mem_append (by decide) hname) (by decide)
  refine ⟨(commentRows "  ".toList m.comment).flatMap lines, headerLine m.name,
    lines (join ['\n'] (m.fields.map (fieldLines m.name enums optionalMarker))), ?_, ?_, ?_, ?_⟩
  · rw [lines_modelBlock, lines_eq_singleton hheader]
    rfl
  · rcases commentRows_cases (by decide : '\n' ∉ "  ".toList) hcomment with
      hnil | ⟨row, hrow, hindent, hone⟩
    · exact Or.inl (by rw [hnil]; rfl)
    · refine Or.inr ⟨row, by rw [hrow, List.flatMap_singleton, hone], ?_⟩
      have hsplit : "  /** ".toList = "  ".toList ++ "/** ".toList := by decide
      unfold isBlockComment
      rw [hsplit]
      exact List.isPrefixOf_iff_prefix.2 hindent
  · exact opensBlock_headerLine m.name
  · intro line hline
    by_cases hnone : m.fields = []
    · rw [hnone] at hline
      exact Or.inl (List.mem_singleton.1 hline)
    · rw [lines_join_lineFeed (by simpa using hnone), List.mem_flatMap] at hline
      obtain ⟨row, hrow, hline⟩ := hline
      obtain ⟨f, hf, rfl⟩ := List.mem_map.1 hrow
      exact isInner_of_mem_fieldLines hname (hfields f hf) line hline

/-- An enum namespace has the form of a block. -/
theorem isBlock_enumNamespace
    {modelName : Text}
    {enums : List EnumDecl}
    (hname : '\n' ∉ modelName)
    (h : ∀ e ∈ enums, OneLine (enumTexts e)) :
    IsBlock (enumNamespace modelName enums) := by
  have hopen : '\n' ∉ namespaceLine modelName :=
    lineFeed_not_mem_append (lineFeed_not_mem_append (by decide)
      (lineFeed_not_mem_append hname (by decide))) (by decide)
  refine ⟨[], namespaceLine modelName, lines (join ['\n', '\n'] (enums.map enumBlock)), ?_,
    Or.inl rfl, ?_, ?_⟩
  · rw [enumNamespace_eq, lines_append_cons, lines_append_cons, lines_eq_singleton hopen,
      lines_eq_singleton (by decide : '\n' ∉ closingLine)]
    rfl
  · exact opensBlock_namespaceLine modelName
  · intro line hline
    rcases mem_lines_join_blank hline with hnil | ⟨t, ht, hline⟩
    · exact Or.inl hnil
    · obtain ⟨e, he, rfl⟩ := List.mem_map.1 ht
      exact isInner_of_mem_enumBlock (h e he) line hline

end Blocks

end Document
end SchemaSpec
