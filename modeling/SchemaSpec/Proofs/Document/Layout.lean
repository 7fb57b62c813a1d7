import SchemaSpec.Proofs.Text.Lines
import SchemaSpec.Proofs.Document.Declarations
import SchemaSpec.Document.Merge

/-!
# How documents are laid out

A document is a body and the brace that closes it.

* `modelBlock_eq`, `enumNamespace_eq`: the parts of a block.
* `body`, `render_eq`: the body of a fresh document.
* `extended`, `merge_closed`: extending a document extends its body, and never fails.
* `exists_merge_eq_ok`, `merge_eq_ok`: extending any document that ends with a brace, and what it
  gives.
-/

namespace SchemaSpec
namespace Document

open Text

section Blocks

/-- The line of a comment, unless there is nothing to say. -/
def commentRows (indent : Text) (text : Option Text) : List Text :=
  (nonEmpty? text).toList.map (fun t => indent ++ "/** ".toList ++ openComment t ++ " */".toList)

/-- The line that opens a model. -/
def headerLine (name : Text) : Text :=
  "  model ".toList ++ name ++ " \x7b".toList

/-- The line that opens a namespace of enums. -/
def namespaceLine (modelName : Text) : Text :=
  "  namespace ".toList ++ enumNamespaceName modelName ++ " \x7b".toList

/-- The line that closes a block. -/
def closingLine : Text := "  \x7d".toList

theorem docComment?_eq
    (indent : Text)
    (text : Option Text) :
    docComment? indent text = (commentRows indent text).flatMap (fun row => row ++ ['\n']) := by
  have hend : " */\n".toList = " */".toList ++ ['\n'] := by decide
  unfold docComment? commentRows
  cases nonEmpty? text with
  | none =>
      rfl
  | some t =>
      simp only [docComment, hend, Option.toList_some, List.map_cons, List.map_nil,
        List.flatMap_cons, List.flatMap_nil, List.append_nil, List.append_assoc]

theorem brace_lineFeed :
    " \x7b\n".toList = " \x7b".toList ++ ['\n'] := by
  decide

theorem lineFeed_closing :
    "\n  \x7d".toList = '\n' :: closingLine := by
  decide

theorem modelBlock_eq
    (enums : List EnumDecl)
    (optionalMarker : Bool)
    (m : TableModel) :
    modelBlock enums optionalMarker m
      = (commentRows "  ".toList m.comment).flatMap (fun row => row ++ ['\n'])
        ++ (headerLine m.name ++ '\n'
          :: (join ['\n'] (m.fields.map (fieldLines m.name enums optionalMarker))
            ++ '\n' :: closingLine)) := by
  unfold modelBlock headerLine
  rw [docComment?_eq, brace_lineFeed, lineFeed_closing]
  simp only [List.append_assoc, List.cons_append, List.nil_append]

theorem enumNamespace_eq
    (modelName : Text)
    (enums : List EnumDecl) :
    enumNamespace modelName enums
      = namespaceLine modelName ++ '\n'
        :: (join ['\n', '\n'] (enums.map enumBlock) ++ '\n' :: closingLine) := by
  have hblank : "\n\n".toList = ['\n', '\n'] := by decide
  unfold enumNamespace namespaceLine
  rw [brace_lineFeed, lineFeed_closing, hblank]
  simp only [List.append_assoc, List.cons_append, List.nil_append]

theorem lines_modelBlock
    (enums : List EnumDecl)
    (optionalMarker : Bool)
    (m : TableModel) :
    lines (modelBlock enums optionalMarker m)
      = (commentRows "  ".toList m.comment).flatMap lines
        ++ (lines (headerLine m.name)
          ++ (lines (join ['\n'] (m.fields.map (fieldLines m.name enums optionalMarker)))
            ++ [closingLine])) := by
  rw [modelBlock_eq, lines_flatMap_append, lines_append_cons, lines_append_cons,
    lines_eq_singleton (by decide : '\n' ∉ closingLine)]

end Blocks

section Bodies

/-- The brace that closes a document, on its line. -/
def closing : Text := ['\x7d', '\n']

/-- A document up to the brace that opens its namespace. -/
def opening (s : Settings) : Text :=
  preamble s ++ "namespace ".toList ++ s.namespaceName.toText ++ " \x7b".toList

/-- The body of the document of some models and enums. -/
def body (s : Settings) (models : List TableModel) (enums : List EnumDecl) : Text :=
  opening s ++ '\n' :: (join ['\n', '\n'] (enumSection enums ++ [modelSection s models enums])
    ++ ['\n'])

theorem render_eq
    (s : Settings)
    (models : List TableModel)
    (enums : List EnumDecl) :
    render s models enums = body s models enums ++ closing := by
  have hblank : "\n\n".toList = ['\n', '\n'] := by decide
  have hend : "\n\x7d\n".toList = ['\n'] ++ closing := by decide
  unfold render body opening
  rw [brace_lineFeed, hblank, hend]
  simp only [List.append_assoc, List.cons_append, List.nil_append]

/-- What is kept of a body when more is put behind it. -/
def kept (t : Text) : Text :=
  dropEnd (fun c => c == '\n') (dropPlaceholders t)

/-- Behind what is kept of a text without placeholders stand empty lines only. -/
theorem lines_dropPlaceholders
    (t : Text) :
    ∃ k, lines (dropPlaceholders t) = lines (kept t) ++ List.replicate k [] := by
  obtain ⟨u, hu, hall⟩ := exists_dropEnd_append (fun c => c == '\n') (dropPlaceholders t)
  refine ⟨u.length, ?_⟩
  rw [hu, lines_append_of_lineFeeds (fun c hc => by simpa using hall c hc)]
  rfl

/-- A document that ends with a brace, and blanks behind it, is cut before that brace. -/
theorem lastBrace?_append
    {blanks : Text}
    (hblanks : AllBlank blanks)
    (t : Text) :
    lastBrace? (t ++ '\x7d' :: blanks) = some (t, '\x7d' :: blanks) := by
  have hsplit : t ++ '\x7d' :: blanks = (t ++ ['\x7d']) ++ blanks := by simp
  have hkept : trimEnd (t ++ '\x7d' :: blanks) = t ++ ['\x7d'] := by
    rw [hsplit, trimEnd_append_of_blank hblanks]
    exact dropEnd_append_singleton (by decide) t
  have hrest : (t ++ '\x7d' :: blanks).drop (t ++ ['\x7d']).length = blanks := by
    rw [hsplit, List.drop_left]
  unfold lastBrace?
  simp only [hkept, List.getLast?_concat, if_true, List.dropLast_concat, hrest]

/-- A closed document ends with its last brace. -/
theorem lastBrace?_closed
    (t : Text) :
    lastBrace? (t ++ closing) = some (t, closing) :=
  lastBrace?_append allBlank_lineFeed t

/-- A document that ends with a brace is cut before it. -/
theorem lastBrace?_eq_some
    {document before ending : Text}
    (h : lastBrace? document = some (before, ending)) :
    ∃ blanks, document = before ++ '\x7d' :: blanks ∧ ending = '\x7d' :: blanks
      ∧ AllBlank blanks := by
  obtain ⟨blanks, hdocument, hblanks⟩ := exists_dropEnd_append isBlank document
  unfold lastBrace? trimEnd at h
  dsimp only at h
  split at h
  · rename_i hlast
    obtain ⟨first, hfirst⟩ := List.getLast?_eq_some_iff.1 hlast
    rw [hfirst] at hdocument h
    obtain ⟨rfl, rfl⟩ := Prod.mk.inj (Option.some.inj h)
    refine ⟨blanks, ?_, ?_, hblanks⟩
    · rw [List.dropLast_concat]
      simpa using hdocument
    · rw [hdocument, List.drop_left]
  · cases h

/-- The line between what was there and what is added. -/
def separator (today : Date) : Text :=
  "  // ---- appended at ".toList ++ today.iso ++ " ----".toList

theorem addition_eq
    (today : Date)
    (optionalMarker : Bool)
    (document : Text)
    (new : List TableModel)
    (enums : List EnumDecl) :
    addition today optionalMarker document new enums
      = [] ++ '\n' :: (join ['\n', '\n'] (separator today
        :: (enumSection (newEnums document new enums) ++ [modelBlocks enums optionalMarker new]))
          ++ ['\n']) := by
  have hblank : "\n\n".toList = ['\n', '\n'] := by decide
  have hfeed : "\n".toList = ['\n'] := by decide
  unfold addition separator
  rw [hblank, hfeed]
  simp only [List.append_assoc, List.cons_append, List.nil_append]

/-- A document with new models. -/
def extended (t : Text) (today : Date) (optionalMarker : Bool) (new : List TableModel)
    (enums : List EnumDecl) : Text :=
  kept t ++ '\n' :: addition today optionalMarker (t ++ closing) new enums

/-- Extending a closed document never fails, and the result is closed. -/
theorem merge_closed
    (t : Text)
    (models : List TableModel)
    (enums : List EnumDecl)
    (today : Date)
    (optionalMarker : Bool) :
    merge (t ++ closing) models enums today optionalMarker
      = .ok (if newModels (t ++ closing) models = [] then ⟨t ++ closing, []⟩
        else ⟨extended t today optionalMarker (newModels (t ++ closing) models) enums ++ closing,
          (newModels (t ++ closing) models).map TableModel.name⟩) := by
  unfold merge
  cases hnew : newModels (t ++ closing) models with
  | nil =>
      rfl
  | cons m ms =>
      rw [lastBrace?_closed, if_neg (List.cons_ne_nil m ms)]
      rfl

/-- Extending a document that ends with a brace never fails. -/
theorem exists_merge_eq_ok
    {blanks : Text}
    (hblanks : AllBlank blanks)
    (t : Text)
    (models : List TableModel)
    (enums : List EnumDecl)
    (today : Date)
    (optionalMarker : Bool) :
    ∃ r, merge (t ++ '\x7d' :: blanks) models enums today optionalMarker = .ok r := by
  unfold merge
  cases newModels (t ++ '\x7d' :: blanks) models with
  | nil =>
      exact ⟨_, rfl⟩
  | cons m ms =>
      rw [lastBrace?_append hblanks]
      exact ⟨_, rfl⟩

/-- An extended document: the new models stand before its last brace, and what is there stays but for
placeholders and line feeds before that brace. -/
theorem merge_eq_ok
    {document : Text}
    {models : List TableModel}
    {enums : List EnumDecl}
    {today : Date}
    {optionalMarker : Bool}
    {r : Merged}
    (h : merge document models enums today optionalMarker = .ok r) :
    (newModels document models = [] ∧ r = ⟨document, []⟩)
      ∨ newModels document models ≠ []
        ∧ ∃ before blanks, document = before ++ '\x7d' :: blanks ∧ AllBlank blanks
          ∧ r = ⟨kept before ++ '\n'
              :: addition today optionalMarker document (newModels document models) enums
              ++ '\x7d' :: blanks, (newModels document models).map TableModel.name⟩ := by
  unfold merge at h
  cases hnew : newModels document models with
  | nil =>
      simp only [hnew, Except.ok.injEq] at h
      exact Or.inl ⟨rfl, h.symm⟩
  | cons m ms =>
      simp only [hnew] at h
      cases hcut : lastBrace? document with
      | none =>
          simp [hcut] at h
      | some cut =>
          obtain ⟨before, ending⟩ := cut
          simp only [hcut, Except.ok.injEq] at h
          obtain ⟨blanks, hdocument, rfl, hblanks⟩ := lastBrace?_eq_some hcut
          exact Or.inr ⟨List.cons_ne_nil m ms, before, blanks, hdocument, hblanks, h.symm⟩

end Bodies

end Document
end SchemaSpec
