import SchemaSpec.Proofs.Document.Removal

/-!
# Extending any text

What an extension makes of a text that need not be a document at all: written by hand, with braces
and declarations in odd places.

* `IsSplice`: a block put in front of the last brace of a text, the rest kept.
* `spliced`: the block that holds the new models; of the text, it shows the declared names only.
* `merge_splices`: the whole of what an extension does.
-/

namespace SchemaSpec
namespace Document

open Text

/-- A text with a block in front of its last brace.  What stands before that brace is kept, but for
lines that stand for missing models and for line feeds at its end. -/
def IsSplice (document block content : Text) : Prop :=
  ∃ before blanks first feeds,
    document = before ++ '\x7d' :: blanks ∧ '\x7d' ∉ blanks
      ∧ join ['\n'] ((lines before).filter (fun line => line != placeholder)) = first ++ feeds
      ∧ (∀ c ∈ feeds, c = '\n') ∧ first.getLast? ≠ some '\n'
      ∧ content = first ++ block ++ '\x7d' :: blanks

/-- The block that holds the models that a document does not declare. -/
def spliced (today : Date) (optionalMarker : Bool) (document : Text) (models : List TableModel)
    (enums : List EnumDecl) : Text :=
  '\n' :: addition today optionalMarker document (newModels document models) enums

/-- Two documents that declare the same models and the same namespaces. -/
structure SameNames (document document' : Text) : Prop where
  models : ∀ n, n ∈ modelNames document ↔ n ∈ modelNames document'
  namespaces : ∀ n, n ∈ namespaceNames document ↔ n ∈ namespaceNames document'

section Blocks

variable {document document' : Text}

theorem SameNames.newModels_eq
    (h : SameNames document document')
    (models : List TableModel) :
    newModels document models = newModels document' models := by
  refine List.filter_congr (fun m _ => ?_)
  rw [List.contains_eq_mem, List.contains_eq_mem, decide_eq_decide.2 (h.models m.name)]

theorem SameNames.newEnums_eq
    (h : SameNames document document')
    (new : List TableModel)
    (enums : List EnumDecl) :
    newEnums document new enums = newEnums document' new enums := by
  refine List.filter_congr (fun e _ => ?_)
  rw [List.contains_eq_mem, List.contains_eq_mem,
    decide_eq_decide.2 (h.namespaces (enumNamespaceName e.modelName))]

theorem SameNames.spliced_eq
    (h : SameNames document document')
    (today : Date)
    (optionalMarker : Bool)
    (models : List TableModel)
    (enums : List EnumDecl) :
    spliced today optionalMarker document models enums
      = spliced today optionalMarker document' models enums := by
  unfold spliced addition
  rw [h.newModels_eq models, h.newEnums_eq]

end Blocks

section Cuts

/-- A text is cut in front of its last brace exactly if that brace is its last character but for
blanks. -/
theorem lastBrace?_eq_none_iff
    {document : Text} :
    lastBrace? document = none ↔ (trimEnd document).getLast? ≠ some '\x7d' := by
  unfold lastBrace?
  dsimp only
  split
  · rename_i hbrace
    simp [hbrace]
  · rename_i hbrace
    simp [hbrace]

/-- What is kept of a text does not end with a line feed. -/
theorem getLast?_kept
    (t : Text) :
    (kept t).getLast? ≠ some '\n' := by
  intro h
  have hne : kept t ≠ [] := by
    intro hnil
    rw [hnil] at h
    cases h
  rw [List.getLast?_eq_some_getLast hne, Option.some.injEq] at h
  unfold kept at hne h
  simp only [dropEnd_eq_rdropWhile] at hne h
  exact List.rdropWhile_last_not _ _ hne (by simp [h])

theorem brace_not_mem_of_allBlank
    {blanks : Text}
    (h : AllBlank blanks) :
    '\x7d' ∉ blanks := by
  intro hmem
  exact absurd (h _ hmem) (by decide)

/-- A block behind what is kept, in front of the last brace, is a splice. -/
theorem isSplice_kept
    {blanks : Text}
    (hblanks : AllBlank blanks)
    (before block : Text) :
    IsSplice (before ++ '\x7d' :: blanks) block (kept before ++ block ++ '\x7d' :: blanks) := by
  obtain ⟨feeds, hfeeds, hall⟩ := exists_dropEnd_append (fun c => c == '\n')
    (dropPlaceholders before)
  exact ⟨before, blanks, kept before, feeds, rfl, brace_not_mem_of_allBlank hblanks, hfeeds,
    fun c hc => by simpa using hall c hc, getLast?_kept before, rfl⟩

end Cuts

section Outcomes

variable {document : Text} {models : List TableModel} {enums : List EnumDecl} {today : Date}
  {optionalMarker : Bool}

theorem merge_of_newModels_eq_nil
    (h : newModels document models = []) :
    merge document models enums today optionalMarker = .ok ⟨document, []⟩ := by
  unfold merge
  rw [h]

/-- With something to add, an extension fails exactly if there is no last brace. -/
theorem merge_eq_error_iff
    (h : newModels document models ≠ []) :
    merge document models enums today optionalMarker = .error .missingBrace
      ↔ (trimEnd document).getLast? ≠ some '\x7d' := by
  obtain ⟨m, ms, hnew⟩ := List.exists_cons_of_ne_nil h
  rw [← lastBrace?_eq_none_iff]
  unfold merge
  rw [hnew]
  cases hcut : lastBrace? document with
  | none =>
      simp
  | some cut =>
      simp

/-- With something to add and a last brace, an extension gives a splice that declares what the text
declares. -/
theorem exists_splice
    (h : newModels document models ≠ [])
    (hbrace : (trimEnd document).getLast? = some '\x7d') :
    ∃ content, merge document models enums today optionalMarker
        = .ok ⟨content, (newModels document models).map TableModel.name⟩
      ∧ IsSplice document (spliced today optionalMarker document models enums) content
      ∧ modelNames document ⊆ modelNames content
      ∧ namespaceNames document ⊆ namespaceNames content := by
  have hcut : lastBrace? document ≠ none := fun hnone => lastBrace?_eq_none_iff.1 hnone hbrace
  obtain ⟨⟨before, ending⟩, hcut⟩ := Option.ne_none_iff_exists'.1 hcut
  obtain ⟨blanks, hdocument, -, hblanks⟩ := lastBrace?_eq_some hcut
  obtain ⟨r, hr⟩ := exists_merge_eq_ok hblanks before models enums today optionalMarker
  rw [← hdocument] at hr
  rcases merge_eq_ok hr with ⟨hnil, -⟩ | ⟨-, before, blanks, hdocument, hblanks, rfl⟩
  · exact absurd hnil h
  · have hopen : '\x7b' ∉ '\x7d' :: blanks := by
      intro hmem
      rcases List.mem_cons.1 hmem with hmem | hmem
      · cases hmem
      · exact absurd (hblanks _ hmem) (by decide)
    refine ⟨_, hr, ?_, ?_, ?_⟩
    · have hsplice := isSplice_kept hblanks before
        (spliced today optionalMarker document models enums)
      rw [← hdocument] at hsplice
      exact hsplice
    · have hnames := declaredFrom_subset_kept apart_model (t := before) hopen
      rw [← hdocument] at hnames
      rw [List.append_assoc]
      exact hnames _
    · have hnames := declaredFrom_subset_kept apart_namespace (t := before) hopen
      rw [← hdocument] at hnames
      rw [List.append_assoc]
      exact hnames _

end Outcomes

/-- An extension of any text.  With nothing to add, it is the text.  Otherwise it fails exactly if
the text does not end with a brace, and else it is a splice of the text: the block shows of the text
only which names it declares, and every model and namespace that is found in the text is found in
the splice. -/
theorem merge_splices
    (document : Text)
    (models : List TableModel)
    (enums : List EnumDecl)
    (today : Date)
    (optionalMarker : Bool) :
    (newModels document models = [] →
        merge document models enums today optionalMarker = .ok ⟨document, []⟩)
      ∧ (newModels document models ≠ [] →
        (merge document models enums today optionalMarker = .error .missingBrace
            ↔ (trimEnd document).getLast? ≠ some '\x7d')
          ∧ ((trimEnd document).getLast? = some '\x7d' →
            ∃ content, merge document models enums today optionalMarker
                = .ok ⟨content, (newModels document models).map TableModel.name⟩
              ∧ IsSplice document (spliced today optionalMarker document models enums) content
              ∧ modelNames document ⊆ modelNames content
              ∧ namespaceNames document ⊆ namespaceNames content))
      ∧ ∀ document', SameNames document document' →
        spliced today optionalMarker document models enums
          = spliced today optionalMarker document' models enums :=
  ⟨merge_of_newModels_eq_nil, fun h => ⟨merge_eq_error_iff h, exists_splice h⟩,
    fun _ h => h.spliced_eq today optionalMarker models enums⟩

/-- A text with declarations in a comment only, a line for missing models and two line feeds before
its last brace. -/
def roughText : Text :=
  "// model Old \x7b namespace Api \x7b
  // No models found in schema.rb

\x7d ".toList

/-- A text that declares the same names, with nothing else in it. -/
def bareText : Text :=
  "model Old \x7b namespace Api \x7b".toList

/-- A model that the text declares, and one that it does not. -/
def roughModels : List TableModel :=
  ["Old", "User"].map (fun name => { name := name.toList, tableName := [] })

/-- The text with the second model. -/
def roughSplice : Text :=
  "// model Old \x7b namespace Api \x7b

  // ---- appended at 2024-05-01 ----

  model User \x7b

  \x7d
\x7d ".toList

/-- The second model is added, what the text declares is found from then on, and a second extension
adds nothing.  The block is that of the bare text. -/
theorem merge_splices_rough :
    merge roughText roughModels [] ⟨2024, 5, 1⟩ false = .ok ⟨roughSplice, ["User".toList]⟩
      ∧ "Old".toList ∈ modelNames roughSplice
      ∧ "Api".toList ∈ namespaceNames roughSplice
      ∧ merge roughSplice roughModels [] ⟨2024, 5, 2⟩ false = .ok ⟨roughSplice, []⟩
      ∧ spliced ⟨2024, 5, 1⟩ false roughText roughModels []
        = spliced ⟨2024, 5, 1⟩ false bareText roughModels [] := by
  have hrun : merge roughText roughModels [] ⟨2024, 5, 1⟩ false
      = .ok ⟨roughSplice, ["User".toList]⟩ := by
    decide +kernel
  obtain ⟨hnone, hsome, hblock⟩ := merge_splices roughText roughModels [] ⟨2024, 5, 1⟩ false
  have hnew : newModels roughText roughModels ≠ [] := by
    intro hnil
    have hsame := Except.ok.inj (hrun.symm.trans (hnone hnil))
    exact List.cons_ne_nil _ _ (Merged.mk.inj hsame).2
  have hbrace : (trimEnd roughText).getLast? = some '\x7d' := by
    by_contra hno
    have hfails := hrun.symm.trans ((hsome hnew).1.2 hno)
    simp only [reduceCtorEq] at hfails
  obtain ⟨content, hmerge, -, hmodels, hspaces⟩ := (hsome hnew).2 hbrace
  obtain ⟨rfl, -⟩ := Merged.mk.inj (Except.ok.inj (hrun.symm.trans hmerge))
  have hagain : newModels roughSplice roughModels = [] := by
    decide +kernel
  have hmodelNames : modelNames roughText = modelNames bareText := by
    decide +kernel
  have hspaceNames : namespaceNames roughText = namespaceNames bareText := by
    decide +kernel
  have hsame : SameNames roughText bareText :=
    ⟨fun n => by rw [hmodelNames], fun n => by rw [hspaceNames]⟩
  exact ⟨hrun, hmodels (by decide +kernel), hspaces (by decide +kernel),
    (merge_splices roughSplice roughModels [] ⟨2024, 5, 2⟩ false).1 hagain, hblock bareText hsame⟩

end Document
end SchemaSpec
