import Mathlib.Data.List.Infix
import SchemaSpec.Proofs.Text.Fields
import SchemaSpec.Proofs.Document.Removal
import SchemaSpec.Proofs.Document.Scopes
import SchemaSpec.Proofs.Document.Sessions

/-!
# Enum references

An extended document declares the enums that its new models refer to, unless the document had a
namespace of the model's enums that does not declare them: such a namespace stays as it is.

* `gap_or_header`: the line that stands for missing models never overlaps a header.
* `DeclaresEnum.kept`: what a document declares in its namespaces outlives the removal of such lines.
* `declaresEnum_merge`: the result on references.
-/

namespace SchemaSpec
namespace Document

open Text

section Removal

theorem allFlat_gone :
    AllFlat gone := by
  decide

/-- A text that differs from a keyword at some place does not start with it, nor it with the text. -/
theorem append_ne_of_differs
    {r keyword : Text}
    (h : (r.zip keyword).any (fun p => p.1 != p.2) = true)
    (y z : Text) :
    r ++ y ≠ keyword ++ z := by
  intro heq
  induction r generalizing keyword with
  | nil =>
      simp at h
  | cons c r ih =>
      cases keyword with
      | nil =>
          simp at h
      | cons d keyword =>
          obtain ⟨rfl, htail⟩ := List.cons_eq_cons.1 heq
          simp only [List.zip_cons_cons, List.any_cons, bne_self_eq_false, Bool.false_or] at h
          exact ih h htail

/-- The keywords of headers. -/
def headerKeywords : List Text := ["enum".toList, "namespace".toList]

/-- No header starts inside what goes. -/
theorem suffix_append_ne_header
    {keyword name code r : Text}
    (hkeyword : keyword ∈ headerKeywords)
    (hcode : IsHeader keyword name code)
    (hr : r <:+ gone)
    (hne : r ≠ [])
    (y z : Text) :
    r ++ y ≠ code ++ z := by
  have hdiffers : ∀ k ∈ headerKeywords, ∀ r ∈ gone.tails, r ≠ [] →
      (r.zip k).any (fun p => p.1 != p.2) = true := by
    decide
  obtain ⟨gap, space, -, -, rfl⟩ := hcode
  have h := append_ne_of_differs (hdiffers keyword hkeyword r ((List.mem_tails r gone).2 hr) hne) y
    (gap ++ name ++ space ++ ['\x7b'] ++ z)
  simpa using h

/-- A header has at most three pieces between blanks. -/
theorem length_fields_header
    {keyword name code : Text}
    (hkeyword : keyword ∈ headerKeywords)
    (hname : ∀ c ∈ name, isBlank c = false)
    (hcode : IsHeader keyword name code) :
    (fields code).length ≤ 3 := by
  have hone : ∀ t : Text, (∀ c ∈ t, isBlank c = false) → (fields t).length ≤ 1 := by
    intro t ht
    by_cases hnil : t = []
    · simp [hnil]
    · rw [fields_eq_singleton hnil ht]
      exact Nat.le_refl 1
  have hfirst : ∀ k ∈ headerKeywords, k.any isBlank = false := by decide
  have hbrace : isBlank '\x7b' = false := by decide
  obtain ⟨gap, space, hgap, hspace, rfl⟩ := hcode
  have hk := hone keyword (by simpa using hfirst keyword hkeyword)
  rw [List.append_assoc, List.append_assoc, fields_append_gap hgap, List.length_append]
  by_cases hnil : space = []
  · have hrest := hone (name ++ ['\x7b']) (by
      simpa [or_imp, forall_and] using ⟨hname, hbrace⟩)
    rw [hnil, List.nil_append]
    omega
  · have hn := hone name hname
    have hb := hone ['\x7b'] (by simpa using hbrace)
    rw [← List.append_assoc, fields_append_gap ⟨hspace, hnil⟩, List.length_append]
    omega

/-- What goes does not lie inside a header: it has too many pieces. -/
theorem not_infix_header
    {keyword name code : Text}
    (hkeyword : keyword ∈ headerKeywords)
    (hname : ∀ c ∈ name, isBlank c = false)
    (hcode : IsHeader keyword name code)
    (x y : Text) :
    code ≠ x ++ gone ++ y := by
  intro h
  have hsplit : gone = '\n' :: ("  // No models found in".toList ++ ' ' :: "schema.rb".toList) := by
    decide
  have hlength := length_fields_header hkeyword hname hcode
  have hpieces : (fields "  // No models found in".toList).length = 5 := by decide
  rw [h, hsplit, List.append_assoc, List.cons_append, fields_append_cons (by decide),
    List.append_assoc, List.cons_append, fields_append_cons (by decide)] at hlength
  simp only [List.length_append] at hlength
  omega

/-- In a text with a header, what goes stands before the header or behind it. -/
theorem gap_or_header
    {keyword name code : Text}
    (hkeyword : keyword ∈ headerKeywords)
    (hname : ∀ c ∈ name, isBlank c = false)
    (hcode : IsHeader keyword name code)
    {before after a b : Text}
    (h : before ++ code ++ after = a ++ gone ++ b) :
    (∃ x, before = a ++ gone ++ x ∧ b = x ++ code ++ after)
      ∨ ∃ x, a = before ++ code ++ x ∧ after = x ++ gone ++ b := by
  rw [List.append_assoc a] at h
  rcases cut_cases h with ⟨x, rfl⟩ | ⟨x, rfl, hb⟩ | ⟨left, right, hl, hr, rfl, rfl, hb⟩
  · exact Or.inr ⟨x, rfl, by simpa using h⟩
  · rw [List.append_assoc] at hb
    rcases List.append_eq_append_iff.1 hb with ⟨y, rfl, hy⟩ | ⟨r, hgone, hafter⟩
    · exact Or.inl ⟨y, by rw [List.append_assoc], by rw [hy, List.append_assoc]⟩
    · by_cases hnil : r = []
      · rw [hnil, List.append_nil] at hgone
        rw [hnil, List.nil_append] at hafter
        exact Or.inl ⟨[], by rw [hgone, List.append_nil], by simpa using hafter.symm⟩
      · exact absurd hafter.symm (suffix_append_ne_header hkeyword hcode ⟨x, hgone.symm⟩ hnil b after)
  · rcases List.append_eq_append_iff.1 hb with ⟨z, rfl, -⟩ | ⟨z, hgone, -⟩
    · exact absurd (List.append_assoc left gone z).symm (not_infix_header hkeyword hname hcode left z)
    · -- The brace of the header would stand in what goes.
      have hlast := hcode.getLast?
      rw [List.getLast?_append_of_ne_nil _ hr] at hlast
      have hmem : '\x7b' ∈ gone := hgone ▸ List.mem_append_left _ (List.mem_of_getLast? hlast)
      exact absurd hmem (by decide)

/-- In a text with a backquote, what goes stands before the backquote or behind it. -/
theorem gap_or_quote
    {before after a b : Text}
    (h : before ++ '\x60' :: after = a ++ gone ++ b) :
    (∃ x, before = a ++ gone ++ x ∧ b = x ++ '\x60' :: after)
      ∨ ∃ x, a = before ++ '\x60' :: x ∧ after = x ++ gone ++ b := by
  have hquote : '\x60' ∉ gone := by decide
  rcases List.append_eq_append_iff.1 h with ⟨x, hx, hafter⟩ | ⟨x, rfl, hb⟩
  · cases x with
    | nil =>
        rw [List.append_nil] at hx
        exact Or.inl ⟨[], by rw [List.append_nil, hx], hafter.symm⟩
    | cons c x =>
        obtain ⟨rfl, rfl⟩ := List.cons_eq_cons.1 hafter
        rcases List.append_eq_append_iff.1 hx with ⟨y, hbefore, hgone⟩ | ⟨y, rfl, hy⟩
        · exact absurd (hgone ▸ List.mem_append_right y List.mem_cons_self) hquote
        · cases y with
          | nil =>
              exact absurd (List.cons_eq_cons.1 hy).1 (by decide)
          | cons k y =>
              obtain ⟨rfl, rfl⟩ := List.cons_eq_cons.1 hy
              exact Or.inr ⟨y, rfl, rfl⟩
  · exact Or.inl ⟨x, rfl, hb⟩

theorem endsInWord_append_gone
    {inWord : Bool}
    {a x : Text}
    (h : endsInWord inWord (a ++ gone ++ x) = false) :
    endsInWord inWord (a ++ x) = false := by
  rcases List.eq_nil_or_concat x with rfl | ⟨x, c, rfl⟩
  · have hword : ∀ w, endsInWord w gone = true := by decide
    rw [List.append_nil, endsInWord_append, hword] at h
    cases h
  · rw [List.concat_eq_append, ← List.append_assoc, endsInWord_concat] at h ⊢
    exact h

/-- What goes from a text in backquotes leaves each backquote behind a backslash. -/
theorem IsEscaped.remove
    {a b : Text}
    (h : IsEscaped (a ++ gone ++ b)) :
    IsEscaped (a ++ b) := by
  intro before after heq
  rcases List.append_eq_append_iff.1 heq with ⟨x, rfl, rfl⟩ | ⟨x, rfl, hx⟩
  · have hlast := h (a ++ gone ++ x) after (by simp)
    have hend : gone.getLast? = some 'b' := by decide
    rcases List.eq_nil_or_concat x with rfl | ⟨x, c, rfl⟩
    · rw [List.append_nil, List.getLast?_append_of_ne_nil _ (by decide), hend] at hlast
      exact absurd hlast (by decide)
    · rw [List.concat_eq_append, ← List.append_assoc, List.getLast?_concat] at hlast ⊢
      exact hlast
  · cases x with
    | nil =>
        have hlast := h (before ++ gone) after (by
          rw [List.append_nil, ← List.nil_append b, ← hx])
        have hend : gone.getLast? = some 'b' := by decide
        rw [List.getLast?_append_of_ne_nil _ (by decide), hend] at hlast
        exact absurd hlast (by decide)
    | cons c x =>
        obtain ⟨rfl, rfl⟩ := List.cons_eq_cons.1 hx
        exact h before (x ++ gone ++ b) (by simp)

/-- What a text starts with of what goes does not change its depth. -/
theorem Leads.drop
    {d e : Nat}
    {r b : Text}
    (hr : r <:+ gone)
    (h : Leads d e (r ++ b)) :
    Leads d e b := by
  induction r with
  | nil =>
      exact h
  | cons c r ih =>
      have hflat : isFlat c = true := allFlat_gone c (hr.subset List.mem_cons_self)
      have hrest : r <:+ gone := (List.suffix_cons c r).trans hr
      generalize htext : c :: r ++ b = t at h
      cases h with
      | nil =>
          cases htext
      | flat hc htail =>
          obtain ⟨-, rfl⟩ := List.cons_eq_cons.1 htext
          exact ih hrest htail
      | quoted hbody htail =>
          rw [(List.cons_eq_cons.1 htext).1] at hflat
          cases hflat
      | opener htail =>
          rw [(List.cons_eq_cons.1 htext).1] at hflat
          cases hflat
      | header hcode hname htail =>
          exact absurd htext (suffix_append_ne_header (by decide) hcode hr (List.cons_ne_nil c r) b _)
      | closer htail =>
          rw [(List.cons_eq_cons.1 htext).1] at hflat
          cases hflat

/-- What goes does not change the depth of a text. -/
theorem Leads.remove
    {d e : Nat}
    {t : Text}
    (h : Leads d e t)
    {a b : Text}
    (ht : t = a ++ gone ++ b) :
    Leads d e (a ++ b) := by
  induction h generalizing a with
  | nil =>
      simp [gone] at ht
  | @flat d e c t hc htail ih =>
      cases a with
      | nil =>
          exact Leads.drop List.suffix_rfl (ht ▸ Leads.flat hc htail)
      | cons f a =>
          obtain ⟨rfl, rfl⟩ := List.cons_eq_cons.1 ht
          exact .flat hc (ih rfl)
  | @quoted d e body t hbody htail ih =>
      cases a with
      | nil =>
          exact absurd (List.cons_eq_cons.1 ht).1 (by decide)
      | cons f a =>
          obtain ⟨rfl, hbodies⟩ := List.cons_eq_cons.1 ht
          rcases gap_or_quote hbodies with ⟨x, rfl, rfl⟩ | ⟨x, rfl, rfl⟩
          · simpa using Leads.quoted hbody.remove htail
          · simpa using Leads.quoted hbody (ih rfl)
  | @opener d e t htail ih =>
      cases a with
      | nil =>
          exact absurd (List.cons_eq_cons.1 ht).1 (by decide)
      | cons f a =>
          obtain ⟨rfl, rfl⟩ := List.cons_eq_cons.1 ht
          exact .opener (ih rfl)
  | @header d e name code t hcode hname htail ih =>
      have hcut : [] ++ code ++ t = a ++ gone ++ b := ht
      rcases gap_or_header (by decide) hname hcode hcut with ⟨x, hx, -⟩ | ⟨x, rfl, hx⟩
      · simp [gone] at hx
      · rw [List.nil_append, List.append_assoc]
        exact .header hcode hname (ih hx)
  | @closer d e t htail ih =>
      cases a with
      | nil =>
          exact absurd (List.cons_eq_cons.1 ht).1 (by decide)
      | cons f a =>
          obtain ⟨rfl, rfl⟩ := List.cons_eq_cons.1 ht
          exact .closer (ih rfl)

/-- A declaration in a namespace outlives what goes. -/
theorem DeclaresEnum.remove
    {space name a b : Text}
    (hspace : ∀ c ∈ space, isBlank c = false)
    (hname : ∀ c ∈ name, isBlank c = false)
    (h : DeclaresEnum space name (a ++ gone ++ b)) :
    DeclaresEnum space name (a ++ b) := by
  obtain ⟨before, head, inside, code, after, htext, hstart, hhead, hinside, hend, hcode⟩ := h
  have hfirst : before ++ head ++ (inside ++ code ++ after) = a ++ gone ++ b := by
    rw [htext]
    simp only [List.append_assoc]
  rcases gap_or_header (by decide) hspace hhead hfirst with ⟨x, rfl, rfl⟩ | ⟨x, rfl, hsecond⟩
  · exact ⟨a ++ x, head, inside, code, after, by simp, endsInWord_append_gone hstart, hhead, hinside,
      hend, hcode⟩
  · rcases gap_or_header (by decide) hname hcode hsecond with ⟨y, rfl, rfl⟩ | ⟨y, rfl, rfl⟩
    · exact ⟨before, head, x ++ y, code, after, by simp, hstart, hhead, hinside.remove rfl,
        endsInWord_append_gone hend, hcode⟩
    · exact ⟨before, head, inside, code, y ++ b, by simp, hstart, hhead, hinside, hend, hcode⟩

/-- A line feed before a text does not take part in its declarations. -/
theorem declaresEnum_lineFeed_append
    {space name t : Text} :
    DeclaresEnum space name (['\n'] ++ t) ↔ DeclaresEnum space name t := by
  refine ⟨?_, fun h => h.append_left (by decide)⟩
  rintro ⟨before, head, inside, code, after, htext, hstart, hhead, hinside, hend, hcode⟩
  cases before with
  | nil =>
      obtain ⟨gap, blanks, -, -, rfl⟩ := hhead
      exact absurd (List.cons_eq_cons.1 htext).1 (by decide)
  | cons c before =>
      obtain ⟨rfl, rfl⟩ := List.cons_eq_cons.1 htext
      rw [endsInWord_cons] at hstart
      exact ⟨before, head, inside, code, after, rfl, hstart, hhead, hinside, hend, hcode⟩

/-- A declaration in a namespace is kept. -/
theorem DeclaresEnum.kept
    {space name t : Text}
    (hspace : ∀ c ∈ space, isBlank c = false)
    (hname : ∀ c ∈ name, isBlank c = false)
    (h : DeclaresEnum space name t) :
    DeclaresEnum space name (kept t) := by
  have houtlives : Outlives (DeclaresEnum space name) := {
    remove := fun _ _ => DeclaresEnum.remove hspace hname
    lineFeed := fun _ => declaresEnum_lineFeed_append
    of_append := fun _ _ => DeclaresEnum.of_append }
  exact houtlives.kept h

end Removal

section Extended

variable {enums : List EnumDecl}

/-- The enums of a model have a namespace with all of them. -/
theorem enumNamespace_mem_namespaces
    {e : EnumDecl}
    (h : e ∈ enums) :
    enumNamespace e.modelName (enumsOf enums e.modelName) ∈ namespaces enums := by
  obtain ⟨names, -, hmem, hgroup⟩ := exists_group_eq enums
  have hname : e.modelName ∈ names := (hmem _).2 (List.mem_map_of_mem h)
  unfold namespaces
  rw [hgroup, List.map_map]
  exact List.mem_map.2 ⟨e.modelName, hname, rfl⟩

/-- Joined blocks declare what one of them declares. -/
theorem declaresEnum_join
    {space name t : Text}
    {ts : List Text}
    (ht : t ∈ ts)
    (h : DeclaresEnum space name t) :
    DeclaresEnum space name (join ['\n', '\n'] ts) := by
  obtain ⟨left, right, rfl⟩ := List.append_of_mem ht
  have hgap : ∀ inWord, endsInWord inWord ['\n', '\n'] = false := by decide
  rw [join_eq_flatMap]
  exact (h.append_left (endsInWord_flatMap hgap left)).append_right _

/-- The type of a column that holds an enum names the enum of that column. -/
theorem exists_of_enumType?
    {fieldName modelName type : Text}
    (h : enumType? fieldName modelName enums = some type) :
    type = enumNamespaceName modelName ++ ['.'] ++ Naming.toPascal fieldName
      ∧ ∃ e ∈ enums, e.modelName = modelName ∧ e.fieldName = fieldName := by
  unfold enumType? at h
  split at h
  · rename_i hany
    obtain ⟨e, he, hnames⟩ := List.any_eq_true.1 hany
    rw [Bool.and_eq_true, beq_iff_eq, beq_iff_eq] at hnames
    exact ⟨(Option.some.inj h).symm, e, he, hnames⟩
  · cases h

/-- The name of a namespace that is found in a document has no blanks. -/
theorem not_isBlank_of_mem_namespaceNames
    {document name : Text}
    (h : name ∈ namespaceNames document) :
    ∀ c ∈ name, isBlank c = false := by
  obtain ⟨_, _, _, _, _, _, _, _, hname, _⟩ :=
    (mem_declaredFrom_iff nameClass_isQualifiedChar).1 h
  exact fun c hc => nameClass_isQualifiedChar.not_isBlank c (hname.2 c hc)

/-- An extended document: what was kept, and the new blocks behind it. -/
theorem exists_extended_eq
    {new : List TableModel}
    (h : new ≠ [])
    (before ending : Text)
    (today : Date)
    (optionalMarker : Bool)
    (document : Text)
    (enums : List EnumDecl) :
    ∃ gap, endsInWord false (kept before ++ gap) = false
      ∧ kept before ++ '\n' :: addition today optionalMarker document new enums ++ ending
        = kept before ++ gap
          ++ join ['\n', '\n'] (blocksOf (newEnums document new enums) enums optionalMarker new)
          ++ ('\n' :: ending) := by
  have hend : ∀ inWord, endsInWord inWord ['\n', '\n'] = false := by decide
  refine ⟨['\n', '\n'] ++ separator today ++ ['\n', '\n'], ?_, ?_⟩
  · rw [← List.append_assoc, endsInWord_append, hend]
  · rw [addition_blocks h]
    simp only [List.append_assoc, List.cons_append, List.nil_append]

/-- Of a document that ends with a brace, extending it writes the blocks of the models added; and a
column of theirs whose type is an enum has that enum declared in the extended document, unless the
document had the namespace of the model's enums without it. -/
theorem declaresEnum_merge
    {blanks : Text}
    (hblanks : AllBlank blanks)
    (t : Text)
    (models : List TableModel)
    (enums : List EnumDecl)
    (today : Date)
    (optionalMarker : Bool) :
    ∃ r, merge (t ++ '\x7d' :: blanks) models enums today optionalMarker = .ok r
      ∧ ∀ m ∈ models, m.name ∈ r.appended → modelBlock enums optionalMarker m <:+: r.content
        ∧ ∀ f ∈ m.fields, ∀ type, enumType? f.name m.name enums = some type →
          type = enumNamespaceName m.name ++ ['.'] ++ Naming.toPascal f.name
            ∧ ((enumNamespaceName m.name ∈ namespaceNames (t ++ '\x7d' :: blanks) →
                DeclaresEnum (enumNamespaceName m.name) (Naming.toPascal f.name)
                  (t ++ '\x7d' :: blanks)) →
              DeclaresEnum (enumNamespaceName m.name) (Naming.toPascal f.name) r.content) := by
  obtain ⟨r, hmerge⟩ := exists_merge_eq_ok hblanks t models enums today optionalMarker
  refine ⟨r, hmerge, fun m hm happended => ?_⟩
  generalize t ++ '\x7d' :: blanks = document at hmerge ⊢
  rcases merge_eq_ok hmerge with ⟨-, rfl⟩ | ⟨hsome, before, ending, hdocument, hending, rfl⟩
  · cases happended
  have hnew : m ∈ newModels document models := by
    obtain ⟨k, hk, hname⟩ := List.mem_map.1 happended
    exact mem_newModels.2 ⟨hm, hname ▸ (mem_newModels.1 hk).2⟩
  obtain ⟨gap, hgap, hcontent⟩ := exists_extended_eq hsome before ('\x7d' :: ending) today optionalMarker
    document enums
  dsimp only
  rw [hcontent]
  refine ⟨?_, fun f hf type htype => ?_⟩
  · have hblock := List.mem_append_right (namespaces (newEnums document (newModels document models)
      enums)) (List.mem_map_of_mem (f := modelBlock enums optionalMarker) hnew)
    exact (infix_join_of_mem hblock).trans ⟨_, _, rfl⟩
  · obtain ⟨hform, e, he, hmodel, hfield⟩ := exists_of_enumType? htype
    refine ⟨hform, fun hold => ?_⟩
    by_cases hspace : enumNamespaceName m.name ∈ namespaceNames document
    · -- What stands there is kept, with the enum in it.
      have hdeclared := hold hspace
      rw [hdocument] at hdeclared
      have hbrace : '\x7b' ∉ '\x7d' :: ending := by
        intro hmem
        rcases List.mem_cons.1 hmem with hmem | hmem
        · cases hmem
        · exact absurd (hending _ hmem) (by decide)
      have hkept := (hdeclared.of_append hbrace).kept (not_isBlank_of_mem_namespaceNames hspace)
        (fun c hc => Naming.not_isBlank_of_mem_toPascal hc)
      simpa only [List.append_assoc] using hkept.append_right _
    · -- The namespace is new, with all enums of the model.
      have hshown : e ∈ newEnums document (newModels document models) enums := by
        refine List.mem_filter.2 ⟨he, ?_⟩
        rw [Bool.and_eq_true, List.any_eq_true, Bool.not_eq_true', List.contains_eq_mem,
          decide_eq_false_iff_not, hmodel]
        exact ⟨⟨m, hnew, beq_self_eq_true _⟩, hspace⟩
      have hown : e ∈ enumsOf (newEnums document (newModels document models) enums) e.modelName :=
        List.mem_filter.2 ⟨hshown, beq_self_eq_true _⟩
      have hblock := List.mem_append_left ((newModels document models).map
        (modelBlock enums optionalMarker)) (enumNamespace_mem_namespaces hshown)
      have hjoined := declaresEnum_join hblock (declaresEnum_enumNamespace hown)
      rw [hmodel, hfield] at hjoined
      exact (hjoined.append_left hgap).append_right _

/-- A document with a namespace of enums that has one enum of a model, up to its last brace. -/
def stateBody : Text :=
  "namespace Api \x7b
  namespace OrderEnums \x7b
    enum State \x7b
      open,
    \x7d
  \x7d
".toList

/-- An enum of the model `Order`. -/
def orderEnum (fieldName value : Text) : EnumDecl where
  fieldName := fieldName
  modelName := "Order".toList
  values := [value]

/-- A model with one column. -/
def orderModel (fieldName : Text) : TableModel where
  name := "Order".toList
  tableName := "orders".toList
  fields := [{ name := fieldName, typeName := "int32".toList }]

/-- A namespace that a document has stays without the enum that a new model refers to. -/
theorem enum_missing_in_namespace :
    ∃ r, merge (stateBody ++ closing) [orderModel "kind".toList]
        [orderEnum "state".toList "open".toList, orderEnum "kind".toList "web".toList]
        ⟨2024, 5, 1⟩ false = .ok r
      ∧ r.appended = ["Order".toList]
      ∧ enumType? "kind".toList "Order".toList
          [orderEnum "state".toList "open".toList, orderEnum "kind".toList "web".toList]
        = some "OrderEnums.Kind".toList
      ∧ ¬ DeclaresEnum "OrderEnums".toList "Kind".toList r.content := by
  have hmerge := merge_closed stateBody [orderModel "kind".toList]
    [orderEnum "state".toList "open".toList, orderEnum "kind".toList "web".toList] ⟨2024, 5, 1⟩ false
  exact ⟨_, hmerge, by decide +kernel, by decide +kernel,
    not_declaresEnum (by decide) (by decide +kernel)⟩

/-- The enum of a new column is declared, in a namespace of its own or in one that was there. -/
theorem declaresEnum_merge_order :
    AllBlank ['\n']
      ∧ (∃ r, merge ("namespace Api \x7b\n".toList ++ closing) [orderModel "state".toList]
          [orderEnum "state".toList "open".toList] ⟨2024, 5, 1⟩ false = .ok r
        ∧ DeclaresEnum "OrderEnums".toList "State".toList r.content)
      ∧ ∃ r, merge (stateBody ++ closing) [orderModel "state".toList]
          [orderEnum "state".toList "open".toList] ⟨2024, 5, 1⟩ false = .ok r
        ∧ DeclaresEnum "OrderEnums".toList "State".toList r.content := by
  have htype : enumType? "state".toList "Order".toList [orderEnum "state".toList "open".toList]
      = some "OrderEnums.State".toList := by decide +kernel
  have hfield := List.mem_singleton_self
    ({ name := "state".toList, typeName := "int32".toList } : Field)
  have hmodel := List.mem_singleton_self (orderModel "state".toList)
  refine ⟨allBlank_lineFeed, ?_, ?_⟩
  · obtain ⟨r, hr, hrefs⟩ := declaresEnum_merge allBlank_lineFeed "namespace Api \x7b\n".toList
      [orderModel "state".toList] [orderEnum "state".toList "open".toList] ⟨2024, 5, 1⟩ false
    obtain rfl := Except.ok.inj ((merge_closed _ _ _ _ _).symm.trans hr)
    refine ⟨_, hr, ((hrefs _ hmodel (by decide +kernel)).2 _ hfield _ htype).2 (fun hspace => ?_)⟩
    exact absurd hspace (by decide +kernel)
  · obtain ⟨r, hr, hrefs⟩ := declaresEnum_merge allBlank_lineFeed stateBody
      [orderModel "state".toList] [orderEnum "state".toList "open".toList] ⟨2024, 5, 1⟩ false
    obtain rfl := Except.ok.inj ((merge_closed _ _ _ _ _).symm.trans hr)
    refine ⟨_, hr, ((hrefs _ hmodel (by decide +kernel)).2 _ hfield _ htype).2 (fun _ => ?_)⟩
    exact ⟨"namespace Api \x7b\n  ".toList, _, "\n    ".toList, _,
      "\n      open,\n    \x7d\n  \x7d\n\x7d\n".toList, by decide +kernel, by decide +kernel,
      isHeader_line "namespace".toList "OrderEnums".toList, leads_flat (by decide), by decide,
      isHeader_line "enum".toList "State".toList⟩

end Extended

end Document
end SchemaSpec
