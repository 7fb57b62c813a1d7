import SchemaSpec.Proofs.Document.Layout

/-!
# Sessions

A session starts with a fresh document and extends it step by step, with any models, enums, days and
markers.  In each step, the header line of each model written so far still stands in the document,
so a model is written twice exactly if no scan can read its name.

* `Written`: a document with the names that were written into it.
* `Written.Sound`: the invariant of a session; `sound_start` and `Written.Sound.extend` are its two
  steps, and `exists_extendAll` is the run.
* `remerge`: what an extension does with models that are written already.
-/

namespace SchemaSpec
namespace Document

open Text

/-- What one step of a session offers to a document. -/
structure Offer where
  models : List TableModel
  enums : List EnumDecl
  today : Date
  optionalMarker : Bool

/-- A document with the names of the models that were written into it. -/
structure Written where
  content : Text
  names : List Text

namespace Written

/-- A fresh document. -/
def start (s : Settings) (models : List TableModel) (enums : List EnumDecl) : Written where
  content := render s models enums
  names := models.map TableModel.name

/-- The extended document of a step. -/
def offer (w : Written) (o : Offer) : Except MergeError Merged :=
  merge w.content o.models o.enums o.today o.optionalMarker

/-- A document behind a step. -/
def extend (w : Written) (o : Offer) : Except MergeError Written :=
  (w.offer o).map (fun r => ⟨r.content, w.names ++ r.appended⟩)

/-- A document behind several steps. -/
def extendAll (w : Written) : List Offer → Except MergeError Written
  | [] => .ok w
  | o :: os =>
      match w.extend o with
      | .ok v => v.extendAll os
      | .error e => .error e

/-- The invariant of a session: the document is closed, and each written name that is a word has its
header line in the body. -/
def Sound (w : Written) : Prop :=
  ∃ t, w.content = t ++ closing ∧ ∀ n ∈ w.names, IsWordRun n → headerLine n ∈ lines t

end Written

section HeaderLines

theorem lineFeed_not_mem_headerLine
    {n : Text}
    (h : IsWordRun n) :
    '\n' ∉ headerLine n := by
  have hn : '\n' ∉ n := h.not_mem (by decide)
  have hleft : '\n' ∉ "  model ".toList := by decide
  have hright : '\n' ∉ " \x7b".toList := by decide
  unfold headerLine
  simp only [List.mem_append, not_or]
  exact ⟨⟨hleft, hn⟩, hright⟩

theorem headerLine_ne_nil
    (n : Text) :
    headerLine n ≠ [] := by
  unfold headerLine
  exact List.append_ne_nil_of_right_ne_nil _ (by decide)

theorem headerLine_ne_placeholder
    (n : Text) :
    headerLine n ≠ placeholder := by
  intro h
  have hcut := congrArg (List.take 3) h
  unfold headerLine at hcut
  rw [List.append_assoc, List.take_append_of_le_length (by decide)] at hcut
  exact absurd hcut (by decide)

/-- A model block has the header line of its model. -/
theorem headerLine_mem_modelBlock
    {m : TableModel}
    (h : IsWordRun m.name)
    (enums : List EnumDecl)
    (optionalMarker : Bool) :
    headerLine m.name ∈ lines (modelBlock enums optionalMarker m) := by
  rw [lines_modelBlock, lines_eq_singleton (lineFeed_not_mem_headerLine h)]
  exact List.mem_append_right _ (List.mem_append_left _ List.mem_cons_self)

theorem headerLine_mem_modelBlocks
    {m : TableModel}
    {models : List TableModel}
    (hm : m ∈ models)
    (h : IsWordRun m.name)
    (enums : List EnumDecl)
    (optionalMarker : Bool) :
    headerLine m.name ∈ lines (modelBlocks enums optionalMarker models) :=
  mem_lines_join_of_mem (List.mem_map.2 ⟨m, hm, rfl⟩)
    (headerLine_mem_modelBlock h enums optionalMarker)

/-- Header lines outlive the removal of placeholders and of empty lines at the end. -/
theorem headerLine_mem_kept
    {n t : Text}
    (h : headerLine n ∈ lines t) :
    headerLine n ∈ lines (kept t) := by
  have hfilter : headerLine n ∈ (lines t).filter (fun line => line != placeholder) := by
    rw [List.mem_filter]
    exact ⟨h, by simpa using headerLine_ne_placeholder n⟩
  have hdropped : headerLine n ∈ lines (dropPlaceholders t) := by
    rw [dropPlaceholders, lines_join (List.ne_nil_of_mem hfilter)]
    · exact hfilter
    · intro line hline
      exact lineFeed_not_mem_of_mem_lines (List.mem_filter.1 hline).1
  obtain ⟨k, hk⟩ := lines_dropPlaceholders t
  rw [hk, List.mem_append] at hdropped
  rcases hdropped with hkept | hempty
  · exact hkept
  · exact absurd (List.eq_of_mem_replicate hempty) (headerLine_ne_nil n)

/-- A line of a text stands at the start of a word. -/
theorem exists_of_mem_lines
    {t line : Text}
    (h : line ∈ lines t) :
    ∃ before after, t = before ++ line ++ after ∧ endsInWord false before = false := by
  obtain ⟨left, right, hsplit⟩ := List.append_of_mem h
  have hfeed : ∀ inWord, endsInWord inWord ['\n'] = false := by decide
  refine ⟨_, right.flatMap (fun u => ['\n'] ++ u), ?_, endsInWord_flatMap hfeed left⟩
  rw [← join_eq_flatMap left line right, ← hsplit, join_lines]

/-- A header line declares its own model only. -/
theorem declares_headerLine_iff
    {n k : Text}
    (hk : IsWordRun k) :
    DeclaresModel n (headerLine k) ↔ n = k := by
  have hsplit : "  model ".toList = "  ".toList ++ "model ".toList := by decide
  have hindent : AllBlank "  ".toList := by
    decide
  unfold headerLine
  rw [hsplit, List.append_assoc, List.append_assoc, declares_of_blank_append hindent,
    ← List.append_assoc]
  exact declares_header_iff hk

/-- A text with a header line declares its model. -/
theorem declares_of_headerLine
    {n t : Text}
    (hn : IsWordRun n)
    (h : headerLine n ∈ lines t) :
    DeclaresModel n t := by
  obtain ⟨before, after, rfl, hbefore⟩ := exists_of_mem_lines h
  have hown : DeclaresModel n (headerLine n) := (declares_headerLine_iff hn).2 rfl
  exact (hown.append_left hbefore).append_right after

end HeaderLines

section Steps

variable {w : Written}

/-- A written name that is a word is declared. -/
theorem Written.Sound.declares
    (h : w.Sound)
    {n : Text}
    (hmem : n ∈ w.names)
    (hn : IsWordRun n) :
    DeclaresModel n w.content := by
  obtain ⟨t, hcontent, hlines⟩ := h
  rw [hcontent]
  exact (declares_of_headerLine hn (hlines n hmem hn)).append_right closing

/-- A fresh document is sound. -/
theorem sound_start
    (s : Settings)
    (models : List TableModel)
    (enums : List EnumDecl) :
    (Written.start s models enums).Sound := by
  refine ⟨body s models enums, render_eq s models enums, fun n hn hword => ?_⟩
  obtain ⟨m, hm, rfl⟩ := List.mem_map.1 hn
  have hsection : modelSection s models enums = modelBlocks enums s.optionalMarker.isOn models := by
    cases models with
    | nil =>
        cases hm
    | cons m ms =>
        rfl
  have hblock := headerLine_mem_modelBlocks hm hword enums s.optionalMarker.isOn
  unfold body
  rw [mem_lines_append, mem_lines_append, hsection]
  exact Or.inr (Or.inl (mem_lines_join_of_mem (List.mem_append_right _ List.mem_cons_self) hblock))

theorem headerLine_mem_addition
    {document : Text}
    {new : List TableModel}
    {m : TableModel}
    (hm : m ∈ new)
    (h : IsWordRun m.name)
    (today : Date)
    (optionalMarker : Bool)
    (enums : List EnumDecl) :
    headerLine m.name ∈ lines (addition today optionalMarker document new enums) := by
  rw [addition_eq, mem_lines_append, mem_lines_append]
  exact Or.inr (Or.inl (mem_lines_join_of_mem
    (List.mem_cons_of_mem _ (List.mem_append_right _ List.mem_cons_self))
    (headerLine_mem_modelBlocks hm h enums optionalMarker)))

theorem mem_newModels
    {document : Text}
    {models : List TableModel}
    {m : TableModel} :
    m ∈ newModels document models ↔ m ∈ models ∧ ¬ DeclaresModel m.name document := by
  unfold newModels
  rw [List.mem_filter, ← mem_modelNames_iff]
  simp

/-- Each step of a sound session succeeds, adds the models that are not declared, and leaves the
document sound. -/
theorem Written.Sound.extend
    (h : w.Sound)
    (o : Offer) :
    ∃ r, w.offer o = .ok r
      ∧ r.appended = (newModels w.content o.models).map TableModel.name
      ∧ (newModels w.content o.models = [] → r = ⟨w.content, []⟩)
      ∧ Written.Sound ⟨r.content, w.names ++ r.appended⟩ := by
  obtain ⟨t, hcontent, hlines⟩ := h
  have hmerge := merge_closed t o.models o.enums o.today o.optionalMarker
  rw [← hcontent] at hmerge
  refine ⟨_, hmerge, ?_⟩
  by_cases hnew : newModels w.content o.models = []
  · rw [if_pos hnew, hnew]
    refine ⟨rfl, fun _ => rfl, t, hcontent, fun n hn hword => ?_⟩
    rw [List.append_nil] at hn
    exact hlines n hn hword
  · rw [if_neg hnew]
    refine ⟨rfl, fun hnil => absurd hnil hnew, _, rfl, fun n hn hword => ?_⟩
    unfold extended
    rw [mem_lines_append]
    rcases List.mem_append.1 hn with hold | hadded
    · exact Or.inl (headerLine_mem_kept (hlines n hold hword))
    · obtain ⟨m, hm, rfl⟩ := List.mem_map.1 hadded
      exact Or.inr (headerLine_mem_addition hm hword o.today o.optionalMarker o.enums)

/-- A sound session goes on without failure and stays sound. -/
theorem exists_extendAll
    (h : w.Sound)
    (os : List Offer) :
    ∃ v, w.extendAll os = .ok v ∧ v.Sound := by
  induction os generalizing w with
  | nil =>
      exact ⟨w, rfl, h⟩
  | cons o os ih =>
      obtain ⟨r, hr, -, -, hsound⟩ := h.extend o
      have hstep : w.extend o = .ok ⟨r.content, w.names ++ r.appended⟩ := by
        rw [Written.extend, hr]
        rfl
      obtain ⟨v, hv, hend⟩ := ih hsound
      exact ⟨v, by rw [Written.extendAll, hstep]; exact hv, hend⟩

end Steps

/-- In any session, a step succeeds; of the models written before, it adds those again whose names
are no words; and if it offers none but models written before, all with words for names, it returns
the document as it is. -/
theorem remerge
    (s : Settings)
    (models : List TableModel)
    (enums : List EnumDecl)
    (steps : List Offer)
    (o : Offer) :
    ∃ w, (Written.start s models enums).extendAll steps = .ok w
      ∧ ∃ r, w.offer o = .ok r
        ∧ (∀ m ∈ o.models, m.name ∈ w.names → (m.name ∈ r.appended ↔ ¬ IsWordRun m.name))
        ∧ ((∀ m ∈ o.models, m.name ∈ w.names ∧ IsWordRun m.name) → r = ⟨w.content, []⟩) := by
  obtain ⟨w, hw, hsound⟩ := exists_extendAll (sound_start s models enums) steps
  obtain ⟨r, hr, happended, hsame, -⟩ := hsound.extend o
  refine ⟨w, hw, r, hr, fun m hm hname => ?_, fun hold => hsame ?_⟩
  · rw [happended]
    constructor
    · intro hmem hword
      obtain ⟨m', hm', heq⟩ := List.mem_map.1 hmem
      have hfree := (mem_newModels.1 hm').2
      rw [heq] at hfree
      exact hfree (hsound.declares hname hword)
    · intro hword
      have hfree : ¬ DeclaresModel m.name w.content := fun hd => hword hd.isWordRun
      exact List.mem_map.2 ⟨m, mem_newModels.2 ⟨hm, hfree⟩, rfl⟩
  · rw [List.eq_nil_iff_forall_not_mem]
    intro m hm
    obtain ⟨hoffered, hfree⟩ := mem_newModels.1 hm
    obtain ⟨hname, hword⟩ := hold m hoffered
    exact hfree (hsound.declares hname hword)

/-- A model whose name is a word. -/
def tag : TableModel where
  name := "Tag".toList
  tableName := "tags".toList

/-- A model whose name is no word. -/
def oldTag : TableModel where
  name := "Old Tag".toList
  tableName := "old tags".toList

/-- Of a model that was rendered and one that an earlier step has added, offered again, only the one
whose name is no word is added. -/
theorem remerge_tags :
    ∃ w, (Written.start {} [oldTag] []).extendAll [⟨[tag], [], ⟨2024, 5, 1⟩, false⟩] = .ok w
      ∧ ∃ r, w.offer ⟨[oldTag, tag], [], ⟨2024, 6, 1⟩, true⟩ = .ok r
        ∧ oldTag.name ∈ r.appended ∧ tag.name ∉ r.appended := by
  obtain ⟨w, hw, r, hr, hagain, -⟩ :=
    remerge {} [oldTag] [] [⟨[tag], [], ⟨2024, 5, 1⟩, false⟩]
      ⟨[oldTag, tag], [], ⟨2024, 6, 1⟩, true⟩
  have hnames : w.names = [oldTag.name, tag.name] := by
    have hsession : ((Written.start {} [oldTag] []).extendAll
        [⟨[tag], [], ⟨2024, 5, 1⟩, false⟩]).toOption.map Written.names
          = some [oldTag.name, tag.name] := by
      decide +kernel
    rw [hw] at hsession
    exact Option.some.inj hsession
  have hold := hagain oldTag (by simp) (by simp [hnames])
  have htag := hagain tag (by simp) (by simp [hnames])
  exact ⟨w, hw, r, hr, hold.2 (by decide), fun hmem => htag.1 hmem (by decide)⟩

end Document
end SchemaSpec
