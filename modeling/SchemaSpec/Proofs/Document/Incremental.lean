import SchemaSpec.Proofs.Document.Blocks
import SchemaSpec.Proofs.Document.Sessions

/-!
# Incremental generation agrees with full generation

A fresh document of some models that is extended with others has the blocks of the fresh document of
all of them.

* `Incremental`: the old and new models and their enums, and what is assumed of them.
* `newModels_render`, `newEnums_render`: what an extension takes to be new.
* `extended_render`: the extended document as a text.
* `merge_render`: the agreement.
-/

namespace SchemaSpec
namespace Document

open Text

section Agreement

/-- The enums of other models do not matter for the columns of a model. -/
theorem enumType?_enumsAmong
    {names : List Text}
    {modelName : Text}
    (h : modelName ∈ names)
    (fieldName : Text)
    (enums : List EnumDecl) :
    enumType? fieldName modelName (enumsAmong enums names)
      = enumType? fieldName modelName enums := by
  have hany : (enumsAmong enums names).any
      (fun e => e.modelName == modelName && e.fieldName == fieldName)
        = enums.any (fun e => e.modelName == modelName && e.fieldName == fieldName) := by
    unfold enumsAmong
    rw [List.any_filter]
    congr 1
    funext e
    by_cases hname : e.modelName = modelName
    · simp [hname, h]
    · simp [hname]
  unfold enumType?
  rw [hany]

theorem modelBlock_enumsAmong
    {names : List Text}
    {m : TableModel}
    (h : m.name ∈ names)
    (enums : List EnumDecl)
    (optionalMarker : Bool) :
    modelBlock (enumsAmong enums names) optionalMarker m = modelBlock enums optionalMarker m := by
  have hfield : fieldLines m.name (enumsAmong enums names) optionalMarker
      = fieldLines m.name enums optionalMarker := by
    funext f
    have htype : fieldType m.name (enumsAmong enums names) f = fieldType m.name enums f := by
      unfold fieldType
      rw [enumType?_enumsAmong h]
    unfold fieldLines
    rw [htype]
  unfold modelBlock
  rw [hfield]

end Agreement

/-- The names of some models. -/
def namesOf (models : List TableModel) : List Text :=
  models.map TableModel.name

/-- A document of the old models, with their enums. -/
def oldDocument (s : Settings) (old : List TableModel) (enums : List EnumDecl) : Text :=
  render s old (enumsAmong enums (namesOf old))

theorem body_oldDocument
    (s : Settings)
    (old : List TableModel)
    (enums : List EnumDecl) :
    body s old (enumsAmong enums (namesOf old)) ++ closing = oldDocument s old enums :=
  (render_eq _ _ _).symm

/-- What is assumed of old and new models and of their enums: no text has a line feed, the names are
different words, each enum belongs to one of the models, and the old document declares none of the
new names. -/
structure Incremental (s : Settings) (old new : List TableModel) (enums : List EnumDecl) :
    Prop where
  lineSettings : OneLine (settingTexts s)
  lineModels : ∀ m ∈ old ++ new, OneLine (modelTexts m)
  lineEnums : ∀ e ∈ enums, OneLine (enumTexts e)
  nodup : (namesOf (old ++ new)).Nodup
  word : ∀ m ∈ old ++ new, IsWordRun m.name
  owned : ∀ e ∈ enums, e.modelName ∈ namesOf (old ++ new)
  newModel : ∀ m ∈ new, m.name ∉ modelNames (oldDocument s old enums)
  newNamespace : ∀ m ∈ new, enumNamespaceName m.name ∉ namespaceNames (oldDocument s old enums)

section Extension

variable {s : Settings} {old new : List TableModel} {enums : List EnumDecl}
variable (h : Incremental s old new enums)
include h

theorem newModels_render :
    newModels (oldDocument s old enums) (old ++ new) = new := by
  have hold :
      old.filter (fun m => !(modelNames (oldDocument s old enums)).contains m.name) = [] := by
    rw [List.filter_eq_nil_iff]
    intro m hm
    have hsound := sound_start s old (enumsAmong enums (namesOf old))
    have hdeclared := hsound.declares (List.mem_map.2 ⟨m, hm, rfl⟩)
      (h.word m (List.mem_append_left _ hm))
    have hmem : m.name ∈ modelNames (oldDocument s old enums) := mem_modelNames_iff.2 hdeclared
    simpa using hmem
  have hnew :
      new.filter (fun m => !(modelNames (oldDocument s old enums)).contains m.name) = new := by
    rw [List.filter_eq_self]
    intro m hm
    simpa using h.newModel m hm
  unfold newModels
  rw [List.filter_append, hold, hnew, List.nil_append]

theorem newEnums_render :
    newEnums (oldDocument s old enums) new enums = enumsAmong enums (namesOf new) := by
  unfold newEnums enumsAmong
  refine List.filter_congr (fun e _ => ?_)
  by_cases hname : e.modelName ∈ namesOf new
  · obtain ⟨m, hm, heq⟩ := List.mem_map.1 hname
    have hfree := h.newNamespace m hm
    have hany : new.any (fun m => m.name == e.modelName) = true :=
      List.any_eq_true.2 ⟨m, hm, by simpa using heq⟩
    rw [heq] at hfree
    simp [hany, hfree, hname]
  · have hany : new.any (fun m => m.name == e.modelName) = false := by
      rw [List.any_eq_false]
      intro m hm heq
      exact hname (List.mem_map.2 ⟨m, hm, by simpa using heq⟩)
    simp [hany, hname]

/-- The blocks of the old document. -/
theorem blocks_oldDocument :
    blocks (oldDocument s old enums)
      = blocksOf (enumsAmong enums (namesOf old)) enums s.optionalMarker.isOn old := by
  have hrender := blocks_render h.lineSettings
    (fun m hm => h.lineModels m (List.mem_append_left new hm))
    (fun e he => h.lineEnums e (List.mem_filter.1 he).1 : ∀ e ∈ enumsAmong enums (namesOf old), _)
  have hmap : old.map (modelBlock (enumsAmong enums (namesOf old)) s.optionalMarker.isOn)
      = old.map (modelBlock enums s.optionalMarker.isOn) :=
    List.map_congr_left (fun m hm => modelBlock_enumsAmong (List.mem_map.2 ⟨m, hm, rfl⟩) enums _)
  unfold oldDocument
  rw [hrender]
  unfold blocksOf
  rw [hmap]

/-- The blocks of the document of all models are those of the old document and the new ones. -/
theorem blocks_perm :
    (blocks (oldDocument s old enums)
        ++ blocksOf (enumsAmong enums (namesOf new)) enums s.optionalMarker.isOn new).Perm
      (blocks (render s (old ++ new) enums)) := by
  have hdisjoint : (namesOf old).Disjoint (namesOf new) := by
    have hnodup := h.nodup
    unfold namesOf at hnodup
    rw [List.map_append, List.nodup_append'] at hnodup
    exact hnodup.2.2
  have howned : ∀ e ∈ enums, e.modelName ∈ namesOf old ++ namesOf new := by
    intro e he
    have hname := h.owned e he
    unfold namesOf at hname
    rwa [List.map_append] at hname
  have hgroups : (namespaces enums).Perm (namespaces (enumsAmong enums (namesOf old))
      ++ namespaces (enumsAmong enums (namesOf new))) := by
    unfold namespaces
    rw [← List.map_append]
    exact (group_perm_append hdisjoint howned).map _
  rw [blocks_oldDocument h, blocks_render h.lineSettings h.lineModels h.lineEnums]
  unfold blocksOf
  rw [List.map_append, List.append_assoc]
  refine List.Perm.trans ?_ (hgroups.symm.append_right _)
  rw [List.append_assoc]
  exact (List.perm_append_comm_assoc _ _ _).append_left _

/-- The extended document: what is kept, the separator, and the new blocks. -/
theorem extended_render
    (hnew : new ≠ [])
    (today : Date) :
    extended (body s old (enumsAmong enums (namesOf old))) today s.optionalMarker.isOn new enums
        ++ closing
      = framed s (blocks (oldDocument s old enums)) ++ ['\n', '\n'] ++ separator today
        ++ (['\n', '\n'] ++ (join ['\n', '\n']
          (blocksOf (enumsAmong enums (namesOf new)) enums s.optionalMarker.isOn new)
            ++ '\n' :: closing)) := by
  have hlineOld : ∀ m ∈ old, OneLine (modelTexts m) := fun m hm =>
    h.lineModels m (List.mem_append_left new hm)
  have hlineEnums : ∀ e ∈ enumsAmong enums (namesOf old), OneLine (enumTexts e) := fun e he =>
    h.lineEnums e (List.mem_filter.1 he).1
  have hkept := kept_body h.lineSettings hlineOld hlineEnums
  have hblocks := blocks_render h.lineSettings hlineOld hlineEnums
  unfold extended
  rw [hkept, ← hblocks, body_oldDocument, addition_blocks hnew, newEnums_render h]
  simp only [oldDocument, List.append_assoc, List.cons_append, List.nil_append]

theorem isBlock_old :
    ∀ t ∈ blocks (oldDocument s old enums), IsBlock t := by
  rw [blocks_oldDocument h]
  exact isBlock_blocksOf (fun e he => h.lineEnums e (List.mem_filter.1 he).1)
    (fun m hm => h.lineModels m (List.mem_append_left new hm))

theorem isBlock_new :
    ∀ t ∈ blocksOf (enumsAmong enums (namesOf new)) enums s.optionalMarker.isOn new, IsBlock t :=
  isBlock_blocksOf (fun e he => h.lineEnums e (List.mem_filter.1 he).1)
    (fun m hm => h.lineModels m (List.mem_append_right old hm))

/-- No line stands for missing models in an extended document. -/
theorem placeholder_not_mem_extended
    (hnew : new ≠ [])
    (today : Date) :
    placeholder ∉ lines
      (extended (body s old (enumsAmong enums (namesOf old))) today s.optionalMarker.isOn new enums
        ++ closing) := by
  have hframe := placeholder_not_mem_extendedFrame (isBlock_new h)
    (body s old (enumsAmong enums (namesOf old))) today
  have hclosing : placeholder ∉ lines closing := by decide
  rw [extended_eq hnew, body_oldDocument, newEnums_render h, List.append_assoc, List.singleton_append,
    mem_lines_append, not_or]
  exact ⟨hframe, hclosing⟩

end Extension

/-- Extending the document of the old models with all models adds the new ones in order, and gives
the blocks of the document of all models, each once.  The old blocks stand as they were, and the new
ones behind a separator. -/
theorem merge_render
    {s : Settings}
    {old new : List TableModel}
    {enums : List EnumDecl}
    (h : Incremental s old new enums)
    (today : Date) :
    ∃ r, merge (oldDocument s old enums) (old ++ new) enums today s.optionalMarker.isOn = .ok r
      ∧ r.appended = namesOf new
      ∧ blocks (render s (old ++ new) enums)
        = namespaces enums ++ (old ++ new).map (modelBlock enums s.optionalMarker.isOn)
      ∧ (blocks r.content).Perm (blocks (render s (old ++ new) enums))
      ∧ (blocks r.content).Nodup
      ∧ (new = [] → r.content = oldDocument s old enums)
      ∧ (new ≠ [] → placeholder ∉ lines r.content
        ∧ ∃ head tail, r.content = head ++ separator today ++ tail
          ∧ blocks head = blocks (oldDocument s old enums)
          ∧ blocks tail = namespaces (enumsAmong enums (namesOf new))
            ++ new.map (modelBlock enums s.optionalMarker.isOn)) := by
  have hmerge := merge_closed (body s old (enumsAmong enums (namesOf old))) (old ++ new) enums today
    s.optionalMarker.isOn
  rw [body_oldDocument, newModels_render h] at hmerge
  have hwhole := blocks_render h.lineSettings h.lineModels h.lineEnums
  have hnodup : (blocks (render s (old ++ new) enums)).Nodup := by
    rw [hwhole]
    exact nodup_blocksOf h.lineEnums h.lineModels h.nodup
  have hperm := blocks_perm h
  refine ⟨_, hmerge, ?_⟩
  by_cases hnew : new = []
  · subst hnew
    have hnone : enumsAmong enums (namesOf []) = [] := by
      simp [enumsAmong, namesOf]
    have hsame : blocks (oldDocument s old enums)
        ++ blocksOf (enumsAmong enums (namesOf [])) enums s.optionalMarker.isOn []
          = blocks (oldDocument s old enums) := by
      rw [hnone]
      exact List.append_nil _
    rw [hsame] at hperm
    exact ⟨rfl, hwhole, hperm, hperm.nodup_iff.2 hnodup, fun _ => rfl, fun hne => absurd rfl hne⟩
  · have hne : blocksOf (enumsAmong enums (namesOf new)) enums s.optionalMarker.isOn new ≠ [] :=
      List.append_ne_nil_of_right_ne_nil _ (by simpa using hnew)
    have hblocks := blocks_append h.lineSettings (isBlock_old h) hne (isBlock_new h) today
    rw [← extended_render h hnew] at hblocks
    rw [if_neg hnew]
    refine ⟨rfl, hwhole, ?_, ?_, fun hnil => absurd hnil hnew, fun _ =>
      ⟨placeholder_not_mem_extended h hnew today, _, _, extended_render h hnew today,
        blocks_head h.lineSettings (isBlock_old h), blocks_tail hne (isBlock_new h)⟩⟩
    · rw [hblocks]
      exact hperm
    · rw [hblocks]
      exact hperm.nodup_iff.2 hnodup

/-- A model with one column. -/
def post : TableModel where
  name := "Post".toList
  tableName := "posts".toList
  comment := some "see model Tag \x7b \x7d".toList
  fields := [{ name := "state".toList, typeName := "string".toList }]

/-- Enums of two models. -/
def kinds : List EnumDecl :=
  [⟨"kind".toList, "Tag".toList, ["a".toList, "b-c".toList]⟩,
    ⟨"state".toList, "Post".toList, ["open".toList]⟩]

/-- The second model, with its enum, is added to the document of the first. -/
theorem merge_render_post :
    Incremental {} [tag] [post] kinds
      ∧ ∃ r, merge (oldDocument {} [tag] kinds) ([tag] ++ [post]) kinds ⟨2024, 5, 1⟩ false = .ok r
        ∧ r.appended = ["Post".toList]
        ∧ (blocks r.content).Perm (blocks (render {} ([tag] ++ [post]) kinds)) := by
  have h : Incremental {} [tag] [post] kinds :=
    { lineSettings := by decide
      lineModels := by decide
      lineEnums := by decide
      nodup := by decide
      word := by decide
      owned := by decide
      newModel := by decide +kernel
      newNamespace := by decide +kernel }
  obtain ⟨r, hr, happended, -, hperm, -⟩ := merge_render h ⟨2024, 5, 1⟩
  exact ⟨h, r, hr, happended, hperm⟩

end Document
end SchemaSpec
