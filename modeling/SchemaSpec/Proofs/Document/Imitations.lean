import SchemaSpec.Proofs.Document.Pieces
import SchemaSpec.Proofs.Document.Sessions
import SchemaSpec.Table.Schema

/-!
# Imitated declarations

Whether a model counts as declared is asked of the whole text of a document.  A comment, a column or
an enum value in which a declaration stands counts as well, and the model it names is not added.

* `Covered`: the invariant of a session: what its document declares, its pieces declare;
  `covered_start` and `Covered.extend` are its two steps, and `Covered.extendAll` is the run.
* `mem_appended_iff`: which models an extension adds.
* `commented_model_not_added`: a comment that hides a model.
-/

namespace SchemaSpec
namespace Document

open Text

/-- What a document declares, the pieces declare; and it does so as well without the line that
stands for missing models. -/
def Covered (document : Text) (pieces : List Text) : Prop :=
  ∃ t, document = t ++ closing ∧ SplitsInto (kept t) pieces
    ∧ ∃ tail, t = kept t ++ tail ∧ '\x7b' ∉ tail

/-- The pieces that an extension adds. -/
def addedPieces (document : Text) (o : Offer) : List Text :=
  let new := newModels document o.models
  blockPieces (newEnums document new o.enums) o.enums o.optionalMarker new

namespace Written

/-- The pieces that several steps add. -/
def pieces (w : Written) : List Offer → List Text
  | [] => []
  | o :: os =>
      addedPieces w.content o
        ++ match w.extend o with
          | .ok v => v.pieces os
          | .error _ => []

/-- A piece that opens a model that was written. -/
def IsHeader (w : Written) (piece : Text) : Prop :=
  ∃ n ∈ w.names, IsWordRun n ∧ piece = headerLine n

end Written

/-- The pieces of a session. -/
def sessionPieces (s : Settings) (models : List TableModel) (enums : List EnumDecl)
    (steps : List Offer) : List Text :=
  openingPieces s ++ blockPieces enums enums s.optionalMarker.isOn models
    ++ (Written.start s models enums).pieces steps

/-- The texts of some models and enums. -/
def offeredTexts (models : List TableModel) (enums : List EnumDecl) : List Text :=
  models.flatMap modelTexts ++ enums.flatMap enumTexts

/-- The texts of a session. -/
def sessionTexts (s : Settings) (models : List TableModel) (enums : List EnumDecl)
    (steps : List Offer) : List Text :=
  settingTexts s ++ offeredTexts models enums
    ++ steps.flatMap (fun o => offeredTexts o.models o.enums)

/-- An extension adds a model: its name is among those added, and its block stands in the
document. -/
def Merged.Adds (r : Merged) (o : Offer) (m : TableModel) : Prop :=
  m.name ∈ r.appended ∧ modelBlock o.enums o.optionalMarker m <:+: r.content

section OneLine

variable {ts us : List Text} {models : List TableModel} {enums : List EnumDecl}

theorem oneLine_append :
    OneLine (ts ++ us) ↔ OneLine ts ∧ OneLine us :=
  List.forall_mem_append

theorem oneLine_flatMap
    {α : Type}
    {xs : List α}
    {texts : α → List Text} :
    OneLine (xs.flatMap texts) ↔ ∀ x ∈ xs, OneLine (texts x) := by
  unfold OneLine
  simp only [List.mem_flatMap]
  constructor
  · intro h x hx t ht
    exact h t ⟨x, hx, ht⟩
  · rintro h t ⟨x, hx, ht⟩
    exact h x hx t ht

theorem oneLine_offeredTexts :
    OneLine (offeredTexts models enums)
      ↔ (∀ m ∈ models, OneLine (modelTexts m)) ∧ ∀ e ∈ enums, OneLine (enumTexts e) := by
  unfold offeredTexts
  rw [oneLine_append, oneLine_flatMap, oneLine_flatMap]

end OneLine

section Steps

variable {s : Settings} {models : List TableModel} {enums : List EnumDecl}
variable {d : Text} {ps : List Text} {o : Offer}

/-- A document declares what its pieces declare. -/
theorem Covered.declares_iff
    (h : Covered d ps)
    (n : Text) :
    DeclaresModel n d ↔ ∃ p ∈ ps, DeclaresModel n p := by
  obtain ⟨t, rfl, hpieces, tail, ht, htail⟩ := h
  have hclosing : '\x7b' ∉ closing := by decide
  rw [declares_append_of_brace_not_mem hclosing, ht, declares_append_of_brace_not_mem htail]
  exact hpieces.declares_iff

theorem splitsInto_framed
    (s : Settings)
    (shown enums : List EnumDecl)
    (optionalMarker : Bool)
    (models : List TableModel) :
    SplitsInto (framed s (blocksOf shown enums optionalMarker models))
      (openingPieces s ++ blockPieces shown enums optionalMarker models) := by
  have hblocks := splitsInto_blocksOf shown enums optionalMarker models
  by_cases hnone : blocksOf shown enums optionalMarker models = []
  · rw [hnone] at hblocks ⊢
    have h := (splitsInto_opening s).append hblocks
    rwa [join_nil, List.append_nil] at h
  · rw [framed_of_ne_nil s hnone]
    exact (splitsInto_opening s).append_cons hblocks

/-- A fresh document is covered by its pieces. -/
theorem covered_start
    (h : OneLine (settingTexts s ++ offeredTexts models enums)) :
    Covered (render s models enums)
      (openingPieces s ++ blockPieces enums enums s.optionalMarker.isOn models) := by
  obtain ⟨hs, hoffered⟩ := oneLine_append.1 h
  obtain ⟨hmodels, henums⟩ := oneLine_offeredTexts.1 hoffered
  have hkept := kept_body hs hmodels henums
  refine ⟨body s models enums, render_eq s models enums, ?_, ?_⟩
  · rw [hkept]
    exact splitsInto_framed s enums enums s.optionalMarker.isOn models
  · obtain ⟨u, hu, hbody⟩ := body_framed s models enums
    have hfeeds : '\x7b' ∉ u := fun hmem => absurd (hu _ hmem) (by decide)
    have hplain : '\x7b' ∉ placeholder := by decide
    rw [hkept]
    rcases hbody with hbody | hbody
    · exact ⟨_, hbody, hfeeds⟩
    · refine ⟨_, hbody, ?_⟩
      simp [hfeeds, hplain]

/-- The separator has no pieces. -/
theorem splitsInto_separator
    (today : Date) :
    SplitsInto (separator today) [] := by
  have hday : '\x7b' ∉ today.iso := not_mem_iso (by decide) (by decide) today
  have hleft : '\x7b' ∉ "  // ---- appended at ".toList := by decide
  have hright : '\x7b' ∉ " ----".toList := by decide
  unfold separator
  refine splitsInto_plain ?_ (endsSharp_append _ (by decide))
  simp only [List.mem_append, not_or]
  exact ⟨⟨hleft, hday⟩, hright⟩

theorem splitsInto_extendedFrame
    {t : Text}
    {blocks qs : List Text}
    (ht : SplitsInto (kept t) ps)
    (hblocks : SplitsInto (join ['\n', '\n'] blocks) qs)
    (today : Date) :
    SplitsInto (extendedFrame t today blocks) (ps ++ qs) := by
  have hempty : SplitsInto [] [] := splitsInto_blank allBlank_nil
  have hall := ht.append_cons (hempty.append_cons
    ((splitsInto_separator today).append_cons (hempty.append_cons hblocks)))
  exact hall

/-- A step adds its pieces to those of the document. -/
theorem Covered.extend
    {w v : Written}
    (h : Covered w.content ps)
    (hlines : OneLine (offeredTexts o.models o.enums))
    (hv : w.extend o = .ok v) :
    Covered v.content (ps ++ addedPieces w.content o) := by
  obtain ⟨t, hcontent, hpieces, htail⟩ := h
  rw [Written.extend, Written.offer, hcontent, merge_closed] at hv
  obtain rfl := Except.ok.inj hv
  rw [hcontent]
  by_cases hnew : newModels (t ++ closing) o.models = []
  · have hnone : addedPieces (t ++ closing) o = [] := by
      simp [addedPieces, hnew, newEnums, blockPieces, group]
    rw [if_pos hnew, hnone, List.append_nil]
    exact ⟨t, rfl, hpieces, htail⟩
  · obtain ⟨hmodels, henums⟩ := oneLine_offeredTexts.1 hlines
    have hkept := kept_extended hnew (fun m hm => hmodels m (mem_newModels.1 hm).1) henums t o.today
      o.optionalMarker
    rw [if_neg hnew]
    refine ⟨_, rfl, ?_, ['\n'], ?_, by decide⟩
    · rw [hkept]
      exact splitsInto_extendedFrame hpieces (splitsInto_blocksOf _ _ _ _) o.today
    · rw [hkept]
      exact extended_eq hnew t o.today o.optionalMarker o.enums

/-- A session adds the pieces of its steps. -/
theorem Covered.extendAll
    {w v : Written}
    {os : List Offer}
    (h : Covered w.content ps)
    (hlines : ∀ o ∈ os, OneLine (offeredTexts o.models o.enums))
    (hv : w.extendAll os = .ok v) :
    Covered v.content (ps ++ w.pieces os) := by
  induction os generalizing w ps with
  | nil =>
      obtain rfl := Except.ok.inj hv
      rw [Written.pieces, List.append_nil]
      exact h
  | cons o os ih =>
      obtain ⟨hhere, hrest⟩ := List.forall_mem_cons.1 hlines
      rw [Written.extendAll] at hv
      rw [Written.pieces]
      cases hstep : w.extend o with
      | error e =>
          rw [hstep] at hv
          cases hv
      | ok u =>
          rw [hstep] at hv
          have hall := ih (h.extend hhere hstep) hrest hv
          rwa [List.append_assoc] at hall

/-- The blocks of new models stand in the extended document. -/
theorem infix_extended_of_mem
    {new : List TableModel}
    {m : TableModel}
    (hm : m ∈ new)
    (t : Text)
    (today : Date)
    (optionalMarker : Bool)
    (enums : List EnumDecl) :
    modelBlock enums optionalMarker m <:+: extended t today optionalMarker new enums := by
  have hblock : modelBlock enums optionalMarker m
      ∈ blocksOf (newEnums (t ++ closing) new enums) enums optionalMarker new :=
    List.mem_append_right _ (List.mem_map.2 ⟨m, hm, rfl⟩)
  have hjoin : modelBlock enums optionalMarker m
      <:+: join ['\n', '\n']
        (blocksOf (newEnums (t ++ closing) new enums) enums optionalMarker new) :=
    infix_join_of_mem hblock
  have hframe := hjoin.trans (suffix_extendedFrame t today _).isInfix
  rw [extended_eq (List.ne_nil_of_mem hm)]
  exact hframe.trans (List.prefix_append _ _).isInfix

/-- A step adds exactly the offered models that its document does not declare. -/
theorem Written.Sound.adds_iff
    {w : Written}
    (h : w.Sound)
    (o : Offer) :
    ∃ r, w.offer o = .ok r
      ∧ ∀ m ∈ o.models, r.Adds o m ↔ ¬ DeclaresModel m.name w.content := by
  obtain ⟨t, hcontent, -⟩ := h
  have hmerge := merge_closed t o.models o.enums o.today o.optionalMarker
  rw [← hcontent] at hmerge
  refine ⟨_, hmerge, fun m hm => ?_⟩
  by_cases hnew : newModels w.content o.models = []
  · have hdeclared : DeclaresModel m.name w.content := by
      by_contra hfree
      exact List.not_mem_nil (hnew ▸ mem_newModels.2 ⟨hm, hfree⟩)
    rw [if_pos hnew]
    exact iff_of_false (fun hadds => List.not_mem_nil hadds.1) (not_not_intro hdeclared)
  · rw [if_neg hnew]
    constructor
    · rintro ⟨hname, -⟩ hdeclared
      obtain ⟨m', hm', heq⟩ := List.mem_map.1 hname
      exact (mem_newModels.1 hm').2 (heq ▸ hdeclared)
    · intro hfree
      have hmem : m ∈ newModels w.content o.models := mem_newModels.2 ⟨hm, hfree⟩
      have hblock := infix_extended_of_mem hmem t o.today o.optionalMarker o.enums
      exact ⟨List.mem_map.2 ⟨m, hmem, rfl⟩, hblock.trans (List.prefix_append _ closing).isInfix⟩

end Steps

/-- In any session, a step succeeds and adds exactly the models that the document does not declare.
If the texts of the session have no line feeds, then of the models that were not written before it
adds exactly those that no piece declares, the headers of written models left aside. -/
theorem mem_appended_iff
    (s : Settings)
    (models : List TableModel)
    (enums : List EnumDecl)
    (steps : List Offer)
    (o : Offer) :
    ∃ w, (Written.start s models enums).extendAll steps = .ok w
      ∧ ∃ r, w.offer o = .ok r
        ∧ (∀ m ∈ o.models, r.Adds o m ↔ ¬ DeclaresModel m.name w.content)
        ∧ (OneLine (sessionTexts s models enums steps) → ∀ m ∈ o.models, m.name ∉ w.names →
          (r.Adds o m ↔ ∀ p ∈ sessionPieces s models enums steps, ¬ w.IsHeader p →
            ¬ DeclaresModel m.name p)) := by
  obtain ⟨w, hw, hsound⟩ := exists_extendAll (sound_start s models enums) steps
  obtain ⟨r, hr, hadds⟩ := hsound.adds_iff o
  refine ⟨w, hw, r, hr, hadds, fun hlines m hm hnew => ?_⟩
  obtain ⟨hstart, hsteps⟩ := oneLine_append.1 hlines
  have hcovered := (covered_start hstart).extendAll (w := Written.start s models enums)
    (oneLine_flatMap.1 hsteps) hw
  rw [hadds m hm, hcovered.declares_iff]
  constructor
  · intro hnone p hp _ hdeclared
    exact hnone ⟨p, hp, hdeclared⟩
  · rintro hnone ⟨p, hp, hdeclared⟩
    refine hnone p hp ?_ hdeclared
    rintro ⟨n, hn, hword, rfl⟩
    exact hnew ((declares_headerLine_iff hword).1 hdeclared ▸ hn)

/-- A listing with a comment in which a declaration stands. -/
def tagsListing : Text :=
  "create_table \"tags\", comment: \"see model User \x7b id \x7d\" do |t|
  t.string \"name\"
end
".toList

/-- A listing of the model that the comment names. -/
def usersListing : Text :=
  "create_table \"users\" do |t|
  t.string \"name\"
end
".toList

/-- The columns of both listings. -/
def nameColumns : List Field :=
  [{ name := "id".toList, typeName := "int64".toList, nullable := false },
    { name := "name".toList, typeName := "string".toList }]

/-- The model of the first listing. -/
def commentedTag : TableModel where
  name := "Tag".toList
  tableName := "tags".toList
  comment := some "see model User \x7b id \x7d".toList
  primaryKey := some "id".toList
  fields := nameColumns

/-- The model of the second listing. -/
def user : TableModel where
  name := "User".toList
  tableName := "users".toList
  primaryKey := some "id".toList
  fields := nameColumns

/-- The document of the first listing is left as it is when the second listing is offered to it: the
model was never written, and it is not added. -/
theorem commented_model_not_added :
    ∃ old new r, Schema.parse tagsListing = .ok old ∧ Schema.parse usersListing = .ok new
      ∧ (Written.start {} old []).offer ⟨new, [], ⟨2024, 5, 1⟩, false⟩ = .ok r
      ∧ (∀ m ∈ new, m.name ∉ (Written.start {} old []).names ∧ m.name ∉ r.appended)
      ∧ r.content = render {} old [] ∧ new ≠ [] := by
  have hold : Schema.parse tagsListing = .ok [commentedTag] := by decide +kernel
  have hnew : Schema.parse usersListing = .ok [user] := by decide +kernel
  have hmerge : (Written.start {} [commentedTag] []).offer ⟨[user], [], ⟨2024, 5, 1⟩, false⟩
      = .ok ⟨render {} [commentedTag] [], []⟩ := by decide +kernel
  exact ⟨_, _, _, hold, hnew, hmerge, by decide, rfl, by decide⟩

/-- Offered to a document without such a comment, the model is added. -/
theorem mem_appended_iff_user :
    OneLine (sessionTexts {} [tag] [] [])
      ∧ user.name ∉ (Written.start {} [tag] []).names
      ∧ ∃ r, (Written.start {} [tag] []).offer ⟨[user], [], ⟨2024, 5, 1⟩, false⟩ = .ok r
        ∧ r.Adds ⟨[user], [], ⟨2024, 5, 1⟩, false⟩ user := by
  have hlines : OneLine (sessionTexts {} [tag] [] []) := by decide
  have hnew : user.name ∉ (Written.start {} [tag] []).names := by decide
  have hpieces : ∀ p ∈ sessionPieces {} [tag] [] [], user.name ∉ modelNames p := by decide +kernel
  obtain ⟨w, hw, r, hr, -, hadds⟩ :=
    mem_appended_iff {} [tag] [] [] ⟨[user], [], ⟨2024, 5, 1⟩, false⟩
  obtain rfl := Except.ok.inj hw
  refine ⟨hlines, hnew, r, hr, (hadds hlines user (by simp) hnew).2 (fun p hp _ hdeclared => ?_)⟩
  exact hpieces p hp (mem_modelNames_iff.2 hdeclared)

end Document
end SchemaSpec
