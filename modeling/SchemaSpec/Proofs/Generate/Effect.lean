import Mathlib.Data.List.Induction
import Mathlib.Tactic.Common
import SchemaSpec.Proofs.Files.Placing
import SchemaSpec.Proofs.Journal.Steps
import SchemaSpec.Generate

/-!
# What a run leaves of the tree

A run plans by reading alone, so only acting on the plan can change the tree.

* `plan_eq_ok`: what a plan that is made says about the tree and the request.
* `Truthful`: an outcome tells what was done, and nothing but the target, with the directories above
  it, was touched.
* `Undone`: what a failed run may leave behind.  That is nothing, unless a segment of the target can be
  no name: then directories above it may have been made.
* `Emptied`: what a run leaves whose settings cannot be encoded: the file that it has opened is empty.
* `generate_effect`: a run that ends is truthful, one that fails is undone or has emptied its target.
-/

namespace SchemaSpec

open Text

namespace Document

/-- Whether a document declares all models of a list. -/
def DeclaresAll (document : Text) (models : List TableModel) : Prop :=
  ∀ m ∈ models, m.name ∈ modelNames document

/-- A document is left as it is exactly if it declares all models already. -/
theorem changed_eq_false_iff
    {document : Text}
    {models : List TableModel}
    {enums : List EnumDecl}
    {today : Date}
    {optionalMarker : Bool}
    {merged : Merged}
    (h : merge document models enums today optionalMarker = .ok merged) :
    merged.changed = false ↔ DeclaresAll document models := by
  have hnew : newModels document models = [] ↔ DeclaresAll document models := by
    unfold newModels DeclaresAll
    simp [List.filter_eq_nil_iff]
  rw [← hnew]
  unfold merge at h
  split at h
  · rename_i hnil
    rw [hnil, ← Except.ok.inj h]
    simp [Merged.changed]
  · rename_i m ms hcons
    split at h
    · cases h
    · rw [hcons, ← Except.ok.inj h]
      simp [Merged.changed]

end Document

namespace Generate

section Plans

variable {tree : FileTree} {r : Request} {j i : Journal}

/-- The target of a request leads down only. -/
theorem above_notMem_target
    {target : Path}
    (h : r.target = .ok target) :
    Path.above ∉ target := by
  unfold Request.target at h
  obtain ⟨output, -, h⟩ := except_bind_eq_ok.1 h
  split at h
  · exact Path.above_notMem_of_locate? (mapError_eq_ok.1 h)
  · obtain ⟨base, -, h⟩ := except_bind_eq_ok.1 h
    exact Path.above_notMem_of_locate? (mapError_eq_ok.1 h)

/-- What a plan to extend the target is made of.  What is written is made of texts that were read, and
can be encoded. -/
def Extends (tree : FileTree) (p : Plan) (models : List TableModel) : Prop :=
  ∃ document, tree.readText p.outcome.target = .ok document
    ∧ ((p.outcome.action = .skipped ∧ p.content = none ∧ Document.DeclaresAll document models)
      ∨ (p.outcome.action = .appended ∧ (∃ text, p.content = some ⟨text, none⟩)
        ∧ ¬ Document.DeclaresAll document models))

/-- What a plan says about the tree that it was made in: whether the target is a file of it, which
models the listing has, and what is to be done. -/
structure Planned (tree : FileTree) (r : Request) (p : Plan) (isThere : Bool)
    (models : List TableModel) : Prop where
  target : r.target = .ok p.outcome.target
  found : tree.isFile? p.outcome.target = .ok isThere
  allowed : isThere = true → r.force = true ∨ r.append = true
  listing : ∃ text, tree.readText p.outcome.schema = .ok text ∧ Schema.parse text = .ok models
  created : isThere = false → p.outcome.action = .created
    ∧ ∃ text, p.content = some ⟨text, r.documentFault?⟩
  overwritten : isThere = true → r.append = false →
    p.outcome.action = .overwritten ∧ ∃ text, p.content = some ⟨text, r.documentFault?⟩
  extended : isThere = true → r.append = true → Extends tree p models

theorem readSchema_eq_ok
    {listing : Path}
    {models : List TableModel}
    (h : readSchema tree listing j = .ok models i) :
    ∃ text, tree.readText listing = .ok text ∧ Schema.parse text = .ok models := by
  unfold readSchema at h
  obtain ⟨text, hread, h⟩ := Logged.lift_bind_eq_ok.1 h
  obtain ⟨⟨parsed, place⟩, hparse, h⟩ := Logged.lift_bind_eq_ok.1 h
  have hmodels : parsed = models := by
    cases hopen : place.openTable? with
    | none =>
        simp only [hopen] at h
        exact (Logged.pure_eq_ok.1 h).1
    | some name =>
        simp only [hopen] at h
        obtain ⟨_, _, _, h⟩ := Logged.bind_eq_ok.1 h
        exact (Logged.pure_eq_ok.1 h).1
  refine ⟨text, mapError_eq_ok.1 hread, ?_⟩
  unfold Schema.parse
  rw [mapError_eq_ok.1 hparse, ← hmodels]
  rfl

/-- Extending a document is planned if it misses a model, and nothing otherwise. -/
theorem planAppend_eq_ok
    {target listing : Path}
    {models : List TableModel}
    {enums : List EnumDecl}
    {p : Plan}
    (h : planAppend tree r target listing models enums j = .ok p i) :
    p.outcome.target = target ∧ p.outcome.schema = listing ∧ Extends tree p models := by
  unfold planAppend at h
  obtain ⟨document, hread, h⟩ := Logged.lift_bind_eq_ok.1 h
  have hread := mapError_eq_ok.1 hread
  cases hmerge : Document.merge document models enums r.today r.settings.optionalMarker.isOn with
  | error e =>
      simp only [hmerge] at h
      exact absurd h Logged.throw_ne_ok
  | ok merged =>
      simp only [hmerge] at h
      have hall := Document.changed_eq_false_iff hmerge
      by_cases hchanged : merged.changed = true
      · rw [if_pos hchanged] at h
        rw [← (Logged.pure_eq_ok.1 h).1]
        rw [hchanged] at hall
        exact ⟨rfl, rfl, document, hread, Or.inr ⟨rfl, ⟨_, rfl⟩, by simp [← hall]⟩⟩
      · rw [if_neg hchanged] at h
        rw [← (Logged.pure_eq_ok.1 h).1]
        exact ⟨rfl, rfl, document, hread, Or.inl ⟨rfl, rfl, hall.1 (by simpa using hchanged)⟩⟩

/-- Only a new document can fail to be encoded. -/
theorem Planned.fault
    {p : Plan}
    {isThere : Bool}
    {models : List TableModel}
    (h : Planned tree r p isThere models)
    {draft : Draft}
    (hcontent : p.content = some draft)
    {e : EncodeError}
    (hfault : draft.fault? = some e) :
    r.documentFault? = some e ∧ (isThere = true → r.force = true ∧ r.append = false) := by
  have hfresh : (∃ text, p.content = some ⟨text, r.documentFault?⟩) → r.documentFault? = some e := by
    rintro ⟨text, htext⟩
    rw [hcontent] at htext
    rw [← hfault, Option.some.inj htext]
  cases isThere with
  | false =>
      exact ⟨hfresh (h.created rfl).2, fun hno => by cases hno⟩
  | true =>
      cases happend : r.append with
      | false =>
          have hforce : r.force = true := by simpa [happend] using h.allowed rfl
          exact ⟨hfresh (h.overwritten rfl happend).2, fun _ => ⟨hforce, rfl⟩⟩
      | true =>
          obtain ⟨document, -, ⟨-, hnone, -⟩ | ⟨-, ⟨text, htext⟩, -⟩⟩ := h.extended rfl happend
          · rw [hcontent] at hnone
            cases hnone
          · rw [hcontent] at htext
            rw [Option.some.inj htext] at hfault
            cases hfault

theorem declaresAll_sortModels
    {document : Text}
    {models : List TableModel} :
    Document.DeclaresAll document (sortModels models) ↔ Document.DeclaresAll document models := by
  unfold Document.DeclaresAll sortModels
  simp

theorem plan_eq_ok
    {p : Plan}
    (h : plan tree r j = .ok p i) :
    ∃ isThere models, Planned tree r p isThere models := by
  unfold plan at h
  obtain ⟨target, htarget, h⟩ := Logged.lift_bind_eq_ok.1 h
  obtain ⟨isThere, hfound, h⟩ := Logged.lift_bind_eq_ok.1 h
  have hfound := mapError_eq_ok.1 hfound
  dsimp only at h
  split at h
  · obtain ⟨_, _, hthrow, _⟩ := Logged.bind_eq_ok.1 h
    exact absurd hthrow Logged.throw_ne_ok
  rename_i hguard
  have hallowed : isThere = true → r.force = true ∨ r.append = true := by
    rintro rfl
    simpa [or_iff_not_imp_left] using hguard
  obtain ⟨listing, _, _, h⟩ := Logged.bind_eq_ok.1 h
  obtain ⟨models, _, hread, h⟩ := Logged.bind_eq_ok.1 h
  obtain ⟨_, _, hread⟩ := Logged.operation_eq_ok hread
  have hlisting := readSchema_eq_ok hread
  -- The enums matter to the text only, whether they are collected or not.
  obtain ⟨enums, _, _, hplan⟩ : ∃ enums k l, (if (r.append && isThere) = true then
        planAppend tree r target listing (sortModels models) enums
      else pure ⟨⟨if (r.force && isThere) = true then .overwritten else .created, target, listing,
        (sortModels models).map TableModel.name⟩,
        some ⟨Document.render r.settings (sortModels models) enums, r.documentFault?⟩⟩
          : Logged Stop Plan) k
      = .ok p l := by
    split at h
    · obtain ⟨enums, k, _, h⟩ := Logged.bind_eq_ok.1 h
      exact ⟨enums, k, i, h⟩
    · exact ⟨[], _, i, h⟩
  refine ⟨isThere, models, ?_⟩
  by_cases happend : (r.append && isThere) = true
  · rw [if_pos happend] at hplan
    obtain ⟨rfl, rfl, hextends⟩ := planAppend_eq_ok hplan
    unfold Extends at hextends
    simp only [declaresAll_sortModels] at hextends
    simp only [Bool.and_eq_true] at happend
    exact ⟨htarget, hfound, hallowed, hlisting, by simp [happend], by simp [happend],
      fun _ _ => hextends⟩
  · rw [if_neg happend] at hplan
    rw [← (Logged.pure_eq_ok.1 hplan).1]
    refine ⟨htarget, hfound, hallowed, hlisting, ?_, ?_, ?_⟩
    · rintro rfl
      exact ⟨by simp, _, rfl⟩
    · rintro rfl hno
      have hforce : r.force = true := by simpa [hno] using hallowed rfl
      rw [hforce]
      exact ⟨rfl, _, rfl⟩
    · rintro rfl hyes
      exact absurd (by simp [hyes]) happend

end Plans

section Effects

variable {tree : FileTree} {r : Request} {p : Plan}

/-- What a run that ends has done to the tree, and what it says about that. -/
structure Truthful (tree after : FileTree) (r : Request) (o : Outcome) : Prop where
  target : r.target = .ok o.target
  /-- Elsewhere, directories are made above the target, and nothing else changes. -/
  frame : ∀ q, q ≠ o.target → after.entry? q = tree.entry? q
    ∨ (q <+: o.target ∧ tree.entry? q = none ∧ after.entry? q = some .directory)
  written : o.action ≠ .skipped → after.HasFile o.target
  kept : o.action = .skipped → after = tree
  created : o.action = .created ↔ ¬ tree.HasFile o.target
  overwritten : o.action = .overwritten
    ↔ tree.HasFile o.target ∧ r.force = true ∧ r.append = false
  extended : (o.action = .appended ∨ o.action = .skipped)
    ↔ tree.HasFile o.target ∧ r.append = true
  /-- Of an extended document, the models that it declares already decide. -/
  skipped : tree.HasFile o.target → r.append = true →
    ∃ document listing models, tree.readText o.target = .ok document
      ∧ tree.readText o.schema = .ok listing ∧ Schema.parse listing = .ok models
      ∧ (o.action = .skipped ↔ Document.DeclaresAll document models)

/-- What a run that fails may leave of the tree: directories above the target, and these only if a
segment of the target can be no name. -/
structure Undone (tree after : FileTree) (r : Request) : Prop where
  grew : ∀ q, after.entry? q = tree.entry? q
    ∨ ∃ target, r.target = .ok target ∧ q <+: target.dropLast ∧ tree.entry? q = none
      ∧ after.entry? q = some .directory
  undone : (∀ target, r.target = .ok target → ∀ s ∈ target, SystemFault.IsName s) → after = tree

/-- What a run that fails on its settings leaves of the tree: the target is an empty file.  It was no
file, or one to be replaced.  Elsewhere, directories are made above it, and nothing else changes. -/
structure Emptied (tree after : FileTree) (r : Request) (target : Path) : Prop where
  settled : r.target = .ok target
  allowed : tree.HasFile target → r.force = true ∧ r.append = false
  empty : after.entry? target = some (.file [])
  frame : ∀ q, q ≠ target → after.entry? q = tree.entry? q
    ∨ (q <+: target ∧ tree.entry? q = none ∧ after.entry? q = some .directory)

theorem Undone.refl
    (tree : FileTree)
    (r : Request) :
    Undone tree tree r :=
  ⟨fun _ => Or.inl rfl, fun _ => rfl⟩

/-- To open the file for a plan is to put the target in place. -/
theorem place_placed
    (ht : tree.IsRooted)
    (hdown : Path.above ∉ p.outcome.target)
    (text : Text) :
    ∃ replace done,
      FileTree.Placed tree (p.place tree text).1 p.outcome.target replace (encode text) done
        ∧ ((p.place tree text).2 = .ok () → done = .ok ())
        ∧ ∀ stop, (p.place tree text).2 = .error stop → ∃ e, done = .error e := by
  unfold Plan.place
  split
  · refine ⟨false, _, FileTree.placeText_placed ht hdown false text, mapError_eq_ok.1, ?_⟩
    intro stop hstop
    obtain ⟨e, he, -⟩ := mapError_eq_error.1 hstop
    exact ⟨e, he⟩
  · refine ⟨true, _, FileTree.placeText_placed ht hdown true text, mapError_eq_ok.1, ?_⟩
    intro stop hstop
    obtain ⟨e, he, -⟩ := mapError_eq_error.1 hstop
    exact ⟨e, he⟩

/-- To act on a plan for a draft is to open the file, and to write to it. -/
theorem apply_of_content
    {draft : Draft}
    (hcontent : p.content = some draft)
    (tree : FileTree) :
    p.apply tree
      = ((p.place tree draft.written).1, do (p.place tree draft.written).2; draft.ending) := by
  unfold Plan.apply
  rw [hcontent]

/-- A draft that can be encoded is written as it is. -/
theorem written_of_ending
    {draft : Draft}
    (h : draft.ending = .ok ()) :
    draft.written = draft.text := by
  unfold Draft.ending at h
  unfold Draft.written
  cases hfault : draft.fault? with
  | none =>
      rfl
  | some e =>
      rw [hfault] at h
      cases h

/-- A draft that is written stands in the target. -/
theorem apply_placed
    (ht : tree.IsRooted)
    (hdown : Path.above ∉ p.outcome.target)
    {draft : Draft}
    (hcontent : p.content = some draft)
    (h : (p.apply tree).2 = .ok ()) :
    ∃ replace,
      FileTree.Placed tree (p.apply tree).1 p.outcome.target replace (encode draft.text)
        (.ok ()) := by
  rw [apply_of_content hcontent] at h ⊢
  obtain ⟨_, hopened, hending⟩ := except_bind_eq_ok.1 h
  obtain ⟨replace, done, hplaced, hdone, -⟩ := place_placed ht hdown draft.written
  rw [hdone hopened] at hplaced
  refine ⟨replace, ?_⟩
  rw [← written_of_ending hending]
  exact hplaced

/-- Of a draft that cannot be encoded, nothing is written. -/
theorem written_of_fault
    {draft : Draft}
    {e : EncodeError}
    (h : draft.fault? = some e) :
    draft.written = [] := by
  unfold Draft.written
  rw [h]
  rfl

/-- If the file for a draft that cannot be encoded can be opened, the target is emptied. -/
theorem emptied_of_fault
    (ht : tree.IsProper)
    {isThere : Bool}
    {models : List TableModel}
    (hplan : Planned tree r p isThere models)
    {draft : Draft}
    (hcontent : p.content = some draft)
    {e : EncodeError}
    (hfault : draft.fault? = some e)
    (hopened : (p.place tree []).2 = .ok ()) :
    r.documentFault? = some e ∧ Emptied tree (p.place tree []).1 r p.outcome.target := by
  have hdown := above_notMem_target hplan.target
  have hthere : tree.HasFile p.outcome.target ↔ isThere = true :=
    FileTree.hasFile_iff_of_isFile? ht.rooted hdown (ht.named _) hplan.found
  obtain ⟨replace, done, hplaced, hdone, -⟩ := place_placed ht.rooted hdown []
  obtain ⟨hcause, hallowed⟩ := hplan.fault hcontent hfault
  exact ⟨hcause, {
    settled := hplan.target
    allowed := fun hfile => hallowed (hthere.1 hfile)
    empty := (hplaced.written (hdone hopened)).1
    frame := hplaced.frame }⟩

/-- A plan that cannot be acted on is undone, or its settings cannot be encoded and its target is
emptied. -/
theorem undone_of_apply
    (ht : tree.IsProper)
    {isThere : Bool}
    {models : List TableModel}
    (hplan : Planned tree r p isThere models)
    {stop : Stop}
    (h : (p.apply tree).2 = .error stop) :
    Undone tree (p.apply tree).1 r
      ∨ ∃ e target, stop = .unencodable e ∧ r.documentFault? = some e
        ∧ Emptied tree (p.apply tree).1 r target := by
  have hdown := above_notMem_target hplan.target
  cases hcontent : p.content with
  | none =>
      unfold Plan.apply
      rw [hcontent]
      exact Or.inl (Undone.refl tree r)
  | some draft =>
      rw [apply_of_content hcontent] at h ⊢
      obtain ⟨replace, done, hplaced, -, hfail⟩ := place_placed ht.rooted hdown draft.written
      cases hopened : (p.place tree draft.written).2 with
      | error stop' =>
          obtain ⟨e, he⟩ := hfail stop' hopened
          refine Or.inl ⟨fun q => ?_, fun hnames => ?_⟩
          · rcases hplaced.failed e he q with hsame | hmade
            · exact Or.inl hsame
            · exact Or.inr ⟨p.outcome.target, hplan.target, hmade⟩
          · have hnames := hnames _ hplan.target
            exact hplaced.undone hnames (FileTree.ofSegments?_of_isFile? hnames hplan.found) e he
      | ok _ =>
          -- The file is open, so writing to it has failed, and only a new document can fail so.
          rw [hopened] at h
          have hending : draft.ending = .error stop := h
          unfold Draft.ending at hending
          cases hfault : draft.fault? with
          | none =>
              rw [hfault] at hending
              cases hending
          | some e =>
              rw [hfault] at hending
              rw [written_of_fault hfault] at hopened ⊢
              obtain ⟨hcause, hemptied⟩ := emptied_of_fault ht hplan hcontent hfault hopened
              exact Or.inr ⟨e, p.outcome.target, (Except.error.inj hending).symm, hcause, hemptied⟩

/-- To act on a plan with a content puts the target in place, and makes the directories above it. -/
theorem hasFile_of_apply
    (ht : tree.IsRooted)
    (hdown : Path.above ∉ p.outcome.target)
    {draft : Draft}
    (hcontent : p.content = some draft)
    (h : (p.apply tree).2 = .ok ()) :
    (∀ q, q ≠ p.outcome.target → FileTree.entry? (p.apply tree).1 q = tree.entry? q
      ∨ (q <+: p.outcome.target ∧ tree.entry? q = none
        ∧ FileTree.entry? (p.apply tree).1 q = some .directory))
      ∧ (p.apply tree).1.HasFile p.outcome.target := by
  obtain ⟨replace, hplaced⟩ := apply_placed ht hdown hcontent h
  exact ⟨hplaced.frame, _, (hplaced.written rfl).1⟩

/-- A plan that is acted on has a truthful outcome. -/
theorem truthful_of_apply
    (ht : tree.IsProper)
    {isThere : Bool}
    {models : List TableModel}
    (hplan : Planned tree r p isThere models)
    (h : (p.apply tree).2 = .ok ()) :
    Truthful tree (p.apply tree).1 r p.outcome := by
  have hdown := above_notMem_target hplan.target
  have hthere : tree.HasFile p.outcome.target ↔ isThere = true :=
    FileTree.hasFile_iff_of_isFile? ht.rooted hdown (ht.named _) hplan.found
  obtain ⟨listing, hlisting, hmodels⟩ := hplan.listing
  cases isThere with
  | false =>
      have hfile : ¬ tree.HasFile p.outcome.target := by simp [hthere]
      obtain ⟨haction, text, hcontent⟩ := hplan.created rfl
      obtain ⟨hframe, hwritten⟩ := hasFile_of_apply ht.rooted hdown hcontent h
      exact {
        target := hplan.target
        frame := hframe
        written := fun _ => hwritten
        kept := by simp [haction]
        created := by simp [haction, hfile]
        overwritten := by simp [haction, hfile]
        extended := by simp [haction, hfile]
        skipped := fun hthere _ => absurd hthere hfile }
  | true =>
      have hfile : tree.HasFile p.outcome.target := hthere.2 rfl
      cases happend : r.append with
      | false =>
          have hforce : r.force = true := by simpa [happend] using hplan.allowed rfl
          obtain ⟨haction, text, hcontent⟩ := hplan.overwritten rfl happend
          obtain ⟨hframe, hwritten⟩ := hasFile_of_apply ht.rooted hdown hcontent h
          exact {
            target := hplan.target
            frame := hframe
            written := fun _ => hwritten
            kept := by simp [haction]
            created := by simp [haction, hfile]
            overwritten := by simp [haction, hfile, hforce, happend]
            extended := by simp [haction, happend]
            skipped := by simp [happend] }
      | true =>
          obtain ⟨document, hdocument, hcases⟩ := hplan.extended rfl happend
          rcases hcases with ⟨haction, hcontent, hall⟩ | ⟨haction, ⟨text, hcontent⟩, hmissing⟩
          · have hsame : (p.apply tree).1 = tree := by
              unfold Plan.apply
              rw [hcontent]
            exact {
              target := hplan.target
              frame := fun q _ => Or.inl (by rw [hsame])
              written := by simp [haction]
              kept := fun _ => hsame
              created := by simp [haction, hfile]
              overwritten := by simp [haction, happend]
              extended := by simp [haction, hfile, happend]
              skipped := fun _ _ =>
                ⟨document, listing, models, hdocument, hlisting, hmodels, by simp [haction, hall]⟩ }
          · obtain ⟨hframe, hwritten⟩ := hasFile_of_apply ht.rooted hdown hcontent h
            exact {
              target := hplan.target
              frame := hframe
              written := fun _ => hwritten
              kept := by simp [haction]
              created := by simp [haction, hfile]
              overwritten := by simp [haction, happend]
              extended := by simp [haction, hfile, happend]
              skipped := fun _ _ =>
                ⟨document, listing, models, hdocument, hlisting, hmodels,
                  by simp [haction, hmissing]⟩ }

/-- A target that is there stops a run that may neither replace nor extend it, before anything else
is read. -/
theorem plan_of_hasFile
    {target : Path}
    (htarget : r.target = .ok target)
    (hfound : tree.isFile? target = .ok true)
    (hforce : r.force = false)
    (happend : r.append = false)
    (j : Journal) :
    plan tree r j = .error (.failure (.outputExists target.toText)) j := by
  unfold plan
  simp only [htarget, hforce, happend]
  change EStateM.bind (Logged.lift ((tree.isFile? target).mapError Stop.system)) _ j = _
  rw [hfound]
  rfl

/-- A run whose reports are taken acts on its plan. -/
theorem generate_of_plan
    (hreports : ∀ report, r.refusal? report = none)
    {j after : Journal}
    (h : plan tree r j = .ok p after) :
    (generate tree r j).tree = (p.apply tree).1
      ∧ (generate tree r j).outcome = (p.apply tree).2.map (fun _ => p.outcome) := by
  have hnone : r.refused? ⟨.info, p.outcome.report⟩ = none := by
    rw [Request.refused?, hreports]
    rfl
  unfold generate
  rw [h]
  dsimp only
  split
  · rename_i hdone
    rw [hdone]
    exact ⟨rfl, rfl⟩
  · rename_i hdone
    rw [hdone, hnone]
    exact ⟨rfl, rfl⟩

/-- A run whose reports are taken and that ends says truthfully what it did, and has touched its target
alone, with the directories above it.  A run that fails leaves the tree as it was, unless a segment of
the target can be no name, and at most new directories above the target then, or a setting that a new
document says cannot be encoded, and the target is an empty file then.  A target that is there is an
error when it may be neither replaced nor extended, whatever the listing and the model files hold. -/
theorem generate_effect
    (ht : tree.IsProper)
    (r : Request)
    (hreports : ∀ report, r.refusal? report = none)
    (j : Journal) :
    (∀ o, (generate tree r j).outcome = .ok o → Truthful tree (generate tree r j).tree r o)
      ∧ (∀ stop, (generate tree r j).outcome = .error stop →
        Undone tree (generate tree r j).tree r
          ∨ ∃ e target, stop = .unencodable e ∧ r.documentFault? = some e
            ∧ Emptied tree (generate tree r j).tree r target)
      ∧ (∀ target, r.target = .ok target → SystemFault.ofSegments? target = none →
        tree.HasFile target → r.force = false → r.append = false →
          (generate tree r j).outcome = .error (.failure (.outputExists target.toText))) := by
  refine ⟨fun o ho => ?_, fun stop hstop => ?_, fun target htarget hfree hfile hforce happend => ?_⟩
  · cases hplan : plan tree r j with
    | error e after =>
        simp [generate, hplan] at ho
    | ok p after =>
        obtain ⟨htree, houtcome⟩ := generate_of_plan hreports hplan
        obtain ⟨isThere, models, hplanned⟩ := plan_eq_ok hplan
        rw [ho] at houtcome
        rw [htree]
        cases happly : (p.apply tree).2 with
        | error e =>
            simp [happly, Except.map] at houtcome
        | ok _ =>
            rw [happly] at houtcome
            rw [Except.ok.inj houtcome]
            exact truthful_of_apply ht hplanned happly
  · cases hplan : plan tree r j with
    | error e after =>
        unfold generate
        rw [hplan]
        exact Or.inl (Undone.refl tree r)
    | ok p after =>
        obtain ⟨htree, houtcome⟩ := generate_of_plan hreports hplan
        obtain ⟨isThere, models, hplanned⟩ := plan_eq_ok hplan
        rw [hstop] at houtcome
        rw [htree]
        cases happly : (p.apply tree).2 with
        | error e =>
            rw [happly] at houtcome
            obtain rfl : stop = e := Except.error.inj houtcome
            exact undone_of_apply ht hplanned happly
        | ok _ =>
            simp [happly, Except.map] at houtcome
  · have hfound := FileTree.isFile?_of_hasFile ht.rooted (above_notMem_target htarget) hfile
      (ht.named target (by obtain ⟨_, hentry⟩ := hfile; simp [hentry])) hfree
    unfold generate
    rw [plan_of_hasFile htarget hfound hforce happend]

end Effects

section Samples

/-- A project whose listing has no tables yet. -/
def emptyProject : FileTree where
  entries :=
    [(["db".toList], .directory), (["db".toList, "schema.rb".toList], .file [])]

/-- A run in the project above that is to write a file. -/
def requestFor (out : Text) : Request where
  workingDirectory := []
  directory := ['/']
  out := some out
  today := ⟨2024, 5, 1⟩

/-- A new document is created, and the run says so. -/
theorem generate_effect_created :
    ∃ o, (generate emptyProject (requestFor "new/api.tsp".toList)).outcome = .ok o
      ∧ o.action = .created
      ∧ Truthful emptyProject (generate emptyProject (requestFor "new/api.tsp".toList)).tree
        (requestFor "new/api.tsp".toList) o := by
  have hproper : emptyProject.IsProper := FileTree.isProper_of_entries (by decide +kernel)
  have hends : ((generate emptyProject (requestFor "new/api.tsp".toList)).outcome.toOption.map
      Outcome.action) = some .created := by
    decide +kernel
  cases houtcome : (generate emptyProject (requestFor "new/api.tsp".toList)).outcome with
  | error stop =>
      rw [houtcome] at hends
      cases hends
  | ok o =>
      rw [houtcome] at hends
      have htruth := (generate_effect hproper (requestFor "new/api.tsp".toList) (fun _ => rfl) {}).1
        o houtcome
      exact ⟨o, rfl, Option.some.inj hends, htruth⟩

/-- A title that cannot be encoded leaves an empty file behind. -/
example :
    let r := { requestFor "api.tsp".toList with unencodable := [(.serviceTitle, ⟨"title".toList⟩)] }
    (generate emptyProject r).outcome.isOk = false
      ∧ FileTree.entry? (generate emptyProject r).tree ["api.tsp".toList] = some (.file []) := by
  decide +kernel

/-- A run that fails since the name of the target is too long leaves the directory above it behind. -/
theorem directory_left_behind :
    (generate emptyProject
        (requestFor ("new/".toList ++ List.replicate 256 'a'))).outcome.isOk = false
      ∧ emptyProject.entry? ["new".toList] = none
      ∧ FileTree.entry? (generate emptyProject
          (requestFor ("new/".toList ++ List.replicate 256 'a'))).tree ["new".toList]
        = some .directory := by
  decide +kernel

end Samples

end Generate
end SchemaSpec
