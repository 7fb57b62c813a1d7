import SchemaSpec.Proofs.Files.Walking
import SchemaSpec.Proofs.Journal.Steps
import SchemaSpec.Discovery.SchemaFile
import SchemaSpec.Discovery.ModelFiles

/-!
# Faults that the system reports

An operation on a path with a null character is not even tried; every other failed operation is one
that the system reports.

* `Path.NullFree`: a path without null characters; `nullFree_locate?`, `nullFree_find?` say where
  such paths come from.
* `Reports`: an operation fails in no way but those that the system reports.
* `reports_isFile?`, `reports_find?`, `reports_modelFiles`: what asks and searches always does.
* `reports_readBytes`, `reports_placeText`: what reads and writes does if the path is free of null
  characters.
-/

namespace SchemaSpec

open Text

namespace Path

/-- A path without null characters. -/
def NullFree (p : List Text) : Prop :=
  ∀ s ∈ p, '\x00' ∉ s

instance (p : List Text) : Decidable (NullFree p) :=
  inferInstanceAs (Decidable (∀ s ∈ p, '\x00' ∉ s))

theorem NullFree.append
    {p q : List Text}
    (hp : NullFree p)
    (hq : NullFree q) :
    NullFree (p ++ q) := by
  intro s hs
  rcases List.mem_append.1 hs with hs | hs
  · exact hp s hs
  · exact hq s hs

theorem NullFree.subset
    {p q : List Text}
    (h : NullFree q)
    (hsub : p ⊆ q) :
    NullFree p := fun s hs =>
  h s (hsub hs)

theorem nullFree_segmentsOf
    {t : Text}
    (h : '\x00' ∉ t) :
    NullFree (segmentsOf t) := fun _ hs hmem =>
  h (subset_of_mem_splitWhere (List.mem_filter.1 hs).1 hmem)

theorem nullFree_normalize
    {segments : List Text}
    (h : NullFree segments) :
    NullFree (normalize segments) := by
  unfold normalize
  induction segments using List.reverseRecOn with
  | nil =>
      exact fun s hs => absurd hs List.not_mem_nil
  | append_singleton segments s ih =>
      have hfirst := ih (h.subset (List.subset_append_left _ _))
      rw [List.foldl_append, List.foldl_cons, List.foldl_nil, enter]
      split
      · exact hfirst.subset (List.dropLast_subset _)
      · exact hfirst.append (h.subset (List.subset_append_right _ _))

theorem nullFree_resolve
    {directory : Path}
    {t : Text}
    (hdirectory : NullFree directory)
    (ht : '\x00' ∉ t) :
    NullFree (resolve directory t) := by
  refine nullFree_normalize (NullFree.append ?_ (nullFree_segmentsOf ht))
  split
  · exact fun s hs => absurd hs List.not_mem_nil
  · exact hdirectory

/-- A written path is located exactly if it has no null character. -/
theorem locate?_eq_ok_iff
    {directory p : Path}
    {t : Text} :
    locate? directory t = .ok p ↔ '\x00' ∉ t ∧ resolve directory t = p := by
  unfold locate?
  by_cases h : '\x00' ∈ t
  · simp [h]
  · simp [h]

theorem nullFree_locate?
    {directory p : Path}
    {t : Text}
    (hdirectory : NullFree directory)
    (h : locate? directory t = .ok p) :
    NullFree p := by
  obtain ⟨ht, rfl⟩ := locate?_eq_ok_iff.1 h
  exact nullFree_resolve hdirectory ht

end Path

section Reporting

variable {α β : Type}

/-- An operation that fails, if it does, in a way that the system reports. -/
def Reports (x : Except SystemError α) : Prop :=
  ∀ e, x = .error e → e.fault ≠ .nullCharacter

theorem reports_ok
    (a : α) :
    Reports (.ok a : Except SystemError α) := fun _ h => by
  cases h

theorem Reports.bind
    {x : Except SystemError α}
    {f : α → Except SystemError β}
    (hx : Reports x)
    (hf : ∀ a, Reports (f a)) :
    Reports (x >>= f) := by
  cases x with
  | ok a =>
      exact hf a
  | error e =>
      exact fun d h => hx d (by cases h; rfl)

theorem Reports.map
    {x : Except SystemError α}
    (hx : Reports x)
    (f : α → β) :
    Reports (x.map f) := by
  cases x with
  | ok a =>
      exact reports_ok (f a)
  | error e =>
      exact fun d h => hx d (by cases h; rfl)

theorem reports_findM?
    {p : α → Except SystemError Bool}
    (h : ∀ a, Reports (p a))
    (as : List α) :
    Reports (as.findM? p) := by
  induction as with
  | nil =>
      exact reports_ok none
  | cons a as ih =>
      refine (h a).bind (fun found => ?_)
      cases found with
      | true =>
          exact reports_ok (some a)
      | false =>
          exact ih

theorem reports_findSomeM?
    {f : α → Except SystemError (Option β)}
    (h : ∀ a, Reports (f a))
    (as : List α) :
    Reports (as.findSomeM? f) := by
  induction as with
  | nil =>
      exact reports_ok none
  | cons a as ih =>
      refine (h a).bind (fun found => ?_)
      cases found with
      | some b =>
          exact reports_ok (some b)
      | none =>
          exact ih

theorem reports_mapM
    {f : α → Except SystemError β}
    (h : ∀ a, Reports (f a))
    (as : List α) :
    Reports (as.mapM f) := by
  induction as with
  | nil =>
      exact reports_ok []
  | cons a as ih =>
      rw [List.mapM_cons]
      exact (h a).bind (fun b => ih.bind (fun bs => reports_ok (b :: bs)))

/-- What a search finds is among what it looks at. -/
theorem mem_of_findM?_eq_ok
    {ε : Type}
    {p : α → Except ε Bool}
    {as : List α}
    {a : α}
    (h : as.findM? p = .ok (some a)) :
    a ∈ as := by
  induction as with
  | nil =>
      cases h
  | cons b as ih =>
      obtain ⟨found, -, h⟩ := except_bind_eq_ok.1 h
      cases found with
      | true =>
          cases h
          exact List.mem_cons_self
      | false =>
          exact List.mem_cons_of_mem b (ih h)

theorem exists_of_findSomeM?_eq_ok
    {ε : Type}
    {f : α → Except ε (Option β)}
    {as : List α}
    {b : β}
    (h : as.findSomeM? f = .ok (some b)) :
    ∃ a ∈ as, f a = .ok (some b) := by
  induction as with
  | nil =>
      cases h
  | cons a as ih =>
      obtain ⟨found, hfound, h⟩ := except_bind_eq_ok.1 h
      cases found with
      | some c =>
          cases h
          exact ⟨a, List.mem_cons_self, hfound⟩
      | none =>
          obtain ⟨d, hd, hb⟩ := ih h
          exact ⟨d, List.mem_cons_of_mem a hd, hb⟩

end Reporting

namespace FileTree

variable {t : FileTree} {segments : List Text}

theorem walkFrom_ne_nullCharacter
    (t : FileTree)
    (place : Path)
    (segments : List Text) :
    t.walkFrom place segments ≠ .error .nullCharacter := by
  induction segments generalizing place with
  | nil =>
      simp [walkFrom]
  | cons s rest ih =>
      unfold walkFrom
      split
      · simp
      · simp
      · split
        · simp
        · exact ih _

/-- A path without null characters can be looked up. -/
theorem walk?_ne_nullCharacter
    (h : Path.NullFree segments) :
    t.walk? segments ≠ .error .nullCharacter := by
  have hnull : segments.any (fun s => s.contains '\x00') = false := by
    rw [List.any_eq_false]
    intro s hs
    simpa using h s hs
  have hfault : SystemFault.ofSegments? segments ≠ some .nullCharacter := by
    unfold SystemFault.ofSegments?
    rw [hnull]
    simp only [Bool.false_eq_true, if_false]
    split <;> simp
  unfold walk?
  split
  · rename_i fault hsome
    intro heq
    exact hfault (hsome.trans (congrArg some (Except.error.inj heq)))
  · exact walkFrom_ne_nullCharacter t [] segments

/-- To look what is there fails only if a name or the path is too long. -/
theorem reports_at?
    (t : FileTree)
    (segments : List Text) :
    Reports (t.at? segments) := by
  intro e h
  unfold at? at h
  split at h
  · cases h
  · cases h
    simp
  · cases h

theorem reports_isFile?
    (t : FileTree)
    (segments : List Text) :
    Reports (t.isFile? segments) :=
  (reports_at? t segments).map _

theorem reports_isDirectory?
    (t : FileTree)
    (segments : List Text) :
    Reports (t.isDirectory? segments) :=
  (reports_at? t segments).map _

theorem reports_search
    (t : FileTree)
    (base : Path)
    (ignored : List Text)
    (pattern : Text) :
    Reports (t.search base ignored pattern) := by
  unfold search
  dsimp only
  split
  · exact reports_ok []
  · exact (reports_isDirectory? t _).bind (fun _ => reports_ok _)

theorem reports_readBytes
    (h : Path.NullFree segments) :
    Reports (t.readBytes segments) := by
  intro e he hnull
  unfold readBytes at he
  split at he
  · rename_i fault hwalk
    cases he
    have hfault : fault = .nullCharacter := hnull
    rw [hfault] at hwalk
    exact walk?_ne_nullCharacter h hwalk
  · split at he
    · cases he
      cases hnull
    · cases he
      cases hnull
    · split at he <;> cases he
      cases hnull

theorem makeDirectory_ne_nullCharacter
    (h : Path.NullFree segments) :
    t.makeDirectory segments ≠ .error .nullCharacter := by
  unfold makeDirectory
  split
  · rename_i fault hwalk
    intro heq
    rw [Except.error.inj heq] at hwalk
    exact walk?_ne_nullCharacter h hwalk
  · split <;> simp

theorem reports_settle
    {fault : SystemFault}
    (h : fault ≠ .nullCharacter) :
    Reports (t.settle segments fault).2 := by
  unfold settle
  split
  · exact reports_ok ()
  · intro e he
    cases he
    exact h
  · rename_i d hd
    intro e he
    cases he
    exact reports_isDirectory? t segments d hd

theorem reports_ensureReversed
    (h : Path.NullFree segments) :
    Reports (t.ensureReversed segments).2 := by
  induction segments with
  | nil =>
      exact reports_ok ()
  | cons s above ih =>
      have hall : Path.NullFree (s :: above).reverse := fun c hc => h c (List.mem_reverse.1 hc)
      have habove := ih (h.subset (List.subset_cons_self s above))
      unfold ensureReversed
      dsimp only
      split
      · exact reports_ok ()
      · split
        · rename_i u e hmade
          rw [hmade] at habove
          exact habove
        · split
          · exact reports_ok ()
          · rename_i u _ fault hfault
            exact reports_settle (fun heq => makeDirectory_ne_nullCharacter hall (heq ▸ hfault))
      · rename_i fault _ hfault
        exact reports_settle (fun heq => makeDirectory_ne_nullCharacter hall (heq ▸ hfault))

theorem reports_putFile
    (h : Path.NullFree segments)
    (replace : Bool)
    (content : Bytes) :
    Reports (t.putFile replace segments content).2 := by
  unfold putFile
  split
  · rename_i fault hwalk
    intro e he hnull
    cases he
    have hfault : fault = .nullCharacter := hnull
    rw [hfault] at hwalk
    exact walk?_ne_nullCharacter h hwalk
  · split
    · exact reports_ok ()
    · intro e he
      cases he
      split <;> simp
    · split
      · exact reports_ok ()
      · intro e he
        cases he
        simp

theorem reports_placeText
    (h : Path.NullFree segments)
    (replace : Bool)
    (content : Text) :
    Reports (t.placeText replace segments content).2 := by
  have hdirectory : Path.NullFree segments.dropLast.reverse := fun s hs =>
    h s ((List.dropLast_subset _) (List.mem_reverse.1 hs))
  have hmade := reports_ensureReversed (t := t) hdirectory
  unfold placeText ensureDirectory
  split
  · rename_i u e heq
    rw [heq] at hmade
    exact hmade
  · exact reports_putFile h replace _

end FileTree

section Searching

variable {tree : FileTree} {base : Path}

theorem reports_find?
    (tree : FileTree)
    (base : Path) :
    Reports (SchemaFile.find? tree base) := by
  have hplaced : Reports (SchemaFile.findPlaced? tree base) :=
    (reports_findM? (FileTree.reports_isFile? tree) _).bind (fun _ => reports_ok _)
  refine hplaced.bind (fun found => ?_)
  cases found with
  | some found =>
      exact reports_ok _
  | none =>
      exact reports_findSomeM?
        (fun pattern => (FileTree.reports_search tree base _ pattern).bind (fun _ => reports_ok _)) _

theorem reports_modelFiles
    (tree : FileTree)
    (project : Path) :
    Reports (ModelFiles.modelFiles tree project) := by
  have hall : Reports (tree.searchAll project ModelFiles.ignored ModelFiles.patterns) :=
    (reports_mapM (fun pattern => FileTree.reports_search tree project _ pattern) _).bind
      (fun _ => reports_ok _)
  exact hall.bind (fun _ => reports_ok _)

/-- A file that a search finds is in the tree. -/
theorem entry?_ne_none_of_mem_matching
    {start ignored : List Text}
    {p : Path}
    {pattern : Pattern}
    (h : p ∈ tree.matching start ignored pattern) :
    tree.entry? p ≠ none := by
  obtain ⟨rest, hrest, rfl⟩ := List.mem_map.1 h
  have hwalk := (List.mem_filter.1 (List.mem_mergeSort.1 hrest)).1
  obtain ⟨e, hmem⟩ := FileTree.exists_of_mem_walk hwalk
  exact FileTree.entry?_ne_none_of_mem hmem

/-- The listing that is found from a directory without null characters has none either. -/
theorem nullFree_find?
    (ht : tree.IsProper)
    (hbase : Path.NullFree base)
    {found : SchemaFile}
    (h : SchemaFile.find? tree base = .ok (some found)) :
    Path.NullFree found.path := by
  have hplaces : ∀ place ∈ SchemaFile.places, '\x00' ∉ place := by decide
  unfold SchemaFile.find? at h
  obtain ⟨placed, hplaced, h⟩ := except_bind_eq_ok.1 h
  cases placed with
  | some file =>
      cases h
      unfold SchemaFile.findPlaced? at hplaced
      obtain ⟨p, hfind, hmap⟩ := except_bind_eq_ok.1 hplaced
      cases p with
      | none =>
          cases hmap
      | some p =>
          cases hmap
          obtain ⟨place, hplace, rfl⟩ := List.mem_map.1 (mem_of_findM?_eq_ok hfind)
          exact Path.nullFree_resolve hbase (hplaces place hplace)
  | none =>
      obtain ⟨pattern, -, hpattern⟩ := exists_of_findSomeM?_eq_ok h
      obtain ⟨paths, hsearch, hhead⟩ := except_bind_eq_ok.1 hpattern
      have hsome : paths.head?.map (SchemaFile.matched pattern) = some found := Except.ok.inj hhead
      obtain ⟨p, hp, rfl⟩ := Option.map_eq_some_iff.1 hsome
      have hmem : p ∈ paths := List.mem_of_mem_head? hp
      unfold FileTree.search at hsearch
      dsimp only at hsearch
      split at hsearch
      · cases hsearch
        cases hmem
      · obtain ⟨isThere, -, hpaths⟩ := except_bind_eq_ok.1 hsearch
        cases isThere with
        | false =>
            cases hpaths
            cases hmem
        | true =>
            rw [← Except.ok.inj hpaths] at hmem
            exact fun s hs => (ht.named p (entry?_ne_none_of_mem_matching hmem) s hs).1

end Searching
end SchemaSpec
