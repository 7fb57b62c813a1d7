import Mathlib.Data.List.Induction
import Mathlib.Tactic.Common
import SchemaSpec.Proofs.Keyed
import SchemaSpec.Files.Tree

/-!
# Placing files in trees

What is left of a tree when a file is put in it, or when that fails.

* `above_notMem_normalize`, `normalize_eq_self`: normalized paths are those that lead down only.
* `IsRooted`: all that is in a tree lies in directories of the tree.
* `entry?_put`: setting what is at a path changes no other path.
* `GrewAlong`: a tree with more directories on the way to a path, and no other change.
* `Made`, `ensureReversed_made`: making a directory and those above it.  It leaves a part of its work
  behind only if a segment can be no name.
* `placeText_placed`: putting a file in place, with the directories above it.
-/

namespace SchemaSpec

open Text

namespace Path

/-- A normalized path leads down only. -/
theorem above_notMem_normalize
    (segments : List Text) :
    above ∉ normalize segments := by
  unfold normalize
  induction segments using List.reverseRecOn with
  | nil =>
      exact List.not_mem_nil
  | append_singleton segments s ih =>
      rw [List.foldl_append, List.foldl_cons, List.foldl_nil]
      unfold enter
      split
      · exact fun hmem => ih ((List.dropLast_subset _) hmem)
      · rename_i hs
        intro hmem
        rcases List.mem_append.1 hmem with hmem | hmem
        · exact ih hmem
        · exact hs (List.mem_singleton.1 hmem).symm

theorem above_notMem_of_locate?
    {directory p : Path}
    {t : Text}
    (h : locate? directory t = .ok p) :
    above ∉ p := by
  unfold locate? at h
  split at h
  · cases h
  · rw [← Except.ok.inj h]
    exact above_notMem_normalize _

/-- A path that leads down only is normalized. -/
theorem normalize_eq_self
    {segments : List Text}
    (hdown : above ∉ segments) :
    normalize segments = segments := by
  unfold normalize
  induction segments using List.reverseRecOn with
  | nil =>
      rfl
  | append_singleton segments s ih =>
      rw [List.mem_append, not_or, List.mem_singleton] at hdown
      rw [List.foldl_append, ih hdown.1, List.foldl_cons, List.foldl_nil, enter,
        if_neg (Ne.symm hdown.2)]

end Path

namespace SystemFault

/-- A segment that can be the name of a file or a directory. -/
def IsName (segment : Text) : Prop :=
  '\x00' ∉ segment ∧ isLongName segment = false

instance (segment : Text) : Decidable (IsName segment) := by
  unfold IsName
  infer_instance

theorem ofSegments?_ne_missing
    (segments : List Text) :
    ofSegments? segments ≠ some .missing := by
  unfold ofSegments?
  split
  · simp
  · split <;> simp

/-- Only the length of a path of names can be wrong before it is looked up. -/
theorem ofSegments?_of_names
    {segments : List Text}
    (hnames : ∀ c ∈ segments, IsName c)
    {fault : SystemFault}
    (h : ofSegments? segments = some fault) :
    fault = .nameTooLong := by
  have hnull : segments.any (fun s => s.contains '\x00') = false := by
    rw [List.any_eq_false]
    intro c hc
    simpa using (hnames c hc).1
  unfold ofSegments? at h
  rw [hnull] at h
  simp only [Bool.false_eq_true, if_false] at h
  split at h
  · exact (Option.some.inj h).symm
  · cases h

end SystemFault

namespace FileTree

/-- All that is in a tree lies in directories of the tree. -/
def IsRooted (t : FileTree) : Prop :=
  ∀ p s, t.entry? (p ++ [s]) ≠ none → t.entry? p = some .directory

/-- A tree as a system keeps it: rooted, and all in it has a name. -/
structure IsProper (t : FileTree) : Prop where
  rooted : t.IsRooted
  named : ∀ p, t.entry? p ≠ none → ∀ s ∈ p, SystemFault.IsName s

/-- A file of a tree is at a path. -/
def HasFile (t : FileTree) (p : Path) : Prop :=
  ∃ content, t.entry? p = some (.file content)

/-- A tree is another one with more directories on the way to a path, or at it. -/
def GrewAlong (t u : FileTree) (p : Path) : Prop :=
  ∀ q, u.entry? q = t.entry? q
    ∨ (q <+: p ∧ t.entry? q = none ∧ u.entry? q = some .directory)

theorem not_concat_prefix
    {p : Path}
    {s : Text} :
    ¬ p ++ [s] <+: p := by
  intro h
  have hlength := h.length_le
  rw [List.length_append, List.length_singleton] at hlength
  omega

section Entries

variable {t u v : FileTree} {p q : Path} {e : Entry} {s : Text}

@[simp] theorem entry?_nil :
    t.entry? [] = some .directory := rfl

theorem exists_of_entry?_ne_none
    (hp : p ≠ [])
    (h : t.entry? p ≠ none) :
    ∃ x ∈ t.entries, x.1 = p := by
  unfold entry? at h
  rw [if_neg hp] at h
  exact lookup_ne_none_iff.1 h

/-- A listed tree is rooted if each entry is in a directory. -/
theorem isRooted_of_entries
    (h : ∀ x ∈ t.entries, t.entry? x.1.dropLast = some .directory) :
    t.IsRooted := by
  intro p s hentry
  obtain ⟨x, hx, hpath⟩ := exists_of_entry?_ne_none (by simp) hentry
  have hparent := h x hx
  rwa [hpath, List.dropLast_concat] at hparent

/-- A listed tree is proper if each entry is in a directory and has a name. -/
theorem isProper_of_entries
    (h : ∀ x ∈ t.entries, t.entry? x.1.dropLast = some .directory
      ∧ ∀ s ∈ x.1, SystemFault.IsName s) :
    t.IsProper := by
  refine ⟨isRooted_of_entries (fun x hx => (h x hx).1), fun p hentry s hs => ?_⟩
  obtain ⟨x, hx, rfl⟩ := exists_of_entry?_ne_none (List.ne_nil_of_mem hs) hentry
  exact (h x hx).2 s hs

/-- Setting what is at a path changes no other path. -/
theorem entry?_put
    (hp : p ≠ [])
    (q : Path) :
    FileTree.entry? (t.put p e) q = if q = p then some e else t.entry? q := by
  have hother : ∀ entries : List (Path × Entry), q ≠ p →
      (entries.filter (fun x => x.1 != p)).lookup q = entries.lookup q := by
    intro entries hq
    induction entries with
    | nil =>
        rfl
    | cons x entries ih =>
        obtain ⟨k, d⟩ := x
        rw [lookup_cons_eq_ite]
        by_cases hk : k = p
        · rw [List.filter_cons_of_neg (by simpa using hk), ih, if_neg (fun h => hq (h.trans hk))]
        · rw [List.filter_cons_of_pos (by simpa using hk), lookup_cons_eq_ite, ih]
  have hself : ∀ entries : List (Path × Entry),
      (entries.filter (fun x => x.1 != p)).lookup p = none := by
    intro entries
    rw [List.lookup_eq_none_iff]
    intro x hx
    have hne := (List.mem_filter.1 hx).2
    rw [bne_iff_ne] at hne
    simpa using Ne.symm hne
  unfold entry? put
  by_cases hq : q = p
  · subst hq
    rw [if_neg hp, if_pos rfl, List.lookup_append, hself]
    simp
  · rw [List.lookup_append, hother _ hq, lookup_cons_eq_ite, if_neg hq, if_neg hq, List.lookup_nil,
      Option.or_none]

/-- Whatever is above an entry is a directory. -/
theorem IsRooted.above
    (h : t.IsRooted)
    (hq : q ≠ [])
    (hentry : t.entry? (p ++ q) ≠ none) :
    t.entry? p = some .directory := by
  induction q using List.reverseRecOn with
  | nil =>
      exact absurd rfl hq
  | append_singleton q s ih =>
      rw [← List.append_assoc] at hentry
      have hparent := h _ _ hentry
      by_cases hnil : q = []
      · rwa [hnil, List.append_nil] at hparent
      · exact ih hnil (by simp [hparent])

/-- The way to an entry leads through directories. -/
theorem IsRooted.way
    (h : t.IsRooted)
    (hentry : t.entry? p ≠ none)
    (q : Path)
    (hq : q <+: p)
    (hne : q ≠ p) :
    t.entry? ([] ++ q) = some .directory := by
  obtain ⟨r, rfl⟩ := hq
  refine h.above (fun hr => hne ?_) hentry
  rw [hr, List.append_nil]

/-- A tree stays rooted when something is put in a directory, unless a file takes the place of a
directory. -/
theorem IsRooted.put
    (h : t.IsRooted)
    (hp : t.entry? p = some .directory)
    (he : t.entry? (p ++ [s]) = some .directory → e = .directory) :
    (t.put (p ++ [s]) e).IsRooted := by
  have hne : p ++ [s] ≠ [] := by simp
  intro q c hentry
  rw [entry?_put hne] at hentry ⊢
  by_cases hq : q = p ++ [s]
  · have hlonger : q ++ [c] ≠ p ++ [s] := by
      rw [hq]
      simp
    rw [if_neg hlonger] at hentry
    have hdirectory := h _ _ hentry
    rw [hq] at hdirectory
    rw [if_pos hq, he hdirectory]
  · rw [if_neg hq]
    by_cases hsame : q ++ [c] = p ++ [s]
    · rw [(List.append_inj' hsame rfl).1]
      exact hp
    · rw [if_neg hsame] at hentry
      exact h _ _ hentry

theorem GrewAlong.refl
    (t : FileTree)
    (p : Path) :
    t.GrewAlong t p :=
  fun _ => Or.inl rfl

theorem GrewAlong.mono
    (h : t.GrewAlong u p)
    (hpq : p <+: q) :
    t.GrewAlong u q := by
  intro r
  rcases h r with hsame | ⟨hr, hmade⟩
  · exact Or.inl hsame
  · exact Or.inr ⟨hr.trans hpq, hmade⟩

/-- What was there is still there. -/
theorem GrewAlong.entry?_eq
    (h : t.GrewAlong u p)
    (hq : ¬ q <+: p ∨ t.entry? q ≠ none) :
    u.entry? q = t.entry? q := by
  rcases h q with hsame | ⟨hpart, hnone, -⟩
  · exact hsame
  · rcases hq with hq | hq
    · exact absurd hpart hq
    · exact absurd hnone hq

/-- One more directory on the way. -/
theorem GrewAlong.put
    (h : t.GrewAlong u p)
    (hnone : t.entry? (p ++ [s]) = none) :
    t.GrewAlong (u.put (p ++ [s]) .directory) (p ++ [s]) := by
  intro q
  rw [entry?_put (by simp)]
  by_cases hq : q = p ++ [s]
  · subst hq
    exact Or.inr ⟨List.prefix_rfl, hnone, if_pos rfl⟩
  · rw [if_neg hq]
    exact h.mono (List.prefix_append p [s]) q

end Entries

section Walks

variable {t : FileTree} {p q place : Path} {segments : List Text} {s : Text}

/-- Segments that lead down only are followed through directories, and are the path that they lead
to. -/
theorem walkFrom_eq_ok_iff
    (hdown : Path.above ∉ segments) :
    t.walkFrom place segments = .ok p ↔
      p = place ++ segments
        ∧ (∀ q, q <+: segments → q ≠ segments → t.entry? (place ++ q) = some .directory)
        ∧ ∀ s ∈ segments, SystemFault.isLongName s = false := by
  induction segments generalizing place with
  | nil =>
      have hnone : ∀ q : Path, q <+: [] → q ≠ [] → t.entry? (place ++ q) = some .directory :=
        fun q hq hne => absurd (List.prefix_nil.1 hq) hne
      rw [walkFrom, List.append_nil, Except.ok.injEq]
      exact ⟨fun h => ⟨h.symm, hnone, fun s hs => absurd hs List.not_mem_nil⟩, fun h => h.1.symm⟩
  | cons s rest ih =>
      obtain ⟨hs, hrest⟩ := not_or.1 (mt List.mem_cons.2 hdown)
      have henter : Path.enter place s = place ++ [s] := if_neg (Ne.symm hs)
      have hsteps : (∀ q, q <+: s :: rest → q ≠ s :: rest →
            t.entry? (place ++ q) = some .directory)
          ↔ t.entry? place = some .directory
            ∧ ∀ q, q <+: rest → q ≠ rest → t.entry? (place ++ [s] ++ q) = some .directory := by
        constructor
        · intro h
          refine ⟨by simpa using h [] List.nil_prefix (List.cons_ne_nil s rest).symm, ?_⟩
          intro q hq hne
          have hlong := h (s :: q) (List.cons_prefix_cons.2 ⟨rfl, hq⟩) (by simpa using hne)
          simpa using hlong
        · rintro ⟨hhere, h⟩ q hq hne
          rcases List.prefix_cons_iff.1 hq with rfl | ⟨r, rfl, hr⟩
          · simpa using hhere
          · simpa using h r hr (by simpa using hne)
      rw [hsteps, walkFrom]
      cases hentry : t.entry? place with
      | none =>
          simp
      | some e =>
          cases e with
          | file content =>
              simp
          | directory =>
              by_cases hlong : SystemFault.isLongName s = true
              · simp [hlong]
              · rw [Bool.not_eq_true] at hlong
                simp only [hlong, Bool.false_eq_true, if_false, henter]
                rw [ih hrest]
                simp [hlong]

/-- Through directories, only a name that is too long can stop a walk. -/
theorem walkFrom_of_directories
    (hdown : Path.above ∉ segments)
    (h : ∀ q, q <+: segments → q ≠ segments → t.entry? (place ++ q) = some .directory) :
    t.walkFrom place segments = .ok (place ++ segments)
      ∨ t.walkFrom place segments = .error .nameTooLong := by
  induction segments generalizing place with
  | nil =>
      exact Or.inl (by rw [walkFrom, List.append_nil])
  | cons s rest ih =>
      obtain ⟨hs, hrest⟩ := not_or.1 (mt List.mem_cons.2 hdown)
      have henter : Path.enter place s = place ++ [s] := if_neg (Ne.symm hs)
      have hhere : t.entry? place = some .directory := by
        simpa using h [] List.nil_prefix (List.cons_ne_nil s rest).symm
      rw [walkFrom, hhere, henter]
      dsimp only
      split
      · exact Or.inr rfl
      · rw [List.append_cons place s rest]
        refine ih hrest (fun q hq hne => ?_)
        have hsteps := h (s :: q) (List.cons_prefix_cons.2 ⟨rfl, hq⟩) (by simpa using hne)
        simpa using hsteps

/-- Segments that lead down only lead to the path that they are. -/
theorem eq_of_walk?_eq_ok
    (hdown : Path.above ∉ segments)
    (h : t.walk? segments = .ok p) :
    p = segments := by
  unfold walk? at h
  split at h
  · cases h
  · exact ((walkFrom_eq_ok_iff hdown).1 h).1

/-- A walk leads through directories. -/
theorem entry?_of_walk?_eq_ok
    (hdown : Path.above ∉ p ++ [s])
    (h : t.walk? (p ++ [s]) = .ok q) :
    t.entry? p = some .directory := by
  unfold walk? at h
  split at h
  · cases h
  · obtain ⟨-, hsteps, -⟩ := (walkFrom_eq_ok_iff hdown).1 h
    exact hsteps p (List.prefix_append p [s]) (by simp)

/-- Before a walk that meets nothing, nothing is wrong with its path. -/
theorem ofSegments?_of_walk?_missing
    (h : t.walk? segments = .error .missing) :
    SystemFault.ofSegments? segments = none := by
  unfold walk? at h
  split at h
  · rename_i fault hfault
    rw [Except.error.inj h] at hfault
    exact absurd hfault (SystemFault.ofSegments?_ne_missing segments)
  · assumption

/-- If a walk meets nothing, there is nothing at its end. -/
theorem entry?_eq_none_of_walk?_missing
    (ht : t.IsRooted)
    (hdown : Path.above ∉ segments)
    (h : t.walk? segments = .error .missing) :
    t.entry? segments = none := by
  have hwalk : t.walk? segments = t.walkFrom [] segments := by
    rw [walk?, ofSegments?_of_walk?_missing h]
  by_contra hentry
  have hway := walkFrom_of_directories hdown (ht.way hentry)
  rw [← hwalk, h] at hway
  rcases hway with hok | hlong
  · cases hok
  · cases hlong

/-- In a directory, a name can be looked up. -/
theorem walk?_name
    (ht : t.IsRooted)
    (hdown : Path.above ∉ p ++ [s])
    (hfree : SystemFault.ofSegments? (p ++ [s]) = none)
    (hnames : ∀ c ∈ p ++ [s], SystemFault.IsName c)
    (hp : t.entry? p = some .directory) :
    t.walk? (p ++ [s]) = .ok (p ++ [s]) := by
  unfold walk?
  rw [hfree]
  refine (walkFrom_eq_ok_iff hdown).2 ⟨rfl, fun q hq hne => ?_, fun c hc => (hnames c hc).2⟩
  rw [List.nil_append]
  rcases List.prefix_concat_iff.1 hq with hwhole | hq
  · exact absurd hwhole hne
  · obtain ⟨r, rfl⟩ := hq
    by_cases hr : r = []
    · rwa [hr, List.append_nil] at hp
    · exact ht.above hr (by simp [hp])

/-- What is in a tree can be looked up, unless the path is too long as a whole. -/
theorem walk?_of_entry?
    (ht : t.IsRooted)
    (hdown : Path.above ∉ segments)
    (hentry : t.entry? segments ≠ none)
    (hnames : ∀ c ∈ segments, SystemFault.IsName c) :
    t.walk? segments = .ok segments ∨ t.walk? segments = .error .nameTooLong := by
  unfold walk?
  split
  · rename_i fault hfault
    rw [SystemFault.ofSegments?_of_names hnames hfault]
    exact Or.inr rfl
  · exact walkFrom_of_directories hdown (ht.way hentry)

/-- If the system can say whether a file is there, it says so of files and nothing else. -/
theorem hasFile_iff_of_isFile?
    (ht : t.IsRooted)
    (hdown : Path.above ∉ segments)
    (hnames : t.entry? segments ≠ none → ∀ c ∈ segments, SystemFault.IsName c)
    {isThere : Bool}
    (h : t.isFile? segments = .ok isThere) :
    t.HasFile segments ↔ isThere = true := by
  unfold isFile? at? at h
  cases hwalk : t.walk? segments with
  | ok p =>
      obtain rfl := eq_of_walk?_eq_ok hdown hwalk
      rw [hwalk] at h
      unfold HasFile
      cases hentry : t.entry? p with
      | none =>
          simpa [hentry, Except.map] using h
      | some e =>
          cases e with
          | directory =>
              simpa [hentry, Except.map] using h
          | file content =>
              simpa [hentry, Except.map, eq_comm] using h
  | error fault =>
      rw [hwalk] at h
      have hfalse : isThere = false := by cases fault <;> cases h <;> rfl
      have hfault : fault ≠ .nameTooLong := by
        rintro rfl
        cases h
      rw [hfalse]
      refine iff_of_false (fun ⟨content, hfile⟩ => ?_) Bool.false_ne_true
      have hentry : t.entry? segments ≠ none := by simp [hfile]
      have hfound := walk?_of_entry? ht hdown hentry (hnames hentry)
      rw [hwalk] at hfound
      rcases hfound with hok | hlong
      · cases hok
      · exact hfault (Except.error.inj hlong)

/-- If the system can say whether a file is there, nothing is wrong with the path before that. -/
theorem ofSegments?_of_isFile?
    (hnames : ∀ c ∈ segments, SystemFault.IsName c)
    {isThere : Bool}
    (h : t.isFile? segments = .ok isThere) :
    SystemFault.ofSegments? segments = none := by
  rw [Option.eq_none_iff_forall_ne_some]
  intro fault hfault
  obtain rfl := SystemFault.ofSegments?_of_names hnames hfault
  unfold isFile? at? walk? at h
  rw [hfault] at h
  cases h

/-- The system can say that a file is there, unless its path is too long as a whole. -/
theorem isFile?_of_hasFile
    (ht : t.IsRooted)
    (hdown : Path.above ∉ segments)
    (hfile : t.HasFile segments)
    (hnames : ∀ c ∈ segments, SystemFault.IsName c)
    (hfree : SystemFault.ofSegments? segments = none) :
    t.isFile? segments = .ok true := by
  obtain ⟨content, hentry⟩ := hfile
  have hwalk : t.walk? segments = .ok segments := by
    unfold walk?
    rw [hfree]
    exact (walkFrom_eq_ok_iff hdown).2
      ⟨rfl, ht.way (by simp [hentry]), fun c hc => (hnames c hc).2⟩
  unfold isFile? at?
  rw [hwalk]
  simp [hentry, Except.map]

end Walks

section Directories

variable {t u : FileTree} {p : Path} {segments : List Text} {s : Text}

/-- A directory is made in a directory, where nothing is. -/
theorem makeDirectory_eq_ok
    (hdown : Path.above ∉ p ++ [s])
    (h : t.makeDirectory (p ++ [s]) = .ok u) :
    u = t.put (p ++ [s]) .directory ∧ t.entry? p = some .directory
      ∧ t.entry? (p ++ [s]) = none := by
  unfold makeDirectory at h
  cases hwalk : t.walk? (p ++ [s]) with
  | error fault =>
      rw [hwalk] at h
      cases h
  | ok q =>
      obtain rfl := eq_of_walk?_eq_ok hdown hwalk
      rw [hwalk] at h
      cases hentry : t.entry? (p ++ [s]) with
      | some e =>
          simp [hentry] at h
      | none =>
          simp only [hentry, Except.ok.injEq] at h
          exact ⟨h.symm, entry?_of_walk?_eq_ok hdown hwalk, rfl⟩

/-- Only the way to a directory can be missing when it is made. -/
theorem walk?_of_makeDirectory_missing
    (h : t.makeDirectory segments = .error .missing) :
    t.walk? segments = .error .missing := by
  unfold makeDirectory at h
  cases hwalk : t.walk? segments with
  | error fault =>
      rw [hwalk] at h
      rw [Except.error.inj h]
  | ok q =>
      rw [hwalk] at h
      cases hentry : t.entry? q <;> simp [hentry] at h

/-- A directory whose name can be looked up is made if nothing is there. -/
theorem makeDirectory_of_walk?
    (hwalk : t.walk? segments = .ok segments)
    (hnone : t.entry? segments = none) :
    t.makeDirectory segments = .ok (t.put segments .directory) := by
  unfold makeDirectory
  simp only [hwalk, hnone]

@[simp] theorem settle_fst
    (fault : SystemFault) :
    (t.settle segments fault).1 = t := by
  unfold settle
  split <;> rfl

theorem entry?_of_settle
    (hdown : Path.above ∉ segments)
    {fault : SystemFault}
    (h : (t.settle segments fault).2 = .ok ()) :
    t.entry? segments = some .directory := by
  unfold settle isDirectory? at? at h
  cases hwalk : t.walk? segments with
  | error fault =>
      rw [hwalk] at h
      cases fault <;> cases h
  | ok q =>
      obtain rfl := eq_of_walk?_eq_ok hdown hwalk
      rw [hwalk] at h
      by_contra hno
      have hfalse : (t.entry? q == some Entry.directory) = false := by simpa using hno
      simp [Except.map, hfalse] at h

/-- What making a directory, and those above it, leaves of a tree. -/
structure Made (t u : FileTree) (p : Path) (done : Except SystemError Unit) : Prop where
  rooted : u.IsRooted
  grew : t.GrewAlong u p
  there : done = .ok () → u.entry? p = some .directory
  /-- If something is there already, nothing is made. -/
  kept : t.entry? p ≠ none → u = t
  /-- A failure leaves nothing behind, unless a segment can be no name. -/
  undone : (∀ c ∈ p, SystemFault.IsName c) → ∀ e, done = .error e → u = t

/-- A directory that is there, or cannot be there, is not made. -/
theorem made_settle
    (ht : t.IsRooted)
    (hdown : Path.above ∉ segments)
    (fault : SystemFault) :
    Made t (t.settle segments fault).1 segments (t.settle segments fault).2 where
  rooted := by rwa [settle_fst]
  grew := by
    rw [settle_fst]
    exact GrewAlong.refl t segments
  there := fun h => by
    rw [settle_fst]
    exact entry?_of_settle hdown h
  kept := fun _ => settle_fst fault
  undone := fun _ _ _ => settle_fst fault

/-- A directory that is there is made without a change. -/
theorem Made.refl
    (ht : t.IsRooted)
    (hp : t.entry? p = some .directory) :
    Made t t p (.ok ()) :=
  ⟨ht, GrewAlong.refl t p, fun _ => hp, fun _ => rfl, fun _ _ he => by cases he⟩

/-- If the directory above cannot be made, the directory is not made either. -/
theorem Made.of_failed
    {e : SystemError}
    (h : Made t u p (.error e))
    (hnone : t.entry? (p ++ [s]) = none) :
    Made t u (p ++ [s]) (.error e) where
  rooted := h.rooted
  grew := h.grew.mono (List.prefix_append p [s])
  there := fun hdone => by cases hdone
  kept := fun hsome => absurd hnone hsome
  undone := fun hnames _ _ => h.undone (fun c hc => hnames c (List.mem_append_left [s] hc)) e rfl

/-- One more directory is made in the directory above. -/
theorem Made.concat
    (h : Made t u p (.ok ()))
    (hdown : Path.above ∉ p ++ [s])
    (hnone : t.entry? (p ++ [s]) = none)
    {v : FileTree}
    (hmake : u.makeDirectory (p ++ [s]) = .ok v) :
    Made t v (p ++ [s]) (.ok ()) := by
  obtain ⟨rfl, hparent, -⟩ := makeDirectory_eq_ok hdown hmake
  exact {
    rooted := h.rooted.put hparent (fun _ => rfl)
    grew := h.grew.put hnone
    there := fun _ => by rw [entry?_put (by simp), if_pos rfl]
    kept := fun hsome => absurd hnone hsome
    undone := fun _ _ he => by cases he }

/-- In a directory that is made, a directory can be made unless its name cannot be looked up. -/
theorem Made.settle
    (h : Made t u p (.ok ()))
    (hdown : Path.above ∉ p ++ [s])
    (hfree : SystemFault.ofSegments? (p ++ [s]) = none)
    (hnone : t.entry? (p ++ [s]) = none)
    {fault : SystemFault}
    (hmake : u.makeDirectory (p ++ [s]) = .error fault) :
    Made t (u.settle (p ++ [s]) fault).1 (p ++ [s]) (u.settle (p ++ [s]) fault).2 := by
  have hsettled := made_settle h.rooted hdown fault
  refine ⟨hsettled.rooted, ?_, hsettled.there, fun hsome => absurd hnone hsome,
    fun hnames e he => ?_⟩
  · rw [settle_fst]
    exact h.grew.mono (List.prefix_append p [s])
  · -- In the directory above, the name can be looked up, and nothing is there.
    have hfound := walk?_name h.rooted hdown hfree hnames (h.there rfl)
    have hstill : u.entry? (p ++ [s]) = none := by
      rw [h.grew.entry?_eq (Or.inl not_concat_prefix), hnone]
    rw [makeDirectory_of_walk? hfound hstill] at hmake
    cases hmake

/-- Making a directory, and those above it, changes nothing else. -/
theorem ensureReversed_made
    (ht : t.IsRooted)
    (reversed : List Text)
    (hdown : Path.above ∉ reversed) :
    Made t (t.ensureReversed reversed).1 reversed.reverse (t.ensureReversed reversed).2 := by
  induction reversed with
  | nil =>
      exact Made.refl ht rfl
  | cons s above ih =>
      have hsegments : (s :: above).reverse = above.reverse ++ [s] := List.reverse_cons
      have hwhole : Path.above ∉ above.reverse ++ [s] := by
        rw [← hsegments, List.mem_reverse]
        exact hdown
      rw [ensureReversed, hsegments]
      cases hmake : t.makeDirectory (above.reverse ++ [s]) with
      | ok made =>
          obtain ⟨-, hparent, hnone⟩ := makeDirectory_eq_ok hwhole hmake
          exact (Made.refl ht hparent).concat hwhole hnone hmake
      | error fault =>
          by_cases hmissing : fault = .missing
          · subst hmissing
            have hwalk := walk?_of_makeDirectory_missing hmake
            have hnone := entry?_eq_none_of_walk?_missing ht hwhole hwalk
            have hfree := ofSegments?_of_walk?_missing hwalk
            have habove := ih (fun hmem => hdown (List.mem_cons_of_mem s hmem))
            cases hrest : t.ensureReversed above with
            | mk u done =>
                rw [hrest] at habove
                dsimp only at habove
                cases done with
                | error e =>
                    exact habove.of_failed hnone
                | ok _ =>
                    dsimp only
                    cases hagain : u.makeDirectory (above.reverse ++ [s]) with
                    | ok made =>
                        exact habove.concat hwhole hnone hagain
                    | error fault =>
                        exact habove.settle hwhole hfree hnone hagain
          · have hsettled := made_settle ht hwhole fault
            cases fault <;> first | exact absurd rfl hmissing | exact hsettled

end Directories

section Files

variable {t u : FileTree} {p segments : List Text} {replace : Bool}

/-- What putting a file in place, with the directories above it, leaves of a tree. -/
structure Placed (t u : FileTree) (p : Path) (replace : Bool) (content : Bytes)
    (done : Except SystemError Unit) : Prop where
  rooted : u.IsRooted
  written : done = .ok () → u.entry? p = some (.file content) ∧ t.entry? p ≠ some .directory
    ∧ (replace = false → t.entry? p = none)
  /-- Elsewhere, directories are made on the way, and nothing else changes. -/
  frame : ∀ q, q ≠ p → u.entry? q = t.entry? q
    ∨ (q <+: p ∧ t.entry? q = none ∧ u.entry? q = some .directory)
  /-- A failure makes directories at most. -/
  failed : ∀ e, done = .error e → t.GrewAlong u p.dropLast
  /-- It leaves nothing behind, unless a segment can be no name or the path is too long. -/
  undone : (∀ c ∈ p, SystemFault.IsName c) → SystemFault.ofSegments? p = none →
    ∀ e, done = .error e → u = t

/-- A file is put where no directory is, and nothing is unless it may be replaced. -/
theorem putFile_eq_ok
    (hdown : Path.above ∉ segments)
    {content : Bytes}
    (h : (t.putFile replace segments content).2 = .ok ()) :
    (t.putFile replace segments content).1 = t.put segments (.file content)
      ∧ t.entry? segments ≠ some .directory ∧ (replace = false → t.entry? segments = none) := by
  unfold putFile at h ⊢
  cases hwalk : t.walk? segments with
  | error fault =>
      rw [hwalk] at h
      cases h
  | ok q =>
      obtain rfl := eq_of_walk?_eq_ok hdown hwalk
      cases hentry : t.entry? q with
      | none =>
          exact ⟨by simp only [hentry], by simp, fun _ => rfl⟩
      | some e =>
          cases e with
          | directory =>
              simp [hwalk, hentry] at h
          | file old =>
              cases replace with
              | false =>
                  simp [hwalk, hentry] at h
              | true =>
                  exact ⟨by simp only [hentry, if_true], by simp, by simp⟩

theorem putFile_eq_error
    {content : Bytes}
    {e : SystemError}
    (h : (t.putFile replace segments content).2 = .error e) :
    (t.putFile replace segments content).1 = t := by
  unfold putFile at h ⊢
  split at h
  · rfl
  · split at h
    · cases h
    · rfl
    · split at h
      · cases h
      · rename_i hreplace
        rw [if_neg hreplace]

/-- Where a name can be looked up and nothing is, a file can be put. -/
theorem putFile_of_walk?
    (hwalk : t.walk? segments = .ok segments)
    (hnone : t.entry? segments = none)
    (content : Bytes) :
    (t.putFile replace segments content).2 = .ok () := by
  unfold putFile
  simp only [hwalk, hnone]

/-- Making the directory of a path leaves the tree as it is if something is at the path. -/
theorem Made.eq_of_entry?
    (ht : t.IsRooted)
    {done : Except SystemError Unit}
    (h : Made t u p.dropLast done)
    (hentry : t.entry? p ≠ none) :
    u = t := by
  refine h.kept ?_
  rcases List.eq_nil_or_concat p with rfl | ⟨q, s, rfl⟩
  · simp
  · rw [List.concat_eq_append] at hentry ⊢
    rw [List.dropLast_concat, ht q s hentry]
    simp

/-- If the directory cannot be made, the file is not put. -/
theorem Made.placed_of_failed
    {content : Bytes}
    {e : SystemError}
    (h : Made t u p.dropLast (.error e)) :
    Placed t u p replace content (.error e) where
  rooted := h.rooted
  written := fun hdone => by cases hdone
  frame := fun q _ => h.grew.mono (List.dropLast_prefix p) q
  failed := fun _ _ => h.grew
  undone := fun hnames _ _ _ => h.undone (fun c hc => hnames c ((List.dropLast_subset p) hc)) e rfl

/-- In a directory that is made, a file can be put unless its name cannot be looked up, or something
is there. -/
theorem Made.placed_of_error
    (ht : t.IsRooted)
    (h : Made t u p.dropLast (.ok ()))
    (hdown : Path.above ∉ p)
    {content : Bytes}
    {e : SystemError}
    (hput : (u.putFile replace p content).2 = .error e) :
    Placed t u p replace content (.error e) where
  rooted := h.rooted
  written := fun hdone => by cases hdone
  frame := fun q _ => h.grew.mono (List.dropLast_prefix p) q
  failed := fun _ _ => h.grew
  undone := fun hnames hfree _ _ => by
    by_cases hentry : t.entry? p = none
    · rcases List.eq_nil_or_concat p with rfl | ⟨q, s, rfl⟩
      · simp at hentry
      · rw [List.concat_eq_append] at *
        rw [List.dropLast_concat] at h
        have hwalk := walk?_name h.rooted hdown hfree hnames (h.there rfl)
        have hstill : u.entry? (q ++ [s]) = none := by
          rw [h.grew.entry?_eq (Or.inl not_concat_prefix), hentry]
        rw [putFile_of_walk? hwalk hstill] at hput
        cases hput
    · exact h.eq_of_entry? ht hentry

/-- In a directory that is made, a file is put, and what was there before was no directory. -/
theorem Made.placed
    (h : Made t u p.dropLast (.ok ()))
    (hdown : Path.above ∉ p)
    {content : Bytes}
    (hput : (u.putFile replace p content).2 = .ok ()) :
    Placed t (u.putFile replace p content).1 p replace content (.ok ()) := by
  obtain ⟨htree, hno, hfresh⟩ := putFile_eq_ok hdown hput
  rw [htree]
  rcases List.eq_nil_or_concat p with rfl | ⟨q, s, rfl⟩
  · exact absurd entry?_nil hno
  · rw [List.concat_eq_append] at *
    rw [List.dropLast_concat] at h
    have hsame : u.entry? (q ++ [s]) = t.entry? (q ++ [s]) :=
      h.grew.entry?_eq (Or.inl not_concat_prefix)
    exact {
      rooted := h.rooted.put (h.there rfl) (fun hdirectory => absurd hdirectory hno)
      written := fun _ => by
        rw [entry?_put (by simp), if_pos rfl, ← hsame]
        exact ⟨rfl, hno, hfresh⟩
      frame := fun r hr => by
        rw [entry?_put (by simp), if_neg hr]
        exact h.grew.mono (List.prefix_append q [s]) r
      failed := fun _ he => by cases he
      undone := fun _ _ _ he => by cases he }

/-- Putting a file in place changes the file, and makes directories above it. -/
theorem placeText_placed
    (ht : t.IsRooted)
    (hdown : Path.above ∉ p)
    (replace : Bool)
    (content : Text) :
    Placed t (t.placeText replace p content).1 p replace (encode content)
      (t.placeText replace p content).2 := by
  have hparent : Path.above ∉ p.dropLast := fun hmem => hdown ((List.dropLast_subset p) hmem)
  have hmade : Made t (t.ensureDirectory p.dropLast).1 p.dropLast
      (t.ensureDirectory p.dropLast).2 := by
    have h := ensureReversed_made ht p.dropLast.reverse (by rwa [List.mem_reverse])
    rwa [List.reverse_reverse] at h
  unfold placeText
  cases hensure : t.ensureDirectory p.dropLast with
  | mk u done =>
      rw [hensure] at hmade
      cases done with
      | error e =>
          exact hmade.placed_of_failed
      | ok _ =>
          dsimp only
          cases hput : (u.putFile replace p (encode content)).2 with
          | error e =>
              rw [putFile_eq_error hput]
              exact hmade.placed_of_error ht hdown hput
          | ok _ =>
              exact hmade.placed hdown hput

end Files

end FileTree
end SchemaSpec
