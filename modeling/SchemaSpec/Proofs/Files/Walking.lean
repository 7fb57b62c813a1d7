import SchemaSpec.Proofs.Files.Placing
import SchemaSpec.Proofs.Keyed
import SchemaSpec.Proofs.Text.Lines
import SchemaSpec.Files.Search

/-!
# Walks through trees

What a walk meets, although it leaves directories out and does not go all the way down.

* `IsListed`: a tree that lists each place once, with names that can be parts of a path.
* `mem_namesIn_iff`: what a directory lists.
* `exists_of_mem_walk`: whatever a walk meets is a file of the tree.
* `mem_walk_iff`: a walk meets the files that lie no deeper than it goes, in no ignored directory,
  and in a directory whose path is not too long.
-/

namespace SchemaSpec

open Text

namespace Path

/-- What is below a directory has the path of the directory in front. -/
theorem below?_eq_some_iff
    {directory p rest : Path} :
    below? directory p = some rest ↔ p = directory ++ rest := by
  induction directory generalizing p with
  | nil =>
      rw [below?, Option.some.injEq, List.nil_append]
  | cons d ds ih =>
      cases p with
      | nil =>
          simp [below?]
      | cons s p =>
          rw [below?, List.cons_append, List.cons_eq_cons]
          split
          · rename_i h
            rw [ih, and_iff_right h.symm]
          · rename_i h
            exact iff_of_false (by simp) (fun hs => h hs.1.symm)

/-- A path that is written out is the beginning of every path below it. -/
theorem toText_prefix
    (p q : Path) :
    toText p <+: toText (p ++ q) := by
  unfold toText
  refine List.cons_prefix_cons.2 ⟨rfl, ?_⟩
  by_cases hp : p = []
  · rw [hp, join_nil]
    exact List.nil_prefix
  · by_cases hq : q = []
    · simp [hq]
    · rw [join_append hp hq, List.append_assoc]
      exact List.prefix_append _ _

end Path

namespace SystemFault

/-- If nothing is wrong with a path, nothing is wrong with those above it. -/
theorem ofSegments?_of_append
    {p q : List Text}
    (h : ofSegments? (p ++ q) = none) :
    ofSegments? p = none := by
  have hlength : (encode (Path.toText p)).length ≤ (encode (Path.toText (p ++ q))).length := by
    obtain ⟨r, hr⟩ := Path.toText_prefix p q
    rw [← hr, encode, encode, List.flatMap_append, List.length_append]
    exact Nat.le_add_right _ _
  unfold ofSegments? at h ⊢
  split at h
  · cases h
  · rename_i hnull
    rw [List.any_append, Bool.or_eq_true, not_or] at hnull
    split at h
    · cases h
    · rw [if_neg hnull.1, if_neg (by omega)]

end SystemFault

/-- A name that can be a part of a path. -/
def IsPart (segment : Text) : Prop :=
  segment ≠ [] ∧ '/' ∉ segment ∧ '\x00' ∉ segment

instance : DecidablePred IsPart := fun segment =>
  inferInstanceAs (Decidable (segment ≠ [] ∧ '/' ∉ segment ∧ '\x00' ∉ segment))

namespace FileTree

/-- A tree that lists each place once, never the root, with names that can be parts of a path, and
in a directory that it lists too. -/
structure IsListed (t : FileTree) : Prop where
  rooted : t.IsRooted
  once : (t.entries.map Prod.fst).Nodup
  below : ∀ x ∈ t.entries, x.1 ≠ []
  named : ∀ x ∈ t.entries, ∀ s ∈ x.1, IsPart s

section Listing

variable {t : FileTree} {p place : Path} {e : Entry} {name : Text}

/-- A tree is listed if each entry is in a directory, has a place of its own, and names that can be
parts of a path. -/
theorem isListed_of_entries
    (honce : (t.entries.map Prod.fst).Nodup)
    (h : ∀ x ∈ t.entries, t.entry? x.1.dropLast = some .directory ∧ x.1 ≠ []
      ∧ ∀ s ∈ x.1, IsPart s) :
    t.IsListed :=
  ⟨isRooted_of_entries (fun x hx => (h x hx).1), honce, fun x hx => (h x hx).2.1,
    fun x hx => (h x hx).2.2⟩

theorem entry?_ne_none_of_mem
    (h : (p, e) ∈ t.entries) :
    t.entry? p ≠ none := by
  unfold entry?
  split
  · simp
  · exact lookup_ne_none_iff.2 ⟨(p, e), h, rfl⟩

/-- What is at a place of a listed tree is what the tree lists. -/
theorem IsListed.entry?_eq_some_iff
    (ht : t.IsListed)
    (hp : p ≠ []) :
    t.entry? p = some e ↔ (p, e) ∈ t.entries := by
  unfold entry?
  rw [if_neg hp, lookup_eq_some_iff_mem ht.once]

theorem nameIn?_eq_some_iff
    {directories : Bool}
    {x : Path × Entry} :
    nameIn? directories place x = some name
      ↔ x.1 = place ++ [name] ∧ x.2.isDirectory = directories := by
  rw [← Path.below?_eq_some_iff, nameIn?]
  split
  · rename_i s hbelow
    rw [Option.ite_none_right_eq_some, Option.some.injEq, hbelow, and_comm]
    simp
  · rename_i hno
    exact iff_of_false (by simp) (fun h => hno name h.1)

/-- A directory lists the names of the places right below it. -/
theorem mem_namesIn_iff
    {directories : Bool} :
    name ∈ t.namesIn directories place
      ↔ ∃ e, (place ++ [name], e) ∈ t.entries ∧ e.isDirectory = directories := by
  unfold namesIn
  simp only [List.mem_filterMap, nameIn?_eq_some_iff]
  constructor
  · rintro ⟨⟨q, e⟩, hmem, rfl, hkind⟩
    exact ⟨e, hmem, hkind⟩
  · rintro ⟨e, hmem, hkind⟩
    exact ⟨_, hmem, rfl, hkind⟩

theorem IsListed.mem_namesIn_file
    (ht : t.IsListed) :
    name ∈ t.namesIn false place ↔ t.HasFile (place ++ [name]) := by
  rw [mem_namesIn_iff]
  constructor
  · rintro ⟨e, hmem, hkind⟩
    cases e with
    | directory =>
        cases hkind
    | file content =>
        exact ⟨content, (ht.entry?_eq_some_iff (by simp)).2 hmem⟩
  · rintro ⟨content, hentry⟩
    exact ⟨_, (ht.entry?_eq_some_iff (by simp)).1 hentry, rfl⟩

theorem IsListed.mem_namesIn_directory
    (ht : t.IsListed) :
    name ∈ t.namesIn true place ↔ t.entry? (place ++ [name]) = some .directory := by
  rw [mem_namesIn_iff, ht.entry?_eq_some_iff (by simp)]
  constructor
  · rintro ⟨e, hmem, hkind⟩
    cases e with
    | directory =>
        exact hmem
    | file content =>
        cases hkind
  · exact fun hmem => ⟨_, hmem, rfl⟩

theorem length_le_height
    (h : (p, e) ∈ t.entries) :
    p.length ≤ t.height := by
  unfold height
  generalize t.entries = entries at h ⊢
  induction entries with
  | nil =>
      cases h
  | cons x entries ih =>
      rw [List.foldr_cons]
      rcases List.mem_cons.1 h with rfl | h
      · exact Nat.le_max_left _ _
      · exact Nat.le_trans (ih h) (Nat.le_max_right _ _)

/-- No file lies deeper than the tree is high. -/
theorem IsListed.length_le_height
    (ht : t.IsListed)
    (h : t.HasFile p) :
    p.length ≤ t.height := by
  obtain ⟨content, hentry⟩ := h
  have hp : p ≠ [] := by
    rintro rfl
    cases hentry
  exact FileTree.length_le_height ((ht.entry?_eq_some_iff hp).1 hentry)

end Listing

section Walks

variable {t : FileTree} {ignored start : List Text} {levels : Nat} {below names : Path}

/-- Whatever a walk meets is a file of the tree. -/
theorem exists_of_mem_walk
    (h : names ∈ t.walk ignored start levels below) :
    ∃ e, (Path.normalize start ++ names, e) ∈ t.entries := by
  induction levels generalizing below with
  | zero =>
      cases h
  | succ levels ih =>
      rw [walk] at h
      split at h
      · cases h
      · rcases List.mem_append.1 h with h | h
        · obtain ⟨name, hname, rfl⟩ := List.mem_map.1 h
          obtain ⟨e, hmem, -⟩ := mem_namesIn_iff.1 hname
          exact ⟨e, by rwa [List.append_assoc] at hmem⟩
        · obtain ⟨name, -, h⟩ := List.mem_flatMap.1 h
          exact ih h

/-- A walk meets a file behind the directory where it begins if the file lies no deeper than the
walk goes, in no ignored directory, and in a directory whose path is not too long. -/
theorem mem_walk_iff
    (ht : t.IsListed) :
    names ∈ t.walk ignored start levels below
      ↔ ∃ rest, names = below ++ rest ∧ rest ≠ [] ∧ rest.length ≤ levels
        ∧ (∀ s ∈ rest.dropLast, s ∉ ignored)
        ∧ t.HasFile (Path.normalize start ++ names)
        ∧ SystemFault.ofSegments? (start ++ names.dropLast) = none := by
  induction levels generalizing below with
  | zero =>
      refine iff_of_false List.not_mem_nil ?_
      rintro ⟨rest, -, hne, hlength, -⟩
      exact hne (List.eq_nil_of_length_eq_zero (Nat.le_zero.1 hlength))
  | succ levels ih =>
      rw [walk]
      cases hlisted : SystemFault.ofSegments? (start ++ below) with
      | some fault =>
          refine iff_of_false (by simp) ?_
          rintro ⟨rest, rfl, hne, -, -, -, hfree⟩
          rw [List.dropLast_append_of_ne_nil hne, ← List.append_assoc] at hfree
          rw [SystemFault.ofSegments?_of_append hfree] at hlisted
          cases hlisted
      | none =>
          rw [if_neg (by simp)]
          dsimp only
          rw [List.mem_append, List.mem_map, List.mem_flatMap]
          constructor
          · rintro (⟨name, hname, rfl⟩ | ⟨name, hname, h⟩)
            · rw [ht.mem_namesIn_file, List.append_assoc] at hname
              refine ⟨[name], rfl, by simp, by simp, by simp, hname, ?_⟩
              rwa [List.dropLast_concat]
            · obtain ⟨rest, rfl, hne, hlength, hentered, hfile, hfree⟩ := ih.1 h
              refine ⟨name :: rest, by simp, by simp, by simpa using hlength, ?_, hfile, hfree⟩
              rw [List.dropLast_cons_of_ne_nil hne, List.forall_mem_cons]
              exact ⟨by simpa using (List.mem_filter.1 hname).2, hentered⟩
          · rintro ⟨rest, rfl, hne, hlength, hentered, hfile, hfree⟩
            obtain ⟨name, rest, rfl⟩ := List.exists_cons_of_ne_nil hne
            by_cases hrest : rest = []
            · subst hrest
              refine Or.inl ⟨name, ?_, rfl⟩
              rwa [ht.mem_namesIn_file, List.append_assoc]
            · rw [List.dropLast_cons_of_ne_nil hrest, List.forall_mem_cons] at hentered
              refine Or.inr ⟨name, List.mem_filter.2 ⟨?_, by simpa using hentered.1⟩, ?_⟩
              · rw [ht.mem_namesIn_directory]
                obtain ⟨content, hentry⟩ := hfile
                refine ht.rooted.above hrest ?_
                simp [hentry]
              · exact ih.2 ⟨rest, by simp, hrest, by simpa using hlength, hentered.2, hfile, hfree⟩

theorem IsListed.nodup_namesIn
    (ht : t.IsListed)
    (directories : Bool)
    (place : Path) :
    (t.namesIn directories place).Nodup := by
  have honce : t.entries.Pairwise (fun x y => x.1 ≠ y.1) := List.pairwise_map.1 ht.once
  refine List.pairwise_filterMap.2 (honce.imp (fun {x y} hne => ?_))
  intro m hm n hn hmn
  exact hne (by rw [(nameIn?_eq_some_iff.1 hm).1, (nameIn?_eq_some_iff.1 hn).1, hmn])

/-- A walk meets each file once. -/
theorem nodup_walk
    (ht : t.IsListed)
    (levels : Nat)
    (below : Path) :
    (t.walk ignored start levels below).Nodup := by
  induction levels generalizing below with
  | zero =>
      exact List.nodup_nil
  | succ levels ih =>
      rw [walk]
      split
      · exact List.nodup_nil
      · dsimp only
        rw [List.nodup_append, List.nodup_flatMap]
        refine ⟨?_, ⟨fun name _ => ih _, ?_⟩, ?_⟩
        · refine (ht.nodup_namesIn false _).map (fun m n h => ?_)
          simpa using h
        · refine ((ht.nodup_namesIn true _).filter _).imp (fun {m n} hne => ?_)
          intro names hm hn
          obtain ⟨front, hfront, -⟩ := (mem_walk_iff ht).1 hm
          obtain ⟨behind, hbehind, -⟩ := (mem_walk_iff ht).1 hn
          rw [hfront, List.append_assoc, List.append_assoc] at hbehind
          exact hne (List.cons_eq_cons.1 (List.append_cancel_left hbehind)).1
        · rintro names hfile _ hdeeper rfl
          obtain ⟨name, -, rfl⟩ := List.mem_map.1 hfile
          obtain ⟨directory, -, hdeeper⟩ := List.mem_flatMap.1 hdeeper
          obtain ⟨rest, hrest, hne, -⟩ := (mem_walk_iff ht).1 hdeeper
          rw [List.append_assoc] at hrest
          exact hne (List.cons_eq_cons.1 (List.append_cancel_left hrest)).2.symm

end Walks
end FileTree
end SchemaSpec
