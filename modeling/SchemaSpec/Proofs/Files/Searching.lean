import Mathlib.Data.Char
import Mathlib.Data.List.Lex
import SchemaSpec.Proofs.Files.Lookup
import SchemaSpec.Proofs.Files.Patterns

/-!
# What a search finds

A search walks through as few directories as it can, and finds all files that its patterns ask for.

* `Path.pairwise_mergeSort`: sorted files are in ascending order, segment by segment.
* `IsWanted`: the files that a pattern asks for, segment by segment.
* `search_written`, `search_of_refuses`: what a search for one pattern finds, and when it fails.
* `fresh_eq`: of several files that are the same, the first stays.
* `searchAll_written`: what a search for several patterns finds, and when it fails.
-/

namespace SchemaSpec

open Text

/-! ## Order -/

theorem Text.le_iff
    {t u : Text} :
    Text.le t u = true ↔ t = u ∨ t < u := by
  induction t generalizing u with
  | nil =>
      cases u <;> simp [Text.le]
  | cons c t ih =>
      cases u with
      | nil =>
          simp [Text.le]
      | cons d u =>
          rw [Text.le, List.cons_lt_cons_iff, List.cons_eq_cons]
          by_cases hc : c = d
          · rw [if_pos hc, ih]
            simp [hc]
          · have hne : c.toNat ≠ d.toNat := fun h => hc (Char.ext (UInt32.toNat_inj.1 h))
            have hlt : c.toNat ≤ d.toNat ↔ c < d := by
              rw [Char.lt_def, UInt32.lt_iff_toNat_lt]
              exact ⟨fun h => Nat.lt_of_le_of_ne h hne, Nat.le_of_lt⟩
            rw [if_neg hc, decide_eq_true_iff, hlt]
            simp [hc]

theorem Path.le_iff
    {p q : Path} :
    Path.le p q = true ↔ p = q ∨ p < q := by
  induction p generalizing q with
  | nil =>
      cases q <;> simp [Path.le]
  | cons s p ih =>
      cases q with
      | nil =>
          simp [Path.le]
      | cons u q =>
          rw [Path.le, List.cons_lt_cons_iff, List.cons_eq_cons]
          by_cases hs : s = u
          · rw [if_pos hs, ih]
            simp [hs]
          · rw [if_neg hs, Text.le_iff]
            simp [hs]

/-- Sorted files that are all different are in ascending order. -/
theorem Path.pairwise_mergeSort
    {ps : List Path}
    (h : ps.Nodup) :
    (ps.mergeSort Path.le).Pairwise (· < ·) := by
  have htrans : ∀ p q r : Path, Path.le p q = true → Path.le q r = true → Path.le p r = true := by
    intro p q r hpq hqr
    rw [Path.le_iff] at hpq hqr ⊢
    rcases hpq with rfl | hpq
    · exact hqr
    · rcases hqr with rfl | hqr
      · exact Or.inr hpq
      · exact Or.inr (lt_trans hpq hqr)
  have htotal : ∀ p q : Path, (Path.le p q || Path.le q p) = true := by
    intro p q
    rw [Bool.or_eq_true, Path.le_iff, Path.le_iff]
    rcases lt_trichotomy p q with h | h | h
    · exact Or.inl (Or.inr h)
    · exact Or.inl (Or.inl h)
    · exact Or.inr (Or.inr h)
  have hsorted := List.pairwise_mergeSort htrans htotal ps
  have hdifferent : (ps.mergeSort Path.le).Nodup := List.nodup_mergeSort.2 h
  refine (hsorted.and hdifferent).imp (fun {p q} hpq => ?_)
  exact (Path.le_iff.1 hpq.1).resolve_left hpq.2

/-! ## One pattern -/

namespace FileTree

/-- A pattern asks for a file: the names of its path behind the directory that the pattern climbs to
fit the segments of the pattern, and none of its directories behind the leading segments is
ignored.  The files in a directory whose path is too long cannot be listed. -/
def IsWanted (t : FileTree) (base : Path) (ignored : List Text) (w : WrittenPattern) (p : Path) :
    Prop :=
  t.HasFile p ∧ (encode (Path.toText p.dropLast)).length ≤ SystemFault.pathLimit
    ∧ ∃ names, names ≠ [] ∧ p = w.top base ++ names ∧ Wild.Fits w.segments names
      ∧ ∀ s ∈ (names.drop w.leading.length).dropLast, s ∉ ignored

/-- The system refuses to look up the directory that the leading segments of a pattern lead to. -/
def Refuses (t : FileTree) (base : Path) (w : WrittenPattern) : Prop :=
  w.segments ≠ [] ∧ t.IsRefused (w.top base ++ w.leading)

section Searching

variable {t : FileTree} {base : Path} {ignored : List Text} {w : WrittenPattern}

theorem above_notMem_start
    (hbase : Path.above ∉ base) :
    Path.above ∉ w.top base ++ w.leading := by
  rw [List.mem_append, not_or]
  refine ⟨fun h => hbase (List.mem_of_mem_take h), fun h => w.down ?_⟩
  have hsegments : Path.above ∈ w.leading ++ w.matching := List.mem_append_left _ h
  rwa [w.leading_append_matching] at hsegments

/-- In a listed tree, only the length of the path of a file's directory can be wrong. -/
theorem IsListed.ofSegments?_dropLast_eq_none_iff
    (ht : t.IsListed)
    {p : Path}
    (h : t.HasFile p) :
    SystemFault.ofSegments? p.dropLast = none
      ↔ (encode (Path.toText p.dropLast)).length ≤ SystemFault.pathLimit := by
  obtain ⟨content, hentry⟩ := h
  have hp : p ≠ [] := by
    rintro rfl
    cases hentry
  have hmem := (ht.entry?_eq_some_iff hp).1 hentry
  have hnull : p.dropLast.any (fun s => s.contains '\x00') = false := by
    rw [List.any_eq_false]
    intro s hs
    simpa using (ht.named _ hmem s (List.dropLast_subset _ hs)).2.2
  unfold SystemFault.ofSegments?
  rw [hnull]
  simp

/-- No file that fits lies deeper than a walk for the pattern goes. -/
theorem length_le_levelsFor
    (ht : t.IsListed)
    {start names : List Text}
    (hfile : t.HasFile (start ++ names))
    (hfits : Wild.Fits w.matching names) :
    names.length ≤ t.levelsFor ⟨w.up, w.leading, w.matching⟩ := by
  unfold levelsFor
  split
  · have hheight := ht.length_le_height hfile
    rw [List.length_append] at hheight
    omega
  · rename_i hany
    refine Nat.le_of_eq (hfits.length_eq (fun hmem => hany ?_))
    exact List.contains_iff_mem.2 hmem

/-- What a pattern asks for lies behind its leading segments, and fits the others. -/
theorem isWanted_iff
    (hw : w.segments ≠ [])
    {p : Path} :
    t.IsWanted base ignored w p
      ↔ t.HasFile p ∧ (encode (Path.toText p.dropLast)).length ≤ SystemFault.pathLimit
        ∧ ∃ rest, rest ≠ [] ∧ p = w.top base ++ w.leading ++ rest ∧ Wild.Fits w.matching rest
          ∧ ∀ s ∈ rest.dropLast, s ∉ ignored := by
  have hmatching : w.matching ≠ [] := mt w.matching_eq_nil_iff.1 hw
  refine and_congr_right (fun _ => and_congr_right (fun _ => ?_))
  rw [← w.leading_append_matching]
  constructor
  · rintro ⟨names, -, hp, hfits, hentered⟩
    obtain ⟨rest, rfl, hmatch⟩ := (Wild.fits_append_iff w.leading_isPlain).1 hfits
    rw [List.drop_left] at hentered
    exact ⟨rest, hmatch.names_ne_nil hmatching, by rw [hp, List.append_assoc], hmatch, hentered⟩
  · rintro ⟨rest, hne, hp, hmatch, hentered⟩
    refine ⟨w.leading ++ rest, by simp [hne], by rw [hp, List.append_assoc],
      (Wild.fits_append_iff w.leading_isPlain).2 ⟨rest, rfl, hmatch⟩, ?_⟩
    rw [List.drop_left]
    exact hentered

/-- A search behind a directory that is there finds what its pattern asks for. -/
theorem mem_matching_iff
    (ht : t.IsListed)
    (hbase : Path.above ∉ base)
    (hw : w.segments ≠ [])
    {p : Path} :
    p ∈ t.matching (w.top base ++ w.leading) ignored ⟨w.up, w.leading, w.matching⟩
      ↔ t.IsWanted base ignored w p := by
  have hstart := Path.normalize_eq_self (above_notMem_start (w := w) hbase)
  have hslash : ∀ s ∈ w.matching, '/' ∉ s := fun s hs => w.slash_notMem s (List.mem_of_mem_drop hs)
  have hnamed : ∀ names, t.HasFile (w.top base ++ w.leading ++ names) →
      ∀ n ∈ names, Wild.IsName n := by
    rintro names ⟨content, hentry⟩ n hn
    have hmem := (ht.entry?_eq_some_iff (List.ne_nil_of_mem (List.mem_append_right _ hn))).1 hentry
    have hpart := ht.named _ hmem n (List.mem_append_right _ hn)
    exact ⟨hpart.1, hpart.2.1⟩
  unfold matching
  rw [hstart, List.mem_map, isWanted_iff hw]
  constructor
  · rintro ⟨rest, hrest, rfl⟩
    obtain ⟨hwalk, hfits⟩ := List.mem_filter.1 (List.mem_mergeSort.1 hrest)
    obtain ⟨_, rfl, hne, -, hentered, hfile, hlisted⟩ := (mem_walk_iff ht).1 hwalk
    rw [hstart] at hfile
    rw [← List.dropLast_append_of_ne_nil hne, ht.ofSegments?_dropLast_eq_none_iff hfile] at hlisted
    exact ⟨hfile, hlisted, rest, hne, rfl,
      (Wild.fits_ofSegments_iff hslash (hnamed rest hfile) hne).1 hfits, hentered⟩
  · rintro ⟨hfile, hlisted, rest, hne, rfl, hmatch, hentered⟩
    rw [← ht.ofSegments?_dropLast_eq_none_iff hfile, List.dropLast_append_of_ne_nil hne] at hlisted
    refine ⟨rest, List.mem_mergeSort.2 (List.mem_filter.2 ⟨?_, ?_⟩), rfl⟩
    · refine (mem_walk_iff ht).2 ⟨rest, rfl, hne, length_le_levelsFor ht hfile hmatch, hentered, ?_,
        hlisted⟩
      rwa [hstart]
    · exact (Wild.fits_ofSegments_iff hslash (hnamed rest hfile) hne).2 hmatch

/-- The files of a search come in ascending order. -/
theorem pairwise_matching
    (ht : t.IsListed)
    (start : List Text)
    (pattern : Pattern) :
    (t.matching start ignored pattern).Pairwise (· < ·) := by
  have hnodup : (t.walk ignored start (t.levelsFor pattern) []).Nodup := nodup_walk ht _ _
  have hsorted := Path.pairwise_mergeSort (hnodup.filter pattern.fits)
  refine List.pairwise_map.2 (hsorted.imp (fun {p q} hpq => ?_))
  exact List.append_left_lt hpq

/-- A search for one pattern finds the files that the pattern asks for, in ascending order. -/
theorem search_written
    (ht : t.IsListed)
    (hbase : Path.above ∉ base)
    (hlookup : ¬ t.Refuses base w)
    (ignored : List Text) :
    ∃ files, t.search base ignored w.toText = .ok files ∧ files.Pairwise (· < ·)
      ∧ ∀ p, p ∈ files ↔ t.IsWanted base ignored w p := by
  unfold search
  rw [w.ofText_toText]
  dsimp only [Pattern.start]
  by_cases hw : w.segments = []
  · rw [w.matching_eq_nil_iff.2 hw]
    refine ⟨[], rfl, List.Pairwise.nil, fun p => iff_of_false List.not_mem_nil ?_⟩
    rintro ⟨-, -, names, hne, -, hfits, -⟩
    rw [hw, Wild.fits_nil_iff] at hfits
    exact hne hfits
  have hmatching : w.matching.isEmpty = false := by
    simpa using mt w.matching_eq_nil_iff.1 hw
  have hdirectory := isDirectory?_of_not_isRefused ht (above_notMem_start (w := w) hbase)
    (fun h => hlookup ⟨hw, h⟩)
  rw [hmatching]
  change ∃ files, (t.isDirectory? (w.top base ++ w.leading) >>= _) = _ ∧ _
  rw [hdirectory]
  by_cases hthere : t.entry? (w.top base ++ w.leading) = some .directory
  · refine ⟨t.matching (w.top base ++ w.leading) ignored ⟨w.up, w.leading, w.matching⟩, ?_,
      pairwise_matching ht _ _, fun p => mem_matching_iff ht hbase hw⟩
    rw [decide_eq_true hthere]
    rfl
  · -- Whatever the pattern asks for lies behind its leading segments.
    refine ⟨[], by rw [decide_eq_false hthere]; rfl, List.Pairwise.nil, fun p =>
      iff_of_false List.not_mem_nil ?_⟩
    rw [isWanted_iff hw]
    rintro ⟨⟨content, hentry⟩, -, rest, hne, rfl, -⟩
    have hsome : t.entry? (w.top base ++ w.leading ++ rest) ≠ none := by
      rw [hentry]
      exact Option.some_ne_none _
    exact hthere (ht.rooted.above hne hsome)

/-- A search fails if the system refuses to look up where it starts. -/
theorem search_of_refuses
    (ht : t.IsRooted)
    (hbase : Path.above ∉ base)
    (hlookup : t.Refuses base w) :
    t.search base ignored w.toText = .error ⟨.nameTooLong, w.top base ++ w.leading⟩ := by
  have hmatching : w.matching.isEmpty = false := by
    simpa using mt w.matching_eq_nil_iff.1 hlookup.1
  have hdirectory := isDirectory?_of_isRefused ht (above_notMem_start (w := w) hbase) hlookup.2
  unfold search
  rw [w.ofText_toText]
  dsimp only [Pattern.start]
  rw [hmatching]
  change (t.isDirectory? (w.top base ++ w.leading) >>= _) = _
  rw [hdirectory]
  rfl

/-- A directory that can be asked for is not refused. -/
theorem not_refuses_of_isDirectory?
    (ht : t.IsRooted)
    (hbase : Path.above ∉ base)
    {isThere : Bool}
    (h : t.isDirectory? (w.top base ++ w.leading) = .ok isThere) :
    ¬ t.Refuses base w := by
  intro hrefused
  rw [isDirectory?_of_isRefused ht (above_notMem_start hbase) hrefused.2] at h
  cases h

end Searching

/-! ## Several patterns -/

section Several

variable {t : FileTree} {base : Path} {ignored : List Text}

theorem mem_fresh_iff
    {old ps : List Path}
    {p : Path} :
    p ∈ fresh old ps ↔ p ∈ ps ∧ p ∉ old := by
  induction ps generalizing old with
  | nil =>
      simp [fresh]
  | cons q ps ih =>
      rw [fresh]
      split
      · rename_i hq
        rw [List.contains_iff_mem] at hq
        rw [ih, List.mem_cons]
        refine and_congr_left (fun hp => ?_)
        rw [or_iff_right]
        rintro rfl
        exact hp hq
      · rename_i hq
        rw [List.contains_iff_mem] at hq
        rw [List.mem_cons, ih, List.mem_cons, List.mem_cons, not_or]
        by_cases hp : p = q
        · simp [hp, hq]
        · simp [hp]

theorem nodup_fresh
    (old ps : List Path) :
    (fresh old ps).Nodup := by
  induction ps generalizing old with
  | nil =>
      exact List.nodup_nil
  | cons p ps ih =>
      rw [fresh]
      split
      · exact ih old
      · exact List.nodup_cons.2 ⟨fun h => (mem_fresh_iff.1 h).2 List.mem_cons_self, ih _⟩

/-- Of files that are the same, the first stays. -/
theorem fresh_eq
    (old ps : List Path) :
    fresh old ps = (ps.filter (fun p => !old.contains p)).eraseDups := by
  induction ps generalizing old with
  | nil =>
      rfl
  | cons p ps ih =>
      rw [fresh]
      split
      · rename_i hp
        rw [ih, List.filter_cons_of_neg (by simpa using hp)]
      · rename_i hp
        rw [ih, List.filter_cons_of_pos (by simpa using hp), List.eraseDups_cons,
          List.filter_filter]
        simp only [List.contains_cons, Bool.not_or]

theorem fresh_nil_eq
    (ps : List Path) :
    fresh [] ps = ps.eraseDups := by
  rw [fresh_eq, List.filter_eq_self.2 (fun p _ => by simp)]

/-- Files that are all different stay. -/
theorem fresh_of_nodup
    {old ps : List Path}
    (h : ps.Nodup)
    (hold : ∀ p ∈ ps, p ∉ old) :
    fresh old ps = ps := by
  induction ps generalizing old with
  | nil =>
      rfl
  | cons p ps ih =>
      rw [List.nodup_cons] at h
      have hp : ¬ old.contains p = true := by
        simpa using hold p List.mem_cons_self
      rw [fresh, if_neg hp, ih h.2]
      intro q hq hmem
      rcases List.mem_cons.1 hmem with rfl | hmem
      · exact h.1 hq
      · exact hold q (List.mem_cons_of_mem p hq) hmem

/-- The files that a pattern asks for, in ascending order. -/
def IsAnswer (t : FileTree) (base : Path) (ignored : List Text) (w : WrittenPattern)
    (files : List Path) : Prop :=
  files.Pairwise (· < ·) ∧ ∀ p, p ∈ files ↔ t.IsWanted base ignored w p

theorem IsAnswer.nodup
    {w : WrittenPattern}
    {files : List Path}
    (h : t.IsAnswer base ignored w files) :
    files.Nodup :=
  h.1.imp (fun hlt => ne_of_lt hlt)

/-- Each pattern has its answer, if the system refuses none. -/
theorem exists_answers
    (ht : t.IsListed)
    (hbase : Path.above ∉ base)
    {patterns : List WrittenPattern}
    (hlookup : ∀ w ∈ patterns, ¬ t.Refuses base w)
    (ignored : List Text) :
    ∃ found, List.Forall₂ (t.IsAnswer base ignored) patterns found
      ∧ (patterns.map WrittenPattern.toText).mapM (t.search base ignored) = .ok found := by
  induction patterns with
  | nil =>
      exact ⟨[], .nil, rfl⟩
  | cons w patterns ih =>
      obtain ⟨files, hsearch, hanswer⟩ :=
        search_written ht hbase (hlookup w List.mem_cons_self) ignored
      obtain ⟨found, hfound, hall⟩ := ih (fun v hv => hlookup v (List.mem_cons_of_mem w hv))
      refine ⟨files :: found, .cons hanswer hfound, ?_⟩
      rw [List.map_cons, List.mapM_cons, hsearch, hall]
      rfl

/-- What several answers hold together is what one of the patterns asks for. -/
theorem mem_flatten_iff
    {patterns : List WrittenPattern}
    {found : List (List Path)}
    (h : List.Forall₂ (t.IsAnswer base ignored) patterns found)
    {p : Path} :
    p ∈ found.flatten ↔ ∃ w ∈ patterns, t.IsWanted base ignored w p := by
  induction h with
  | nil =>
      simp
  | cons hanswer _ ih =>
      rw [List.flatten_cons, List.mem_append, ih, hanswer.2 p]
      simp only [List.mem_cons, exists_eq_or_imp]

end Several

/-- A search for one pattern finds exactly the files that the pattern asks for, sorted by their
segments; a search for several finds what each of them asks for, in their order, without later
repeats.  A search fails only if the system refuses to look up where one of its patterns starts. -/
theorem searchAll_written
    {t : FileTree}
    (ht : t.IsListed)
    {directory base : Path}
    {root : Text}
    (hroot : Path.locate? directory root = .ok base)
    (ignored : List Text) :
    (∀ w : WrittenPattern, ¬ t.Refuses base w →
      ∃ files, t.searchAll base ignored [w.toText] = .ok files ∧ t.IsAnswer base ignored w files)
      ∧ ∀ patterns : List WrittenPattern,
        ((∀ w ∈ patterns, ¬ t.Refuses base w) →
          ∃ found, List.Forall₂ (t.IsAnswer base ignored) patterns found
            ∧ t.searchAll base ignored (patterns.map WrittenPattern.toText)
              = .ok found.flatten.eraseDups
            ∧ found.flatten.eraseDups.Nodup
            ∧ ∀ p, p ∈ found.flatten.eraseDups ↔ ∃ w ∈ patterns, t.IsWanted base ignored w p)
        ∧ ∀ before w behind, patterns = before ++ w :: behind → (∀ v ∈ before, ¬ t.Refuses base v) →
          t.Refuses base w →
            t.searchAll base ignored (patterns.map WrittenPattern.toText)
              = .error ⟨.nameTooLong, w.top base ++ w.leading⟩ := by
  have hbase := Path.above_notMem_of_locate? hroot
  refine ⟨fun w hw => ?_, fun patterns => ⟨fun hlookup => ?_, ?_⟩⟩
  · obtain ⟨files, hsearch, hanswer⟩ := search_written ht hbase hw ignored
    refine ⟨files, ?_, hanswer⟩
    have hstay : fresh [] files = files :=
      fresh_of_nodup (IsAnswer.nodup hanswer) (fun _ _ => List.not_mem_nil)
    unfold searchAll
    rw [List.mapM_cons, hsearch]
    change Except.ok (fresh [] (files ++ [])) = _
    rw [List.append_nil, hstay]
  · obtain ⟨found, hfound, hall⟩ := exists_answers ht hbase hlookup ignored
    refine ⟨found, hfound, ?_, ?_, fun p => ?_⟩
    · unfold searchAll
      rw [hall, ← fresh_nil_eq]
      rfl
    · rw [← fresh_nil_eq]
      exact nodup_fresh [] _
    · rw [List.mem_eraseDups, mem_flatten_iff hfound]
  · rintro before w behind rfl hbefore hw
    obtain ⟨found, -, hall⟩ := exists_answers ht hbase hbefore ignored
    unfold searchAll
    rw [List.map_append, List.map_cons, List.mapM_append, hall, List.mapM_cons,
      search_of_refuses ht.rooted hbase hw]
    rfl

/-- Of the files of a project, two patterns ask for the same one, which is found once, and an ignored
directory hides another. -/
theorem searchAll_written_project :
    let models : Path := ["srv", "app", "models"].map String.toList
    let user : Path := models ++ ["user.rb".toList]
    let old : Path := models ++ ["tmp".toList, "old.rb".toList]
    let tree : FileTree :=
      { entries :=
          [(models.take 1, .directory), (models.take 2, .directory), (models, .directory),
            (user, .file []), (old.dropLast, .directory), (old, .file [])] }
    let climbing : WrittenPattern := ⟨1, "app/**/*.rb".toList, by decide, by decide⟩
    let plain : WrittenPattern := ⟨0, "models/?ser.rb".toList, by decide, by decide⟩
    tree.IsListed ∧ ∃ files,
      tree.searchAll (models.take 2) usuallyIgnored [climbing.toText, plain.toText] = .ok files
        ∧ files.Nodup ∧ user ∈ files ∧ old ∉ files := by
  intro models user old tree climbing plain
  have htree : tree.IsListed := isListed_of_entries (by decide +kernel) (by decide +kernel)
  have hroot : Path.locate? (models.take 1) "app".toList = .ok (models.take 2) := by
    decide +kernel
  have hthere : ∀ w ∈ [climbing, plain],
      tree.isDirectory? (w.top (models.take 2) ++ w.leading) = .ok true := by
    decide +kernel
  have hlookup : ∀ w ∈ [climbing, plain], ¬ tree.Refuses (models.take 2) w := fun w hw =>
    not_refuses_of_isDirectory? htree.rooted (Path.above_notMem_of_locate? hroot) (hthere w hw)
  obtain ⟨found, -, hrun, hnodup, hwanted⟩ :=
    ((searchAll_written htree hroot usuallyIgnored).2 [climbing, plain]).1 hlookup
  refine ⟨htree, _, hrun, hnodup, (hwanted user).2 ⟨climbing, List.mem_cons_self, ?_⟩, ?_⟩
  · have hfits : Wild.Fits climbing.segments (user.drop 1) := by
      rw [← Wild.fits_ofSegments_iff climbing.slash_notMem (by decide +kernel) (by decide +kernel)]
      decide +kernel
    exact ⟨⟨[], by decide +kernel⟩, by decide +kernel, user.drop 1, by decide +kernel,
      by decide +kernel, hfits, by decide +kernel⟩
  · -- Both patterns would have to enter the ignored directory.
    intro hold
    obtain ⟨w, hw, -, -, names, -, hnames, -, hentered⟩ := (hwanted old).1 hold
    rcases List.mem_pair.1 hw with rfl | rfl
    · have hsplit : models.take 1 ++ old.drop 1 = models.take 1 ++ names := hnames
      rw [← List.append_cancel_left hsplit] at hentered
      exact hentered "tmp".toList (by decide +kernel) (by decide +kernel)
    · have hsplit : models.take 2 ++ old.drop 2 = models.take 2 ++ names := hnames
      rw [← List.append_cancel_left hsplit] at hentered
      exact hentered "tmp".toList (by decide +kernel) (by decide +kernel)

/-- A search can fail although nothing is there to be found, and it can miss a file that fits: a
name of the pattern can be too long to be looked up, and a directory too deep to be listed. -/
theorem searchAll_at_the_limits :
    let long : WrittenPattern :=
      ⟨0, List.replicate 256 'a' ++ "/*.rb".toList, by decide +kernel, by decide +kernel⟩
    let anywhere : WrittenPattern := ⟨0, "**/*.rb".toList, by decide, by decide⟩
    let flat : FileTree := { entries := [(["a.rb".toList], .file [])] }
    let way : Path := List.replicate 16 (List.replicate 255 'd')
    let deep : FileTree :=
      { entries := (List.range 16).map (fun k => (way.take (k + 1), .directory))
          ++ [(way ++ ["a.rb".toList], .file [])] }
    (flat.IsListed ∧ (∀ p, ¬ flat.IsWanted [] usuallyIgnored long p)
        ∧ ∀ files, flat.searchAll [] usuallyIgnored [long.toText] ≠ .ok files)
      ∧ deep.IsListed ∧ deep.HasFile (way ++ ["a.rb".toList])
        ∧ Wild.Fits anywhere.segments (way ++ ["a.rb".toList])
        ∧ (∀ s ∈ way, s ∉ usuallyIgnored)
        ∧ ∃ files, deep.searchAll [] usuallyIgnored [anywhere.toText] = .ok files
          ∧ way ++ ["a.rb".toList] ∉ files := by
  intro long anywhere flat way deep
  have hflat : flat.IsListed := isListed_of_entries (by decide +kernel) (by decide +kernel)
  have hdeep : deep.IsListed := isListed_of_entries (by decide +kernel) (by decide +kernel)
  have hfits : Wild.Fits anywhere.segments (way ++ ["a.rb".toList]) := by
    rw [← Wild.fits_ofSegments_iff anywhere.slash_notMem (by decide +kernel) (by decide +kernel)]
    decide +kernel
  refine ⟨⟨hflat, ?_, fun files => ?_⟩, hdeep, ⟨[], by decide +kernel⟩, hfits,
    by decide +kernel, ?_⟩
  · rintro p ⟨⟨content, hentry⟩, -, names, hne, hp, hfits, -⟩
    obtain rfl : p = names := hp
    have hmem := (hflat.entry?_eq_some_iff hne).1 hentry
    obtain rfl : p = ["a.rb".toList] := (Prod.mk.inj (List.mem_singleton.1 hmem)).1
    rw [← Wild.fits_ofSegments_iff long.slash_notMem (by decide +kernel) hne] at hfits
    revert hfits
    decide +kernel
  · have hrefused : flat.searchAll [] usuallyIgnored [long.toText]
        = .error ⟨.nameTooLong, [List.replicate 256 'a']⟩ := by
      decide +kernel
    rw [hrefused]
    exact fun h => by cases h
  · have hthere : deep.isDirectory? (anywhere.top [] ++ anywhere.leading) = .ok true := by
      decide +kernel
    have hlookup := not_refuses_of_isDirectory? hdeep.rooted List.not_mem_nil hthere
    obtain ⟨files, hsearch, -, hwanted⟩ :=
      search_written hdeep List.not_mem_nil hlookup usuallyIgnored
    refine ⟨fresh [] (files ++ []), ?_, fun hmem => ?_⟩
    · unfold searchAll
      rw [List.mapM_cons, hsearch]
      rfl
    · rw [mem_fresh_iff, List.append_nil, hwanted] at hmem
      have hlong : ¬ (encode (Path.toText (way ++ ["a.rb".toList]).dropLast)).length
          ≤ SystemFault.pathLimit := by
        decide +kernel
      exact hlong hmem.1.2.1

end FileTree
end SchemaSpec
