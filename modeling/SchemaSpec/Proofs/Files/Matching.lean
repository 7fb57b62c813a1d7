import SchemaSpec.Proofs.Text.Cuts
import SchemaSpec.Files.Glob

/-!
# Matching segment by segment

A pattern is matched as one list of wild characters against a path that is written out.  That comes
to the same as matching its segments against the names of the path, one after the other.

* `FitsSegment`, `Fits`: a name fits a segment, names fit the segments of a pattern.
* `fits_ofSegment_append_iff`: a segment uses up a part of the text without slashes.
* `afterDirectories_join_iff`: any number of directories uses up whole names.
* `fits_ofSegments_iff`: the two ways to match agree.
* `fits_append_iff`: segments without wild characters fit themselves only.
-/

namespace SchemaSpec
namespace Wild

open Text

/-- A name fits a segment of a pattern: a question mark stands for one character, an asterisk for
any number of them. -/
inductive FitsSegment : Text → Text → Prop
  | nil :
      FitsSegment [] []
  | char
      {c : Char}
      {s n : Text}
      (hc : isWild c = false)
      (h : FitsSegment s n) :
      FitsSegment (c :: s) (c :: n)
  | one
      {s n : Text}
      (c : Char)
      (h : FitsSegment s n) :
      FitsSegment ('?' :: s) (c :: n)
  | many
      {s n : Text}
      (skipped : Text)
      (h : FitsSegment s n) :
      FitsSegment ('*' :: s) (skipped ++ n)

/-- The segment that stands for any number of directories, or for one or more names if it is the
last one. -/
def anySegments : Text := ['*', '*']

/-- Names fit the segments of a pattern. -/
inductive Fits : List Text → List Text → Prop
  | nil :
      Fits [] []
  | segment
      {s n : Text}
      {segments names : List Text}
      (hs : s ≠ anySegments)
      (hn : FitsSegment s n)
      (h : Fits segments names) :
      Fits (s :: segments) (n :: names)
  | directories
      {segments names : List Text}
      (skipped : List Text)
      (hne : segments ≠ [])
      (h : Fits segments names) :
      Fits (anySegments :: segments) (skipped ++ names)
  | last
      {names : List Text}
      (hne : names ≠ []) :
      Fits [anySegments] names

/-! ## One segment -/

section Segment

variable {c : Char} {s t : Text} {p : List Wild}

theorem fitsSegment_many_iff :
    FitsSegment ('*' :: s) t ↔ ∃ skipped n, t = skipped ++ n ∧ FitsSegment s n := by
  constructor
  · intro h
    cases h with
    | char hc _ =>
        cases hc
    | many skipped h =>
        exact ⟨skipped, _, rfl, h⟩
  · rintro ⟨skipped, n, rfl, h⟩
    exact h.many skipped

theorem fitsSegment_one_iff :
    FitsSegment ('?' :: s) t ↔ ∃ d n, t = d :: n ∧ FitsSegment s n := by
  constructor
  · intro h
    cases h with
    | char hc _ =>
        cases hc
    | one d h =>
        exact ⟨d, _, rfl, h⟩
  · rintro ⟨d, n, rfl, h⟩
    exact h.one d

theorem fitsSegment_char_iff
    (hc : isWild c = false) :
    FitsSegment (c :: s) t ↔ ∃ n, t = c :: n ∧ FitsSegment s n := by
  constructor
  · intro h
    cases h with
    | char _ h =>
        exact ⟨_, rfl, h⟩
    | one _ _ =>
        cases hc
    | many _ _ =>
        cases hc
  · rintro ⟨n, rfl, h⟩
    exact h.char hc

theorem afterMany_iff
    {test : Text → Bool} :
    afterMany test t = true ↔ ∃ n rest, t = n ++ rest ∧ '/' ∉ n ∧ test rest = true := by
  induction t with
  | nil =>
      rw [afterMany]
      constructor
      · exact fun h => ⟨[], [], rfl, List.not_mem_nil, h⟩
      · rintro ⟨n, rest, hempty, -, h⟩
        rwa [(List.append_eq_nil_iff.1 hempty.symm).2] at h
  | cons c t ih =>
      rw [afterMany, Bool.or_eq_true, Bool.and_eq_true, bne_iff_ne, ih]
      constructor
      · rintro (h | ⟨hc, n, rest, rfl, hn, h⟩)
        · exact ⟨[], c :: t, rfl, List.not_mem_nil, h⟩
        · exact ⟨c :: n, rest, rfl, by simp [Ne.symm hc, hn], h⟩
      · rintro ⟨n, rest, hwhole, hn, h⟩
        cases n with
        | nil =>
            rw [hwhole]
            exact Or.inl h
        | cons d n =>
            rw [List.cons_append, List.cons_eq_cons] at hwhole
            obtain ⟨rfl, rfl⟩ := hwhole
            rw [List.mem_cons, not_or] at hn
            exact Or.inr ⟨Ne.symm hn.1, n, rest, rfl, hn.2, h⟩

theorem fits_one_iff :
    fits (.one :: p) t = true ↔ ∃ d rest, t = d :: rest ∧ d ≠ '/' ∧ fits p rest = true := by
  cases t with
  | nil =>
      simp [fits]
  | cons d rest =>
      simp [fits]

theorem fits_char_iff :
    fits (.char c :: p) t = true ↔ ∃ rest, t = c :: rest ∧ fits p rest = true := by
  cases t with
  | nil =>
      simp [fits]
  | cons d rest =>
      simp [fits]

/-- A segment uses up a part of the text without slashes, and the rest of the pattern fits the rest
of the text. -/
theorem fits_ofSegment_append_iff
    (hs : '/' ∉ s) :
    fits (ofSegment s ++ p) t = true
      ↔ ∃ n rest, t = n ++ rest ∧ '/' ∉ n ∧ FitsSegment s n ∧ fits p rest = true := by
  induction s generalizing t with
  | nil =>
      constructor
      · exact fun h => ⟨[], t, rfl, List.not_mem_nil, .nil, h⟩
      · rintro ⟨n, rest, rfl, -, hn, h⟩
        cases hn
        exact h
  | cons c s ih =>
      rw [List.mem_cons, not_or] at hs
      have hrest := fun u => ih (t := u) hs.2
      by_cases hmany : c = '*'
      · subst hmany
        change afterMany (fits (ofSegment s ++ p)) t = true ↔ _
        simp only [afterMany_iff, hrest, fitsSegment_many_iff]
        constructor
        · rintro ⟨skipped, _, rfl, hskipped, n, rest, rfl, hn, hfits, h⟩
          refine ⟨skipped ++ n, rest, by simp, ?_, ⟨skipped, n, rfl, hfits⟩, h⟩
          simp [hskipped, hn]
        · rintro ⟨_, rest, rfl, hn, ⟨skipped, n, rfl, hfits⟩, h⟩
          rw [List.mem_append, not_or] at hn
          exact ⟨skipped, _, List.append_assoc _ _ _, hn.1, n, rest, rfl, hn.2, hfits, h⟩
      by_cases hone : c = '?'
      · subst hone
        change fits (.one :: (ofSegment s ++ p)) t = true ↔ _
        simp only [fits_one_iff, hrest, fitsSegment_one_iff]
        constructor
        · rintro ⟨d, _, rfl, hd, n, rest, rfl, hn, hfits, h⟩
          exact ⟨d :: n, rest, rfl, by simp [Ne.symm hd, hn], ⟨d, n, rfl, hfits⟩, h⟩
        · rintro ⟨_, rest, rfl, hn, ⟨d, n, rfl, hfits⟩, h⟩
          rw [List.mem_cons, not_or] at hn
          exact ⟨d, n ++ rest, rfl, Ne.symm hn.1, n, rest, rfl, hn.2, hfits, h⟩
      · have hfirst : ofSegment (c :: s) = .char c :: ofSegment s := by
          simp [ofSegment, hmany, hone]
        have hplain : isWild c = false := by simp [isWild, hmany, hone]
        rw [hfirst, List.cons_append]
        simp only [fits_char_iff, hrest, fitsSegment_char_iff hplain]
        constructor
        · rintro ⟨_, rfl, n, rest, rfl, hn, hfits, h⟩
          exact ⟨c :: n, rest, rfl, by simp [hs.1, hn], ⟨n, rfl, hfits⟩, h⟩
        · rintro ⟨_, rest, rfl, hn, ⟨n, rfl, hfits⟩, h⟩
          rw [List.mem_cons, not_or] at hn
          exact ⟨n ++ rest, rfl, n, rest, rfl, hn.2, hfits, h⟩

/-- A last segment fits a whole name. -/
theorem fits_ofSegment_iff
    (hs : '/' ∉ s) :
    fits (ofSegment s) t = true ↔ '/' ∉ t ∧ FitsSegment s t := by
  have hsplit := fits_ofSegment_append_iff (p := []) (t := t) hs
  rw [List.append_nil] at hsplit
  rw [hsplit]
  constructor
  · rintro ⟨n, rest, rfl, hn, hfits, h⟩
    rw [fits, List.isEmpty_iff] at h
    subst h
    rw [List.append_nil]
    exact ⟨hn, hfits⟩
  · rintro ⟨hn, hfits⟩
    exact ⟨t, [], by simp, hn, hfits, rfl⟩

end Segment

/-! ## Whole names -/

/-- A name of a path. -/
def IsName (n : Text) : Prop :=
  n ≠ [] ∧ '/' ∉ n

instance : DecidablePred IsName := fun n =>
  inferInstanceAs (Decidable (n ≠ [] ∧ '/' ∉ n))

section Names

variable {n : Text} {names : List Text} {test : Text → Bool}

/-- Text without slashes that has been started is no whole directory. -/
theorem afterDirectories_of_name
    (hn : '/' ∉ n) :
    afterDirectories test true n = false := by
  induction n with
  | nil =>
      rfl
  | cons c n ih =>
      rw [List.mem_cons, not_or] at hn
      rw [afterDirectories, if_neg (Ne.symm hn.1), ih hn.2]
      rfl

/-- A name that has been started is a directory up to its slash. -/
theorem afterDirectories_append
    (hn : '/' ∉ n)
    (t : Text) :
    afterDirectories test true (n ++ '/' :: t) = afterDirectories test false t := by
  induction n with
  | nil =>
      simp [afterDirectories]
  | cons c n ih =>
      rw [List.mem_cons, not_or] at hn
      rw [List.cons_append, afterDirectories, if_neg (Ne.symm hn.1), ih hn.2]
      rfl

/-- Any number of directories uses up whole names, but not the last one. -/
theorem afterDirectories_join_iff
    (hnames : ∀ n ∈ names, IsName n)
    (hne : names ≠ []) :
    afterDirectories test false (join ['/'] names) = true
      ↔ ∃ skipped rest, names = skipped ++ rest ∧ rest ≠ [] ∧ test (join ['/'] rest) = true := by
  induction names with
  | nil =>
      exact absurd rfl hne
  | cons n names ih =>
      obtain ⟨hnonempty, hslash⟩ := hnames n List.mem_cons_self
      obtain ⟨c, r, rfl⟩ := List.exists_cons_of_ne_nil hnonempty
      rw [List.mem_cons, not_or] at hslash
      -- Past its first character, the first name is a directory if other names follow.
      have hstep : afterDirectories test false (join ['/'] ((c :: r) :: names)) = true
          ↔ test (join ['/'] ((c :: r) :: names)) = true
            ∨ names ≠ [] ∧ afterDirectories test false (join ['/'] names) = true := by
        by_cases hlast : names = []
        · subst hlast
          rw [join_singleton, afterDirectories, if_neg (Ne.symm hslash.1),
            afterDirectories_of_name hslash.2]
          simp
        · rw [join_cons hlast, List.append_assoc, List.singleton_append, List.cons_append,
            afterDirectories, if_neg (Ne.symm hslash.1), afterDirectories_append hslash.2]
          simp [hlast]
      rw [hstep]
      constructor
      · rintro (h | ⟨hlast, h⟩)
        · exact ⟨[], _, rfl, hne, h⟩
        · obtain ⟨skipped, rest, rfl, hrest, h⟩ :=
            (ih (fun m hm => hnames m (List.mem_cons_of_mem _ hm)) hlast).1 h
          exact ⟨(c :: r) :: skipped, rest, rfl, hrest, h⟩
      · rintro ⟨skipped, rest, hwhole, hrest, h⟩
        cases skipped with
        | nil =>
            rw [hwhole]
            exact Or.inl h
        | cons m skipped =>
            rw [List.cons_append, List.cons_eq_cons] at hwhole
            obtain ⟨-, rfl⟩ := hwhole
            have hlast : skipped ++ rest ≠ [] := by simp [hrest]
            exact Or.inr ⟨hlast, (ih (fun m hm => hnames m (List.mem_cons_of_mem _ hm)) hlast).2
              ⟨skipped, rest, rfl, hrest, h⟩⟩

theorem isSegments_join
    (hnames : ∀ n ∈ names, IsName n)
    (hne : names ≠ []) :
    isSegments (join ['/'] names) = true := by
  rw [isSegments, splitOn_join hne (fun n hn => (hnames n hn).2), List.all_eq_true]
  intro n hn
  simpa using (hnames n hn).1

end Names

/-! ## Whole patterns -/

section Patterns

variable {s : Text} {segments names : List Text}

theorem fits_nil_iff :
    Fits [] names ↔ names = [] := by
  constructor
  · intro h
    cases h
    rfl
  · rintro rfl
    exact .nil

theorem fits_anySegments_iff :
    Fits [anySegments] names ↔ names ≠ [] := by
  constructor
  · intro h
    cases h with
    | segment hs _ _ =>
        exact absurd rfl hs
    | directories _ hne _ =>
        exact absurd rfl hne
    | last hne =>
        exact hne
  · exact .last

theorem fits_anySegments_cons_iff
    (hne : segments ≠ []) :
    Fits (anySegments :: segments) names
      ↔ ∃ skipped rest, names = skipped ++ rest ∧ Fits segments rest := by
  constructor
  · intro h
    cases h with
    | segment hs _ _ =>
        exact absurd rfl hs
    | directories skipped _ h =>
        exact ⟨skipped, _, rfl, h⟩
    | last _ =>
        exact absurd rfl hne
  · rintro ⟨skipped, rest, rfl, h⟩
    exact .directories skipped hne h

theorem fits_cons_iff
    (hs : s ≠ anySegments) :
    Fits (s :: segments) names
      ↔ ∃ n rest, names = n :: rest ∧ FitsSegment s n ∧ Fits segments rest := by
  constructor
  · intro h
    cases h with
    | segment _ hn h =>
        exact ⟨_, _, rfl, hn, h⟩
    | directories _ _ _ =>
        exact absurd rfl hs
    | last _ =>
        exact absurd rfl hs
  · rintro ⟨n, rest, rfl, hn, h⟩
    exact .segment hs hn h

/-- Segments fit one name at least. -/
theorem Fits.names_ne_nil
    (h : Fits segments names)
    (hne : segments ≠ []) :
    names ≠ [] := by
  induction h with
  | nil =>
      exact absurd rfl hne
  | segment _ _ _ _ =>
      simp
  | directories skipped hmore _ ih =>
      exact List.append_ne_nil_of_right_ne_nil skipped (ih hmore)
  | last hnames =>
      exact hnames

/-- Unless a segment stands for any number of names, there are as many names as segments. -/
theorem Fits.length_eq
    (h : Fits segments names)
    (hany : anySegments ∉ segments) :
    names.length = segments.length := by
  induction h with
  | nil =>
      rfl
  | segment _ _ _ ih =>
      rw [List.length_cons, List.length_cons, ih (fun hmem => hany (List.mem_cons_of_mem _ hmem))]
  | directories _ _ _ _ =>
      exact absurd List.mem_cons_self hany
  | last _ =>
      exact absurd List.mem_cons_self hany

theorem join_append_slash_inj
    {n m t u : Text}
    (hn : '/' ∉ n)
    (hm : '/' ∉ m)
    (h : n ++ '/' :: t = m ++ '/' :: u) :
    n = m ∧ t = u := by
  have hleft : cutAt? ['/'] (n ++ '/' :: t) = some (n, t) := cutAt?_of_not_mem hn t
  have hright : cutAt? ['/'] (m ++ '/' :: u) = some (m, u) := cutAt?_of_not_mem hm u
  rw [h, hright, Option.some.injEq, Prod.mk.injEq] at hleft
  exact ⟨hleft.1.symm, hleft.2.symm⟩

/-- A segment in front of others fits the first name, and the others fit the rest. -/
theorem fits_ofSegment_slash_iff
    {p : List Wild}
    (hs : '/' ∉ s)
    (hnames : ∀ n ∈ names, '/' ∉ n) :
    fits (ofSegment s ++ .char '/' :: p) (join ['/'] names) = true
      ↔ ∃ n rest, names = n :: rest ∧ rest ≠ [] ∧ FitsSegment s n
        ∧ fits p (join ['/'] rest) = true := by
  rw [fits_ofSegment_append_iff hs]
  simp only [fits_char_iff]
  constructor
  · rintro ⟨n, _, hwhole, hn, hfits, rest, rfl, h⟩
    have hslash : '/' ∈ join ['/'] names := by
      rw [hwhole]
      simp
    cases names with
    | nil =>
        cases hslash
    | cons m ms =>
        have hm := hnames m List.mem_cons_self
        have hms : ms ≠ [] := by
          rintro rfl
          exact hm hslash
        rw [join_cons hms, List.append_assoc, List.singleton_append] at hwhole
        obtain ⟨rfl, rfl⟩ := join_append_slash_inj hm hn hwhole
        exact ⟨m, ms, rfl, hms, hfits, h⟩
  · rintro ⟨n, rest, rfl, hrest, hfits, h⟩
    refine ⟨n, _, ?_, hnames n List.mem_cons_self, hfits, _, rfl, h⟩
    rw [join_cons hrest, List.append_assoc, List.singleton_append]

theorem ofSegments_singleton
    (hs : s ≠ anySegments) :
    ofSegments [s] = ofSegment s :=
  if_neg hs

theorem ofSegments_anySegments_cons
    (hne : segments ≠ []) :
    ofSegments (anySegments :: segments) = .directories :: ofSegments segments := by
  cases segments with
  | nil =>
      exact absurd rfl hne
  | cons u us =>
      rfl

theorem ofSegments_cons
    (hs : s ≠ anySegments)
    (hne : segments ≠ []) :
    ofSegments (s :: segments) = ofSegment s ++ .char '/' :: ofSegments segments := by
  cases segments with
  | nil =>
      exact absurd rfl hne
  | cons u us =>
      exact if_neg hs

/-- The last segment fits one name, or any number of them. -/
theorem fits_last_iff
    (hs : '/' ∉ s)
    (hnames : ∀ n ∈ names, IsName n)
    (hne : names ≠ []) :
    fits (ofSegments [s]) (join ['/'] names) = true ↔ Fits [s] names := by
  by_cases hany : s = anySegments
  · subst hany
    rw [fits_anySegments_iff]
    exact iff_of_true (isSegments_join hnames hne) hne
  rw [ofSegments_singleton hany, fits_ofSegment_iff hs, fits_cons_iff hany]
  constructor
  · rintro ⟨hno, hfits⟩
    obtain ⟨n, rest, rfl⟩ := List.exists_cons_of_ne_nil hne
    cases rest with
    | nil =>
        exact ⟨n, [], rfl, hfits, .nil⟩
    | cons m ms =>
        exact absurd (by simp [join_cons]) hno
  · rintro ⟨n, rest, rfl, hfits, h⟩
    rw [fits_nil_iff] at h
    subst h
    exact ⟨(hnames n List.mem_cons_self).2, hfits⟩

/-- Matching a path that is written out comes to matching its names one after the other. -/
theorem fits_ofSegments_iff
    (hsegments : ∀ s ∈ segments, '/' ∉ s)
    (hnames : ∀ n ∈ names, IsName n)
    (hne : names ≠ []) :
    fits (ofSegments segments) (join ['/'] names) = true ↔ Fits segments names := by
  induction segments generalizing names with
  | nil =>
      rw [fits_nil_iff, ofSegments, fits, List.isEmpty_iff]
      refine iff_of_false (fun hempty => ?_) hne
      obtain ⟨n, rest, rfl⟩ := List.exists_cons_of_ne_nil hne
      rw [join_cons_eq_flatMap, List.append_eq_nil_iff] at hempty
      exact (hnames n List.mem_cons_self).1 hempty.1
  | cons s segments ih =>
      have hs := hsegments s List.mem_cons_self
      have hothers : ∀ u ∈ segments, '/' ∉ u := fun u hu =>
        hsegments u (List.mem_cons_of_mem s hu)
      by_cases hlast : segments = []
      · rw [hlast]
        exact fits_last_iff hs hnames hne
      by_cases hany : s = anySegments
      · rw [hany, ofSegments_anySegments_cons hlast, fits, afterDirectories_join_iff hnames hne,
          fits_anySegments_cons_iff hlast]
        refine exists_congr (fun skipped => exists_congr (fun rest => and_congr_right ?_))
        rintro rfl
        have hrest : ∀ n ∈ rest, IsName n := fun n hn => hnames n (List.mem_append_right _ hn)
        constructor
        · exact fun h => (ih hothers hrest h.1).1 h.2
        · exact fun h => ⟨h.names_ne_nil hlast, (ih hothers hrest (h.names_ne_nil hlast)).2 h⟩
      · rw [ofSegments_cons hany hlast, fits_cons_iff hany,
          fits_ofSegment_slash_iff hs (fun n hn => (hnames n hn).2)]
        refine exists_congr (fun n => exists_congr (fun rest => and_congr_right ?_))
        rintro rfl
        have hrest : ∀ m ∈ rest, IsName m := fun m hm => hnames m (List.mem_cons_of_mem _ hm)
        constructor
        · exact fun h => ⟨h.2.1, (ih hothers hrest h.1).1 h.2.2⟩
        · intro h
          have hmore := h.2.names_ne_nil hlast
          exact ⟨hmore, h.1, (ih hothers hrest hmore).2 h.2⟩

/-! ## Segments without wild characters -/

/-- A segment without wild characters. -/
def IsPlain (s : Text) : Prop :=
  s.any isWild = false

theorem fitsSegment_iff_of_isPlain
    {n : Text}
    (hs : IsPlain s) :
    FitsSegment s n ↔ n = s := by
  induction s generalizing n with
  | nil =>
      constructor
      · intro h
        cases h
        rfl
      · rintro rfl
        exact .nil
  | cons c s ih =>
      rw [IsPlain, List.any_cons, Bool.or_eq_false_iff] at hs
      rw [fitsSegment_char_iff hs.1]
      constructor
      · rintro ⟨r, rfl, h⟩
        rw [(ih hs.2).1 h]
      · rintro rfl
        exact ⟨s, rfl, (ih hs.2).2 rfl⟩

/-- Segments without wild characters in front of others fit themselves only. -/
theorem fits_append_iff
    {leading : List Text}
    (hleading : ∀ s ∈ leading, IsPlain s) :
    Fits (leading ++ segments) names ↔ ∃ rest, names = leading ++ rest ∧ Fits segments rest := by
  induction leading generalizing names with
  | nil =>
      simp
  | cons s leading ih =>
      have hs := hleading s List.mem_cons_self
      have hany : s ≠ anySegments := by
        rintro rfl
        cases hs
      rw [List.cons_append, fits_cons_iff hany]
      simp only [fitsSegment_iff_of_isPlain hs,
        ih (fun u hu => hleading u (List.mem_cons_of_mem s hu))]
      constructor
      · rintro ⟨_, _, rfl, rfl, rest, rfl, h⟩
        exact ⟨rest, rfl, h⟩
      · rintro ⟨rest, rfl, h⟩
        exact ⟨s, leading ++ rest, rfl, rfl, rest, rfl, h⟩

end Patterns
end Wild
end SchemaSpec
