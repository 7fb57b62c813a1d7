import Mathlib.Data.List.DropRight
import Mathlib.Tactic.IntervalCases
import SchemaSpec.Proofs.Text.Lines
import SchemaSpec.Text.Word

/-!
# The ends of texts

What is dropped at the ends of a text, and where a word at its start ends.

* `IsWordRun`: a text of word characters, and at least one.
* `not_isWord_of_isBlank`: no character is blank and in a word.
* `trim_surround`: blanks around a text do not matter to `trim`.
* `trim_eq_self_iff`: a text is trimmed if its first and last characters are not blank.
* `exists_dropFinalLineFeed_append`: what is dropped is one line feed, or nothing.
* `append_inj_of_stop`: where a text ends that runs up to a certain character.
* `word?_append`: a word is read up to the first character behind it.
-/

namespace SchemaSpec
namespace Text

/-- A non-empty run of word characters. -/
def IsWordRun (t : Text) : Prop :=
  t ≠ [] ∧ ∀ c ∈ t, isWord c = true

instance (t : Text) : Decidable (IsWordRun t) :=
  decidable_of_iff (t ≠ [] ∧ t.all isWord = true) (by simp [IsWordRun])

/-- A text of blanks. -/
def AllBlank (t : Text) : Prop :=
  ∀ c ∈ t, isBlank c = true

instance (t : Text) : Decidable (AllBlank t) :=
  decidable_of_iff (t.all isBlank = true) (by simp [AllBlank])

section Classes

theorem inRanges_eq_true_iff
    {ranges : List (Nat × Nat)}
    {c : Char} :
    inRanges ranges c = true ↔ ∃ r ∈ ranges, r.1 ≤ c.toNat ∧ c.toNat ≤ r.2 := by
  simp [inRanges]

/-- No range of word characters meets a range of blanks. -/
theorem wordRanges_disjoint_blankRanges :
    ∀ w ∈ wordRanges, ∀ b ∈ blankRanges, w.2 < b.1 ∨ b.2 < w.1 := by
  decide +kernel

theorem not_isWord_of_isBlank
    {c : Char}
    (h : isBlank c = true) :
    isWord c = false := by
  obtain ⟨b, hb, hlow, hhigh⟩ := inRanges_eq_true_iff.1 h
  unfold isWord
  split
  · -- An ASCII blank is one of ten characters.
    have hn : c.toNat ∈ [9, 10, 11, 12, 13, 28, 29, 30, 31, 32] := by
      simp only [blankRanges, List.mem_cons, List.not_mem_nil, or_false] at hb
      rcases hb with rfl | rfl | rfl | rfl | rfl | rfl | rfl | rfl | rfl | rfl <;>
        simp only [List.mem_cons] <;> omega
    have hc : c = Char.ofNat c.toNat := (Char.ofNat_toNat c).symm
    simp only [List.mem_cons, List.not_mem_nil, or_false] at hn
    rcases hn with hn | hn | hn | hn | hn | hn | hn | hn | hn | hn <;>
      · rw [hn] at hc
        rw [hc]
        decide
  · rw [Bool.eq_false_iff, Ne, inRanges_eq_true_iff]
    rintro ⟨w, hw, hwlow, hwhigh⟩
    rcases wordRanges_disjoint_blankRanges w hw b hb with hlt | hlt <;> omega

theorem not_isBlank_of_isWord
    {c : Char}
    (h : isWord c = true) :
    isBlank c = false := by
  by_contra hblank
  rw [Bool.not_eq_false] at hblank
  rw [not_isWord_of_isBlank hblank] at h
  exact Bool.false_ne_true h

theorem ne_of_isWord
    {c d : Char}
    (hc : isWord c = true)
    (hd : isWord d = false) :
    c ≠ d := by
  rintro rfl
  rw [hd] at hc
  exact Bool.false_ne_true hc

theorem AllBlank.append
    {t u : Text}
    (ht : AllBlank t)
    (hu : AllBlank u) :
    AllBlank (t ++ u) := by
  intro c hc
  rcases List.mem_append.1 hc with h | h
  · exact ht c h
  · exact hu c h

theorem allBlank_nil : AllBlank [] :=
  fun _ hc => absurd hc List.not_mem_nil

theorem allBlank_space : AllBlank [' '] := by
  decide

theorem allBlank_lineFeed : AllBlank ['\n'] := by
  decide

theorem IsWordRun.not_mem
    {w : Text}
    {c : Char}
    (h : IsWordRun w)
    (hc : isWord c = false) :
    c ∉ w :=
  fun hmem => ne_of_isWord (h.2 c hmem) hc rfl

end Classes

section Trimming

theorem dropEnd_eq_rdropWhile
    (p : Char → Bool)
    (t : Text) :
    dropEnd p t = t.rdropWhile p := by
  induction t with
  | nil =>
      rfl
  | cons c t ih =>
      rw [dropEnd, ih]
      cases hrest : t.rdropWhile p with
      | nil =>
          have hall := List.rdropWhile_eq_nil_iff.1 hrest
          by_cases hc : p c = true
          · have : (c :: t).rdropWhile p = [] := by
              rw [List.rdropWhile_eq_nil_iff]
              simpa [hc] using hall
            simp [hc, this]
          · have hkeep : (c :: t).rdropWhile p = [c] := by
              simp only [List.rdropWhile, List.reverse_cons]
              rw [List.dropWhile_append_of_pos (by simpa using hall)]
              simp [hc]
            simp [hc, hkeep]
      | cons d s =>
          have hsplit : (t.reverse.dropWhile p).reverse = d :: s := hrest
          have hne : (t.reverse.dropWhile p) ≠ [] := by
            intro hnil
            simp [hnil] at hsplit
          have : (c :: t).rdropWhile p = c :: d :: s := by
            simp only [List.rdropWhile, List.reverse_cons]
            rw [List.dropWhile_append]
            simp [hne, hsplit]
          simp [this]

theorem dropEnd_cons
    (p : Char → Bool)
    (c : Char)
    (t : Text) :
    dropEnd p (c :: t) = if dropEnd p t = [] ∧ p c = true then [] else c :: dropEnd p t := by
  rw [dropEnd]
  cases dropEnd p t with
  | nil =>
      by_cases hc : p c = true
      · simp [hc]
      · simp [hc]
  | cons d s =>
      simp

theorem dropEnd_congr
    {p q : Char → Bool}
    {t : Text}
    (h : ∀ c ∈ t, p c = q c) :
    dropEnd p t = dropEnd q t := by
  induction t with
  | nil =>
      rfl
  | cons c t ih =>
      rw [dropEnd_cons, dropEnd_cons, ih (fun d hd => h d (List.mem_cons_of_mem c hd)),
        h c List.mem_cons_self]

/-- What stands in front of two texts does not matter to what is dropped at their ends. -/
theorem dropEnd_append_congr
    {p : Char → Bool}
    {u v : Text}
    (h : dropEnd p u = dropEnd p v)
    (t : Text) :
    dropEnd p (t ++ u) = dropEnd p (t ++ v) := by
  induction t with
  | nil =>
      exact h
  | cons c t ih =>
      simp only [List.cons_append, dropEnd_cons, ih]

theorem dropEnd_append_of_all
    {p : Char → Bool}
    {u : Text}
    (hu : ∀ c ∈ u, p c = true)
    (t : Text) :
    dropEnd p (t ++ u) = dropEnd p t := by
  rw [dropEnd_eq_rdropWhile, dropEnd_eq_rdropWhile, List.rdropWhile, List.rdropWhile,
    List.reverse_append, List.dropWhile_append_of_pos (by simpa using hu)]

theorem dropEnd_append_singleton
    {p : Char → Bool}
    {c : Char}
    (hc : p c = false)
    (t : Text) :
    dropEnd p (t ++ [c]) = t ++ [c] := by
  rw [dropEnd_eq_rdropWhile]
  exact List.rdropWhile_concat_neg p t c (by simp [hc])

/-- A text is what is kept of it, and an ending of characters of the class. -/
theorem exists_dropEnd_append
    (p : Char → Bool)
    (t : Text) :
    ∃ u, t = dropEnd p t ++ u ∧ ∀ c ∈ u, p c = true := by
  refine ⟨t.rtakeWhile p, ?_, fun c hc => List.mem_rtakeWhile_imp hc⟩
  rw [dropEnd_eq_rdropWhile, List.rdropWhile_append_rtakeWhile]

/-- A text whose last character is outside the class keeps it. -/
theorem dropEnd_eq_self
    {p : Char → Bool}
    {t : Text}
    (h : ∀ c, t.getLast? = some c → p c = false) :
    dropEnd p t = t := by
  rcases List.eq_nil_or_concat t with rfl | ⟨s, c, rfl⟩
  · rfl
  · rw [List.concat_eq_append] at h ⊢
    exact dropEnd_append_singleton (h c (by simp)) s

/-- Behind a text whose last character is outside the class, only the rest loses its ending. -/
theorem dropEnd_append_of_last
    {p : Char → Bool}
    {t : Text}
    (h : ∀ c, t.getLast? = some c → p c = false)
    (u : Text) :
    dropEnd p (t ++ u) = t ++ dropEnd p u := by
  have hkeep : t.reverse.dropWhile p = t.reverse := by
    have hself := dropEnd_eq_self h
    rwa [dropEnd_eq_rdropWhile, List.rdropWhile, List.reverse_eq_iff] at hself
  rw [dropEnd_eq_rdropWhile, dropEnd_eq_rdropWhile, List.rdropWhile, List.rdropWhile,
    List.reverse_append, List.dropWhile_append]
  by_cases hu : u.reverse.dropWhile p = []
  · simp [hu, hkeep]
  · simp [hu]

theorem dropEnd_sublist
    (p : Char → Bool)
    (t : Text) :
    List.Sublist (dropEnd p t) t := by
  obtain ⟨u, hu, -⟩ := exists_dropEnd_append p t
  have hleft := List.sublist_append_left (dropEnd p t) u
  rwa [← hu] at hleft

theorem dropEnd_subset
    (p : Char → Bool)
    (t : Text) :
    dropEnd p t ⊆ t :=
  (dropEnd_sublist p t).subset

theorem trim_sublist
    (t : Text) :
    List.Sublist (trim t) t :=
  (dropEnd_sublist isBlank _).trans (List.dropWhile_sublist isBlank)

theorem trimStart_subset
    (t : Text) :
    trimStart t ⊆ t :=
  (List.dropWhile_sublist isBlank).subset

theorem trimEnd_subset
    (t : Text) :
    trimEnd t ⊆ t :=
  dropEnd_subset isBlank t

theorem trim_subset
    (t : Text) :
    trim t ⊆ t :=
  (trim_sublist t).subset

theorem trimStart_append_of_blank
    {t : Text}
    (ht : AllBlank t)
    (u : Text) :
    trimStart (t ++ u) = trimStart u :=
  List.dropWhile_append_of_pos ht

/-- A text whose first character is not blank keeps it. -/
theorem trimStart_eq_self
    {t : Text}
    (h : ∀ c, t.head? = some c → isBlank c = false) :
    trimStart t = t := by
  cases t with
  | nil =>
      rfl
  | cons c t =>
      simp [trimStart, h c rfl]

theorem trimEnd_append_of_blank
    {u : Text}
    (hu : AllBlank u)
    (t : Text) :
    trimEnd (t ++ u) = trimEnd t :=
  dropEnd_append_of_all hu t

/-- Blanks around a text do not matter. -/
theorem trim_surround
    {left right : Text}
    (hl : AllBlank left)
    (hr : AllBlank right)
    (t : Text) :
    trim (left ++ t ++ right) = trim t := by
  unfold trim
  rw [List.append_assoc, trimStart_append_of_blank hl]
  by_cases ht : AllBlank t
  · have hall : AllBlank (t ++ right) := ht.append hr
    have hleft : trimStart (t ++ right) = [] := List.dropWhile_eq_nil_iff.2 hall
    have hright : trimStart t = [] := List.dropWhile_eq_nil_iff.2 ht
    rw [hleft, hright]
  · have hne : t.dropWhile isBlank ≠ [] := fun hnil => ht (List.dropWhile_eq_nil_iff.1 hnil)
    have hstart : trimStart (t ++ right) = trimStart t ++ right := by
      unfold trimStart
      rw [List.dropWhile_append]
      simp [hne]
    rw [hstart, trimEnd_append_of_blank hr]

theorem trimStart_of_allBlank
    {t : Text}
    (ht : AllBlank t) :
    trimStart t = [] :=
  List.dropWhile_eq_nil_iff.2 ht

theorem trimEnd_of_allBlank
    {t : Text}
    (ht : AllBlank t) :
    trimEnd t = [] := by
  have h := trimEnd_append_of_blank ht []
  rwa [List.nil_append] at h

theorem trim_of_allBlank
    {t : Text}
    (ht : AllBlank t) :
    trim t = [] := by
  rw [trim, trimStart_of_allBlank ht]
  rfl

/-- A text is what is left of it between blanks. -/
theorem exists_trim_surround
    (t : Text) :
    ∃ left right, t = left ++ trim t ++ right ∧ AllBlank left ∧ AllBlank right := by
  obtain ⟨right, hright, hblank⟩ := exists_dropEnd_append isBlank (trimStart t)
  refine ⟨t.takeWhile isBlank, right, ?_, fun c hc => List.mem_takeWhile_imp hc, hblank⟩
  have hsplit : t.takeWhile isBlank ++ trimStart t = t := List.takeWhile_append_dropWhile
  rw [hright, ← List.append_assoc] at hsplit
  exact hsplit.symm

@[simp] theorem trim_trim
    (t : Text) :
    trim (trim t) = trim t := by
  obtain ⟨left, right, ht, hleft, hright⟩ := exists_trim_surround t
  have hsame := trim_surround hleft hright (trim t)
  rw [← ht] at hsame
  exact hsame.symm

theorem trim_trimEnd
    (t : Text) :
    trim (trimEnd t) = trim t := by
  obtain ⟨right, ht, hright⟩ := exists_dropEnd_append isBlank t
  have hsame := trim_surround allBlank_nil hright (trimEnd t)
  rw [List.nil_append] at hsame
  rw [← hsame]
  exact congrArg trim ht.symm

/-- A text is trimmed if its first and last characters are not blank. -/
theorem trim_eq_self
    {t : Text}
    (hfirst : ∀ c, t.head? = some c → isBlank c = false)
    (hlast : ∀ c, t.getLast? = some c → isBlank c = false) :
    trim t = t := by
  unfold trim
  rw [trimStart_eq_self hfirst]
  exact dropEnd_eq_self hlast

/-- A trimmed text has no blank at its start. -/
theorem not_isBlank_head_of_trim_eq
    {t : Text}
    (h : trim t = t)
    {c : Char}
    (hc : t.head? = some c) :
    isBlank c = false := by
  cases t with
  | nil =>
      simp at hc
  | cons d t =>
      have hd : d = c := by simpa using hc
      subst hd
      by_contra hblank
      rw [Bool.not_eq_false] at hblank
      -- The text would lose its first character.
      have hshort : (trim (d :: t)).length ≤ t.length := by
        obtain ⟨u, hu, -⟩ := exists_dropEnd_append isBlank (trimStart (d :: t))
        have hle : (trim (d :: t)).length ≤ (trimStart (d :: t)).length := by
          rw [hu, List.length_append]
          unfold trim trimEnd
          omega
        have hdrop : trimStart (d :: t) = trimStart t := by
          simp [trimStart, hblank]
        rw [hdrop] at hle
        exact hle.trans (List.dropWhile_sublist isBlank).length_le
      rw [h] at hshort
      simp at hshort

/-- A trimmed text has no blank at its end. -/
theorem not_isBlank_last_of_trim_eq
    {t : Text}
    (h : trim t = t)
    {c : Char}
    (hc : t.getLast? = some c) :
    isBlank c = false := by
  have hstart : trimStart t = t :=
    trimStart_eq_self (fun d hd => not_isBlank_head_of_trim_eq h hd)
  unfold trim trimEnd at h
  rw [hstart, dropEnd_eq_rdropWhile, List.rdropWhile_eq_self_iff] at h
  have hne : t ≠ [] := by
    rintro rfl
    simp at hc
  have hlast := h hne
  rw [List.getLast?_eq_some_getLast hne, Option.some.injEq] at hc
  simpa [hc] using hlast

theorem trim_eq_self_iff
    {t : Text} :
    trim t = t ↔
      (∀ c, t.head? = some c → isBlank c = false)
        ∧ (∀ c, t.getLast? = some c → isBlank c = false) :=
  ⟨fun h => ⟨fun _ => not_isBlank_head_of_trim_eq h, fun _ => not_isBlank_last_of_trim_eq h⟩,
    fun h => trim_eq_self h.1 h.2⟩

/-- Behind a text with no blank at its ends, only the rest loses blanks. -/
theorem trim_append_of_trimmed_left
    {t : Text}
    (ht : trim t = t)
    (hne : t ≠ [])
    (u : Text) :
    trim (t ++ u) = t ++ trimEnd u := by
  obtain ⟨hfirst, hlast⟩ := trim_eq_self_iff.1 ht
  have hstart : trimStart (t ++ u) = t ++ u := by
    refine trimStart_eq_self (fun c hc => hfirst c ?_)
    rwa [List.head?_append_of_ne_nil _ hne] at hc
  rw [trim, hstart]
  exact dropEnd_append_of_last hlast u

/-- A trimmed text behind a text that starts without a blank. -/
theorem trim_append_eq_self
    {t u : Text}
    (ht : trim t = t)
    (hu : trim u = u)
    (htne : t ≠ [])
    (hune : u ≠ [])
    (mid : Text) :
    trim (t ++ mid ++ u) = t ++ mid ++ u := by
  refine trim_eq_self (fun c hc => ?_) (fun c hc => ?_)
  · rw [List.append_assoc, List.head?_append_of_ne_nil _ htne] at hc
    exact not_isBlank_head_of_trim_eq ht hc
  · rw [List.getLast?_append_of_ne_nil _ hune] at hc
    exact not_isBlank_last_of_trim_eq hu hc

theorem trim_append_of_trimmed
    {t u : Text}
    (ht : trim t = t)
    (hu : trim u = u) :
    trim (t ++ u) = t ++ u := by
  by_cases htne : t = []
  · simpa [htne] using hu
  by_cases hune : u = []
  · simpa [hune] using ht
  simpa using trim_append_eq_self ht hu htne hune []

theorem IsWordRun.trim_eq
    {w : Text}
    (h : IsWordRun w) :
    trim w = w :=
  trim_eq_self
    (fun c hc => not_isBlank_of_isWord (h.2 c (List.mem_of_mem_head? hc)))
    (fun c hc => not_isBlank_of_isWord (h.2 c (List.mem_of_getLast? hc)))

end Trimming

section FinalLineFeed

theorem dropFinalLineFeed_append_cons
    {c : Char}
    (hc : c ≠ '\n')
    (t u : Text) :
    dropFinalLineFeed (t ++ c :: u) = t ++ c :: dropFinalLineFeed u := by
  have hcons : dropFinalLineFeed (c :: u) = c :: dropFinalLineFeed u := by
    cases u with
    | nil =>
        exact if_neg hc
    | cons d r =>
        rfl
  induction t with
  | nil =>
      exact hcons
  | cons d t ih =>
      obtain ⟨e, r, hrest⟩ := List.exists_cons_of_ne_nil
        (List.append_ne_nil_of_right_ne_nil t (List.cons_ne_nil c u))
      rw [List.cons_append, List.cons_append, ← ih, hrest]
      rfl

theorem dropFinalLineFeed_append_lineFeed
    (t : Text) :
    dropFinalLineFeed (t ++ ['\n']) = t := by
  induction t with
  | nil =>
      rfl
  | cons c t ih =>
      obtain ⟨d, r, hrest⟩ := List.exists_cons_of_ne_nil
        (List.append_ne_nil_of_right_ne_nil t (List.cons_ne_nil '\n' []))
      rw [List.cons_append, hrest, dropFinalLineFeed, ← hrest, ih]

/-- A text is what is left without its final line feed, with a line feed behind it or nothing. -/
theorem exists_dropFinalLineFeed_append
    (t : Text) :
    ∃ feed, t = dropFinalLineFeed t ++ feed ∧ (feed = [] ∨ feed = ['\n']) := by
  induction t using dropFinalLineFeed.induct with
  | case1 =>
      exact ⟨[], rfl, Or.inl rfl⟩
  | case2 =>
      exact ⟨['\n'], rfl, Or.inr rfl⟩
  | case3 c hc =>
      exact ⟨[], by simp [dropFinalLineFeed, hc], Or.inl rfl⟩
  | case4 c d r ih =>
      obtain ⟨feed, heq, hfeed⟩ := ih
      exact ⟨feed, congrArg (List.cons c) heq, hfeed⟩

theorem dropFinalLineFeed_eq_self
    {t : Text}
    (h : t.getLast? ≠ some '\n') :
    dropFinalLineFeed t = t := by
  obtain ⟨feed, heq, rfl | rfl⟩ := exists_dropFinalLineFeed_append t
  · rw [List.append_nil] at heq
    exact heq.symm
  · exact absurd (by rw [heq, List.getLast?_concat]) h

end FinalLineFeed

section Words

variable {p : Char → Bool} {t rest : Text}

theorem takeWhile_append_of_stop
    (ht : ∀ c ∈ t, p c = true)
    (hrest : ∀ c, rest.head? = some c → p c = false) :
    (t ++ rest).takeWhile p = t := by
  rw [List.takeWhile_append_of_pos ht]
  cases rest with
  | nil =>
      simp
  | cons c rest =>
      simp [hrest c rfl]

theorem dropWhile_append_of_stop
    (ht : ∀ c ∈ t, p c = true)
    (hrest : ∀ c, rest.head? = some c → p c = false) :
    (t ++ rest).dropWhile p = rest := by
  rw [List.dropWhile_append_of_pos ht]
  cases rest with
  | nil =>
      rfl
  | cons c rest =>
      simp [hrest c rfl]

/-- Texts that a character does not stand in are fixed by what they begin, if nothing or that
character stands behind them. -/
theorem append_inj_of_stop
    {u v w : Text}
    {c : Char}
    (ht : c ∉ t)
    (hu : c ∉ u)
    (hv : ∀ d, v.head? = some d → d = c)
    (hw : ∀ d, w.head? = some d → d = c)
    (h : t ++ v = u ++ w) :
    t = u ∧ v = w := by
  have hbefore : ∀ {x y : Text}, c ∉ x → (∀ d, y.head? = some d → d = c) →
      (x ++ y).takeWhile (fun d => d != c) = x := by
    intro x y hx hy
    refine takeWhile_append_of_stop (fun d hd => ?_) (fun d hd => by simp [hy d hd])
    have hne : d ≠ c := fun heq => hx (heq ▸ hd)
    simpa using hne
  have htu : t = u := by
    rw [← hbefore ht hv, h, hbefore hu hw]
  exact ⟨htu, List.append_cancel_left (htu ▸ h)⟩

/-- A text that a character does not stand in is fixed by what it and that character begin. -/
theorem eq_of_append_cons
    {u v w : Text}
    {c : Char}
    (ht : c ∉ t)
    (hu : c ∉ u)
    (h : t ++ c :: v = u ++ c :: w) :
    t = u :=
  (append_inj_of_stop ht hu (by simp) (by simp) h).1

/-- Taking blanks away at the end brings no word character to the front. -/
theorem wordEnds_trimEnd
    (h : wordEnds t = true) :
    wordEnds (trimEnd t) = true := by
  obtain ⟨u, hu, -⟩ := exists_dropEnd_append isBlank t
  unfold trimEnd
  cases hkept : dropEnd isBlank t with
  | nil =>
      rfl
  | cons c r =>
      rw [hkept] at hu
      rwa [hu] at h

/-- A word is read up to the first character that is not in a word. -/
theorem word?_append
    {w : Text}
    (hw : IsWordRun w)
    (hrest : wordEnds rest = true) :
    word? (w ++ rest) = some (w, rest) := by
  have hstop : ∀ c, rest.head? = some c → isWord c = false := by
    intro c hc
    cases rest with
    | nil =>
        simp at hc
    | cons d rest =>
        have hd : d = c := by simpa using hc
        simpa [wordEnds, hd] using hrest
  have htake := takeWhile_append_of_stop hw.2 hstop
  have hdrop := dropWhile_append_of_stop hw.2 hstop
  obtain ⟨c, r, rfl⟩ := List.exists_cons_of_ne_nil hw.1
  unfold word?
  rw [htake, hdrop]

/-- A word and its rest make up the text. -/
theorem word?_eq_some
    {w : Text}
    (h : word? t = some (w, rest)) :
    t = w ++ rest ∧ IsWordRun w := by
  unfold word? at h
  split at h
  · cases h
  · rename_i c r hrun
    obtain ⟨rfl, rfl⟩ := Prod.mk.inj (Option.some.inj h)
    refine ⟨?_, List.cons_ne_nil _ _, fun d hd => ?_⟩
    · rw [← hrun, List.takeWhile_append_dropWhile]
    · exact List.mem_takeWhile_imp (hrun ▸ hd)

end Words

end Text
end SchemaSpec
