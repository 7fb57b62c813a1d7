import SchemaSpec.Proofs.Text.Ends
import SchemaSpec.Table.Header

/-!
# Where a header ends

A header ends at a `do |t|` that runs to the end of its line.  Between `do` and the end stand one
word, two bars and blanks, so a comma or a parenthesis keeps a line open.

* `opensBlock`: the end of a header.
* `exists_of_blockVariable?`: the texts that are read as one.
* `closeFrom?_append`: a header ends at its last `do |t|`, whatever its options say.
* `closeFrom?_append_cons_eq_none`: only what stands behind the last comma can end a header.
-/

namespace SchemaSpec
namespace Header

open Text

/-- What ends a header, with its block variable. -/
def opensBlock (block : Text) : Text :=
  "do |".toList ++ block ++ ['|']

/-- A text that opens a block has one word between two bars, and else only blanks behind `do`. -/
theorem exists_of_blockVariable?
    {s block : Text}
    (h : blockVariable? s = some block) :
    ∃ gap left right last, AllBlank gap ∧ AllBlank left ∧ AllBlank right ∧ AllBlank last
      ∧ IsWordRun block
      ∧ s = "do".toList ++ gap ++ '|' :: (left ++ block ++ right ++ '|' :: last) := by
  unfold blockVariable? at h
  simp only [Option.bind_eq_bind, Option.bind_eq_some_iff] at h
  obtain ⟨afterDo, hdo, afterBar, hbar, ⟨word, afterWord⟩, hword, last, hlast, hend⟩ := h
  rw [after?_eq_some_iff] at hdo hbar hlast
  obtain ⟨hsplit, hrun⟩ := word?_eq_some hword
  have hblank : trimStart last = [] := by
    by_contra hne
    simp [hne] at hend
  obtain rfl : word = block := by simpa [hblank] using hend
  have hgap : ∀ t : Text, t = t.takeWhile isBlank ++ trimStart t := fun t =>
    (List.takeWhile_append_dropWhile).symm
  have hall : ∀ t : Text, AllBlank (t.takeWhile isBlank) := fun t c hc =>
    List.mem_takeWhile_imp hc
  refine ⟨afterDo.takeWhile isBlank, afterBar.takeWhile isBlank, afterWord.takeWhile isBlank, last,
    hall _, hall _, hall _, List.dropWhile_eq_nil_iff.1 hblank, hrun, ?_⟩
  have hbehindBar : afterBar
      = afterBar.takeWhile isBlank ++ (word ++ (afterWord.takeWhile isBlank ++ '|' :: last)) := by
    have hbehindWord : afterWord = afterWord.takeWhile isBlank ++ '|' :: last := by
      rw [← List.singleton_append, ← hlast, ← hgap]
    rw [← hbehindWord, ← hsplit, ← hgap]
  have hbehindDo : afterDo = afterDo.takeWhile isBlank ++ '|' :: afterBar := by
    rw [← List.singleton_append, ← hbar, ← hgap]
  rw [hdo, List.append_assoc _ word, List.append_assoc _ (word ++ _), List.append_assoc word,
    ← hbehindBar, List.append_assoc, ← hbehindDo]

section Closing

variable {block t p q : Text} {c : Char} {inWord : Bool}

/-- In a text that opens a block stand word characters, blanks and bars only. -/
theorem blockVariable?_eq_none_of_mem
    (hword : isWord c = false)
    (hblank : isBlank c = false)
    (hbar : c ≠ '|')
    (hmem : c ∈ t) :
    blockVariable? t = none := by
  cases hopen : blockVariable? t with
  | none =>
      rfl
  | some block =>
      obtain ⟨gap, left, right, last, hgap, hleft, hright, hlast, hblock, rfl⟩ :=
        exists_of_blockVariable? hopen
      have hnot : ∀ u, AllBlank u → c ∉ u := by
        intro u hu hc
        rw [hu c hc] at hblank
        cases hblank
      have hdo : c ∉ "do".toList := by
        intro hc
        have hrun : IsWordRun "do".toList := by decide
        rw [hrun.2 c hc] at hword
        cases hword
      simp only [List.mem_append, List.mem_cons] at hmem
      rcases hmem with (hc | hc) | hc | ((hc | hc) | hc) | hc | hc
      · exact absurd hc hdo
      · exact absurd hc (hnot gap hgap)
      · exact absurd hc hbar
      · exact absurd hc (hnot left hleft)
      · exact absurd hc (hblock.not_mem hword)
      · exact absurd hc (hnot right hright)
      · exact absurd hc hbar
      · exact absurd hc (hnot last hlast)

/-- Before the last opening of a block stands no other. -/
theorem blockVariable?_append_eq_none
    (hblock : IsWordRun block)
    (h : t ≠ []) :
    blockVariable? (t ++ opensBlock block) = none := by
  cases hopen : blockVariable? (t ++ opensBlock block) with
  | none =>
      rfl
  | some word =>
      obtain ⟨gap, left, right, last, hgap, hleft, hright, hlast, hword, htext⟩ :=
        exists_of_blockVariable? hopen
      have hbarBlank : ∀ u, AllBlank u → u.count '|' = 0 := fun u hu =>
        List.count_eq_zero.2 (fun hmem => absurd (hu _ hmem) (by decide))
      have hbarWord : ∀ u, IsWordRun u → u.count '|' = 0 := fun u hu =>
        List.count_eq_zero.2 (hu.not_mem (by decide))
      have hbarText : '|' ∉ t := by
        have hcounts := congrArg (List.count '|') htext
        rw [← List.count_eq_zero]
        simp [opensBlock, hbarBlank gap hgap, hbarBlank left hleft, hbarBlank right hright,
          hbarBlank last hlast, hbarWord block hblock, hbarWord word hword] at hcounts
        omega
      -- The text before the first bar is the same on both sides.
      have hbar : opensBlock block = "do ".toList ++ '|' :: (block ++ ['|']) := rfl
      have hbarGap : '|' ∉ "do".toList ++ gap := by
        have hnone := List.count_eq_zero.1 (hbarBlank gap hgap)
        simp [hnone]
      have hsame : t ++ "do ".toList = "do".toList ++ gap := by
        rw [hbar, ← List.append_assoc] at htext
        exact eq_of_append_cons (by simp [hbarText]) hbarGap htext
      have hdGap : gap.count 'd' = 0 :=
        List.count_eq_zero.2 (fun hmem => absurd (hgap _ hmem) (by decide))
      obtain ⟨c, r, rfl⟩ := List.exists_cons_of_ne_nil h
      have hc : c = 'd' := by simpa using congrArg List.head? hsame
      have hcounts := congrArg (List.count 'd') hsame
      simp [hc, hdGap] at hcounts

theorem blockVariable?_opensBlock
    (hblock : IsWordRun block) :
    blockVariable? (opensBlock block) = some block := by
  have hdo : after? "do".toList (opensBlock block) = some (' ' :: '|' :: (block ++ ['|'])) :=
    after?_eq_some_iff.2 rfl
  have hbar : trimStart (' ' :: '|' :: (block ++ ['|'])) = '|' :: (block ++ ['|']) := by
    have hspace : isBlank ' ' = true := by decide
    have hno : isBlank '|' = false := by decide
    simp [trimStart, hspace, hno]
  have hword : trimStart (block ++ ['|']) = block ++ ['|'] := by
    refine trimStart_eq_self (fun c hc => ?_)
    rw [List.head?_append_of_ne_nil _ hblock.1] at hc
    exact not_isBlank_of_isWord (hblock.2 c (List.mem_of_mem_head? hc))
  have hread : word? (block ++ ['|']) = some (block, ['|']) :=
    word?_append hblock (by decide)
  have hafterBar : after? ['|'] ('|' :: (block ++ ['|'])) = some (block ++ ['|']) :=
    after?_eq_some_iff.2 rfl
  have hend : after? ['|'] (trimStart ['|']) = some [] := by decide
  unfold blockVariable?
  simp only [Option.bind_eq_bind, Option.bind_some, hdo, hbar, hafterBar, hword, hread, hend]
  rfl

/-- A header ends at its last `do |t|`. -/
theorem closeFrom?_append
    (hblock : IsWordRun block)
    {before : Text}
    (h : (before.getLast?.map isWord).getD inWord = false) :
    closeFrom? inWord (before ++ opensBlock block) = some (before, block) := by
  induction before generalizing inWord with
  | nil =>
      have hword : inWord = false := h
      have hopen : blockVariable? ('d' :: ("o |".toList ++ block ++ ['|'])) = some block :=
        blockVariable?_opensBlock hblock
      have htext : [] ++ opensBlock block = 'd' :: ("o |".toList ++ block ++ ['|']) := rfl
      rw [hword, htext, closeFrom?, if_neg Bool.false_ne_true, hopen]
  | cons c before ih =>
      have hnone : blockVariable? (c :: before ++ opensBlock block) = none :=
        blockVariable?_append_eq_none hblock (List.cons_ne_nil _ _)
      have hrest : closeFrom? (isWord c) (before ++ opensBlock block) = some (before, block) := by
        refine ih ?_
        rw [← h, List.getLast?_cons]
        cases before.getLast? <;> rfl
      rw [List.cons_append] at hnone ⊢
      rw [closeFrom?, hnone, hrest]
      simp

/-- A text that does not open a block leaves the header open just if what is behind its first
character does. -/
theorem closeFrom?_cons_of_none
    (h : blockVariable? (c :: t) = none) :
    closeFrom? inWord (c :: t) = (closeFrom? (isWord c) t).map (fun p => (c :: p.1, p.2)) := by
  rw [closeFrom?, h]
  cases inWord <;> rfl

/-- A header that would stay open behind a blank stays open. -/
theorem closeFrom?_eq_none
    (h : closeFrom? false t = none) :
    closeFrom? inWord t = none := by
  cases t with
  | nil =>
      rfl
  | cons c t =>
      cases hopen : blockVariable? (c :: t) with
      | some block =>
          rw [closeFrom?, if_neg Bool.false_ne_true, hopen] at h
          cases h
      | none =>
          rw [closeFrom?_cons_of_none hopen] at h ⊢
          exact h

/-- Blanks do not end a header. -/
theorem closeFrom?_blank_append_eq_none
    {gap : Text}
    (hgap : AllBlank gap)
    (h : closeFrom? false t = none) :
    closeFrom? inWord (gap ++ t) = none := by
  induction gap generalizing inWord with
  | nil =>
      exact closeFrom?_eq_none h
  | cons c gap ih =>
      obtain ⟨hc, hgap⟩ := List.forall_mem_cons.1 hgap
      have hnone : blockVariable? (c :: (gap ++ t)) = none := by
        have hne : c ≠ 'd' := by
          rintro rfl
          exact absurd hc (by decide)
        have hafter : after? "do".toList (c :: (gap ++ t)) = none := if_neg hne
        rw [blockVariable?, hafter]
        rfl
      rw [List.cons_append, closeFrom?_cons_of_none hnone, ih hgap]
      rfl

/-- Only what stands behind a comma, or another character that does not stand in the end of a header,
can end it. -/
theorem closeFrom?_append_cons_eq_none
    (hword : isWord c = false)
    (hblank : isBlank c = false)
    (hbar : c ≠ '|')
    (h : closeFrom? false q = none)
    (p : Text) :
    closeFrom? inWord (p ++ c :: q) = none := by
  induction p generalizing inWord with
  | nil =>
      have hnone : blockVariable? (c :: q) = none :=
        blockVariable?_eq_none_of_mem hword hblank hbar List.mem_cons_self
      rw [List.nil_append, closeFrom?_cons_of_none hnone, hword, h]
      rfl
  | cons d p ih =>
      have hnone : blockVariable? (d :: (p ++ c :: q)) = none :=
        blockVariable?_eq_none_of_mem hword hblank hbar (by simp)
      rw [List.cons_append, closeFrom?_cons_of_none hnone, ih]
      rfl

end Closing

end Header
end SchemaSpec
