import SchemaSpec.Proofs.Text.Ends
import SchemaSpec.Naming.Pascal

/-!
# Letter case and blanks

No character but a blank becomes a blank in upper case, so a name in Pascal case has no blanks, and
stands on one line.

* `not_isBlank_of_mem_toPascal`: a name in Pascal case has no blanks.
* `lowerFrom_eq_self_iff`: lower case is a property of the characters, wherever they stand.
-/

namespace SchemaSpec
namespace Text

/-- Only the code points of blanks give blanks. -/
theorem exists_blankRange_of_ofNat
    {n : Nat}
    (h : isBlank (Char.ofNat n) = true) :
    ∃ b ∈ blankRanges, b.1 ≤ n ∧ n ≤ b.2 := by
  unfold Char.ofNat at h
  by_cases hvalid : n.isValidChar
  · rw [dif_pos hvalid] at h
    exact inRanges_eq_true_iff.1 h
  · rw [dif_neg hvalid] at h
    exact absurd h (by decide)

/-- No run of case pairs leads to a blank. -/
theorem not_isBlank_mapRuns
    {c : Char}
    (hc : isBlank c = false) :
    isBlank (Char.ofNat (mapRuns upperRuns c.toNat)) = false := by
  have htable : ∀ r ∈ upperRuns, ∀ b ∈ blankRanges,
      r.2.2.2 + (r.2.1 - r.1) < b.1 ∨ b.2 < r.2.2.2 := by
    decide +kernel
  unfold mapRuns
  split
  · rename_i r hfind
    have hin := List.find?_some hfind
    simp only [Bool.and_eq_true, decide_eq_true_eq] at hin
    rw [← Bool.not_eq_true]
    intro hblank
    obtain ⟨b, hb, hlow, hhigh⟩ := exists_blankRange_of_ofNat hblank
    have hr := htable r (List.mem_of_find?_eq_some hfind) b hb
    omega
  · rwa [Char.ofNat_toNat]

/-- No character but a blank becomes a blank. -/
theorem not_isBlank_of_mem_upperChar
    {c d : Char}
    (hc : isBlank c = false)
    (hd : d ∈ upperChar c) :
    isBlank d = false := by
  have htable : ∀ e ∈ upperExpansions, ∀ k ∈ e.2, isBlank (Char.ofNat k) = false := by
    decide +kernel
  unfold upperChar at hd
  split at hd
  · rename_i hascii
    have hupper : ∀ n < 128, isBlank (Char.ofNat n) = false →
        isBlank (Char.ofNat n).toUpper = false := by
      decide +kernel
    have h := hupper c.toNat hascii
    rw [Char.ofNat_toNat] at h
    rw [List.mem_singleton.1 hd]
    exact h hc
  · split at hd
    · rename_i e hfind
      obtain ⟨k, hk, rfl⟩ := List.mem_map.1 hd
      exact htable e (List.mem_of_find?_eq_some hfind) k hk
    · rw [List.mem_singleton.1 hd]
      exact not_isBlank_mapRuns hc

/-! ## Lower case -/

/-- At least one character stands for a character in lower case, and it alone just if lower case
leaves it as it is. -/
theorem exists_lowerFrom_cons
    (inWord : Bool)
    (c : Char)
    (r : Text) :
    ∃ d ds inWord', lowerFrom inWord (c :: r) = d :: ds ++ lowerFrom inWord' r
      ∧ (d :: ds = [c] ↔ c.toNat ≠ 931 ∧ lowerChar c = [c]) := by
  by_cases hsigma : c.toNat = 931
  · have hc : c = 'Σ' := by
      rw [← Char.ofNat_toNat c, hsigma]
    rw [lowerFrom, if_pos hsigma]
    subst hc
    split
    · exact ⟨'ς', [], _, rfl, by decide⟩
    · exact ⟨'σ', [], _, rfl, by decide⟩
  · rw [lowerFrom, if_neg hsigma]
    obtain ⟨d, ds, hd⟩ : ∃ d ds, lowerChar c = d :: ds := by
      unfold lowerChar
      split
      · exact ⟨_, _, rfl⟩
      · split
        · exact ⟨_, _, rfl⟩
        · exact ⟨_, _, rfl⟩
    exact ⟨d, ds, _, by rw [hd], by simp [hsigma, hd]⟩

theorem length_le_lowerFrom
    (inWord : Bool)
    (t : Text) :
    t.length ≤ (lowerFrom inWord t).length := by
  induction t generalizing inWord with
  | nil =>
      exact Nat.zero_le _
  | cons c r ih =>
      obtain ⟨d, ds, inWord', heq, -⟩ := exists_lowerFrom_cons inWord c r
      have hrest := ih inWord'
      rw [heq, List.length_append, List.length_cons, List.length_cons]
      omega

/-- A text is in lower case just if each of its characters is, wherever it stands. -/
theorem lowerFrom_eq_self_iff
    {inWord : Bool}
    {t : Text} :
    lowerFrom inWord t = t ↔ ∀ c ∈ t, c.toNat ≠ 931 ∧ lowerChar c = [c] := by
  induction t generalizing inWord with
  | nil =>
      simp [lowerFrom]
  | cons c r ih =>
      obtain ⟨d, ds, inWord', heq, hc⟩ := exists_lowerFrom_cons inWord c r
      rw [heq, List.forall_mem_cons, ← hc, ← @ih inWord']
      constructor
      · intro h
        -- No text gets shorter in lower case, so nothing is left for more than one character.
        have hlength := congrArg List.length h
        have hrest := length_le_lowerFrom inWord' r
        rw [List.length_append, List.length_cons, List.length_cons] at hlength
        have hds : ds = [] := List.length_eq_zero_iff.1 (by omega)
        subst hds
        obtain ⟨hd, hr⟩ := List.cons.inj h
        exact ⟨by rw [hd], hr⟩
      · rintro ⟨hd, hr⟩
        rw [hd, hr]
        rfl

/-- Two texts in lower case are so with a character of lower case between them. -/
theorem lower_append_cons
    {t u : Text}
    {c : Char}
    (ht : lower t = t)
    (hc : c.toNat ≠ 931 ∧ lowerChar c = [c])
    (hu : lower u = u) :
    lower (t ++ c :: u) = t ++ c :: u := by
  refine lowerFrom_eq_self_iff.2 (fun d hd => ?_)
  rcases List.mem_append.1 hd with hd | hd
  · exact lowerFrom_eq_self_iff.1 ht d hd
  · rcases List.mem_cons.1 hd with rfl | hd
    · exact hc
    · exact lowerFrom_eq_self_iff.1 hu d hd

end Text

namespace Naming

open Text

/-- A name in Pascal case has no blanks. -/
theorem not_isBlank_of_mem_toPascal
    {name : Text}
    {c : Char}
    (h : c ∈ toPascal name) :
    isBlank c = false := by
  obtain ⟨piece, hpiece, hmem⟩ := List.mem_flatMap.1 h
  have hout : ∀ d ∈ piece, isBlank d = false := by
    intro d hd
    have hkept := mem_splitWhere hpiece d hd
    unfold separatesSegments at hkept
    exact (Bool.or_eq_false_iff.1 hkept).2
  cases piece with
  | nil =>
      cases hmem
  | cons d r =>
      rcases List.mem_append.1 hmem with hmem | hmem
      · exact not_isBlank_of_mem_upperChar (hout d List.mem_cons_self) hmem
      · exact hout c (List.mem_cons_of_mem d hmem)

theorem lineFeed_not_mem_toPascal
    (name : Text) :
    '\n' ∉ toPascal name := by
  intro h
  exact absurd (not_isBlank_of_mem_toPascal h) (by decide)

end Naming
end SchemaSpec
