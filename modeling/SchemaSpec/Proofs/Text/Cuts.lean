import SchemaSpec.Proofs.Text.Ends

/-!
# Cutting texts at a pattern

* `eq_of_cutAt?`: a cut text, put together again.
* `cutAt?_append`, `cutAt?_of_not_mem`: a text without the first character of a pattern stands before
  the cut.
* `cutAt?_append_cons`, `hasPart_append_cons`: a character that is not in a pattern parts a text, and
  the pattern stands in one of the parts.
* `hasPart_append_blank`: blanks at the end of a text do not matter.
-/

namespace SchemaSpec
namespace Text

section Cuts

variable {c : Char} {pat front t u : Text}

/-- A cut text, put together again. -/
theorem eq_of_cutAt?
    {before behind : Text}
    (h : cutAt? pat t = some (before, behind)) :
    t = before ++ pat ++ behind := by
  induction t generalizing before with
  | nil =>
      obtain ⟨rest, hrest, hpair⟩ := Option.map_eq_some_iff.1 h
      cases hpair
      exact after?_eq_some_iff.1 hrest
  | cons c r ih =>
      unfold cutAt? at h
      split at h
      · rename_i rest hrest
        cases h
        exact after?_eq_some_iff.1 hrest
      · obtain ⟨⟨first, last⟩, hcut, hpair⟩ := Option.map_eq_some_iff.1 h
        cases hpair
        rw [ih hcut]
        rfl

theorem cutAt?_eq_none
    (h : c ∉ t) :
    cutAt? (c :: pat) t = none := by
  induction t with
  | nil =>
      rfl
  | cons d t ih =>
      simp only [List.mem_cons, not_or] at h
      rw [cutAt?, after?, if_neg (Ne.symm h.1), ih h.2]
      rfl

theorem hasPart_eq_false
    (h : c ∉ t) :
    hasPart (c :: pat) t = false := by
  rw [hasPart, cutAt?_eq_none h]
  rfl

theorem cutAt?_append
    (h : c ∉ front)
    (t : Text) :
    cutAt? (c :: pat) (front ++ t)
      = (cutAt? (c :: pat) t).map (fun cut => (front ++ cut.1, cut.2)) := by
  induction front with
  | nil =>
      simp
  | cons d front ih =>
      simp only [List.mem_cons, not_or] at h
      rw [List.cons_append, cutAt?, after?, if_neg (Ne.symm h.1), ih h.2, Option.map_map]
      rfl

/-- A text is cut where the pattern stands first. -/
theorem cutAt?_of_not_mem
    (h : c ∉ front)
    (t : Text) :
    cutAt? (c :: pat) (front ++ (c :: pat ++ t)) = some (front, t) := by
  have hhere : after? (c :: pat) (c :: pat ++ t) = some t := after?_eq_some_iff.2 rfl
  rw [List.cons_append] at hhere
  rw [cutAt?_append h, List.cons_append, cutAt?, hhere]
  simp

theorem after?_append_cons
    (h : c ∉ pat)
    (t u : Text) :
    after? pat (t ++ c :: u) = (after? pat t).map (· ++ c :: u) := by
  induction pat generalizing t with
  | nil =>
      cases t <;> rfl
  | cons o pat ih =>
      simp only [List.mem_cons, not_or] at h
      cases t with
      | nil =>
          simp [after?, h.1]
      | cons d t =>
          rw [List.cons_append, after?, after?, ih h.2]
          split <;> rfl

/-- A character that is not in a pattern parts a text: the pattern stands before it, or behind it. -/
theorem cutAt?_append_cons
    (hne : pat ≠ [])
    (h : c ∉ pat)
    (t u : Text) :
    cutAt? pat (t ++ c :: u)
      = ((cutAt? pat t).map (fun cut => (cut.1, cut.2 ++ c :: u))).or
        ((cutAt? pat u).map (fun cut => (t ++ c :: cut.1, cut.2))) := by
  have hnil : after? pat [] = none := by
    obtain ⟨o, pat, rfl⟩ := List.exists_cons_of_ne_nil hne
    rfl
  induction t with
  | nil =>
      have hhere := after?_append_cons h [] u
      rw [List.nil_append, hnil] at hhere
      have hcut : cutAt? pat (c :: u) = (cutAt? pat u).map (fun cut => (c :: cut.1, cut.2)) := by
        rw [cutAt?, hhere]
        rfl
      rw [List.nil_append, hcut, cutAt?, hnil]
      rfl
  | cons d t ih =>
      have hhere := after?_append_cons h (d :: t) u
      rw [List.cons_append] at hhere ⊢
      rw [cutAt?, cutAt?, hhere]
      cases hd : after? pat (d :: t) with
      | some rest =>
          rfl
      | none =>
          dsimp only [Option.map_none]
          rw [ih]
          cases cutAt? pat t with
          | some cut =>
              rfl
          | none =>
              simp only [Option.map_none, Option.none_or, Option.map_map]
              rfl

theorem cutAt?_of_hasPart
    (h : hasPart pat t = false) :
    cutAt? pat t = none :=
  Option.isNone_iff_eq_none.1 (Option.isSome_eq_false_iff.1 h)

theorem hasPart_append_cons
    (hne : pat ≠ [])
    (h : c ∉ pat)
    (t u : Text) :
    hasPart pat (t ++ c :: u) = (hasPart pat t || hasPart pat u) := by
  unfold hasPart
  rw [cutAt?_append_cons hne h, Option.isSome_or, Option.isSome_map, Option.isSome_map]

/-- Blanks behind a text hold no part of a pattern without blanks. -/
theorem hasPart_append_blank
    (hne : pat ≠ [])
    (h : pat.all (fun c => !isBlank c) = true)
    (hu : AllBlank u)
    (t : Text) :
    hasPart pat (t ++ u) = hasPart pat t := by
  induction u generalizing t with
  | nil =>
      rw [List.append_nil]
  | cons c u ih =>
      obtain ⟨hc, hu⟩ := List.forall_mem_cons.1 hu
      have hout : c ∉ pat := by
        intro hmem
        have hout := List.all_eq_true.1 h c hmem
        rw [hc] at hout
        cases hout
      have hnone : hasPart pat ([] : Text) = false := by
        obtain ⟨o, pat, rfl⟩ := List.exists_cons_of_ne_nil hne
        rfl
      have hblank := ih hu []
      rw [List.nil_append] at hblank
      rw [hasPart_append_cons hne hout, hblank, hnone, Bool.or_false]

end Cuts

end Text
end SchemaSpec
