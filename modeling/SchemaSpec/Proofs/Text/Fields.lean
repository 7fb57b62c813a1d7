import SchemaSpec.Proofs.Text.Ends

/-!
# Pieces between blanks

* `fields_append_cons`: a blank cuts a text in two, and each part is cut on its own.
* `fields_eq_singleton`: a text without blanks is one piece.
* `fields_blank_append`, `fields_append_blank`: blanks at the ends of a text do not matter.
-/

namespace SchemaSpec
namespace Text

section Fields

variable {c : Char} {t u gap : Text}

@[simp] theorem fields_nil :
    fields [] = [] := rfl

theorem fields_append_cons
    (hc : isBlank c = true)
    (t u : Text) :
    fields (t ++ c :: u) = fields t ++ fields u := by
  unfold fields
  rw [splitWhere_append_cons hc, List.filter_append]

theorem fields_eq_singleton
    (hne : t ≠ [])
    (h : ∀ c ∈ t, isBlank c = false) :
    fields t = [t] := by
  unfold fields
  rw [splitWhere_eq_singleton h]
  simp [hne]

theorem fields_blank_append
    (hgap : AllBlank gap)
    (t : Text) :
    fields (gap ++ t) = fields t := by
  induction gap with
  | nil =>
      rfl
  | cons c gap ih =>
      obtain ⟨hc, hrest⟩ := List.forall_mem_cons.1 hgap
      rw [List.cons_append, ← ih hrest]
      exact fields_append_cons hc [] (gap ++ t)

theorem fields_append_blank
    (hgap : AllBlank gap)
    (t : Text) :
    fields (t ++ gap) = fields t := by
  cases gap with
  | nil =>
      rw [List.append_nil]
  | cons c gap =>
      obtain ⟨hc, hrest⟩ := List.forall_mem_cons.1 hgap
      have hnone : fields (gap ++ []) = [] := fields_blank_append hrest []
      rw [List.append_nil] at hnone
      rw [fields_append_cons hc, hnone, List.append_nil]

/-- Blanks between two texts cut between them. -/
theorem fields_append_gap
    (hgap : AllBlank gap ∧ gap ≠ [])
    (t u : Text) :
    fields (t ++ gap ++ u) = fields t ++ fields u := by
  obtain ⟨c, gap, rfl⟩ := List.exists_cons_of_ne_nil hgap.2
  obtain ⟨hc, hrest⟩ := List.forall_mem_cons.1 hgap.1
  rw [List.append_assoc, List.cons_append, fields_append_cons hc, fields_blank_append hrest]

end Fields

end Text
end SchemaSpec
