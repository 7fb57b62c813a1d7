import SchemaSpec.Proofs.Options.Recognition
import SchemaSpec.Proofs.Listing.Arrangement

/-!
# Defaults of columns

A default option that is no literal leaves a column without a default, and says nothing in its
metadata either.

* `IsDropped`: the raw values that do not get into a column.
* `literal_or_dropped_iff`: whatever is no literal is dropped, unless it has quotes at its ends.
* `expression_read_as_string`: two strings put together are read as one.
-/

namespace SchemaSpec
namespace Column

open Text Options

/-- A raw value that is read as nothing, and that neither the default nor the metadata of a column
shows whose default option it is. -/
def IsDropped (raw : Text) : Prop :=
  asLiteral raw = .ok none
    ∧ ∀ block line kind name tail, columnParts? block line = some (kind, name, tail) →
      get? "default".toList (parse tail) = some raw →
      ∃ fields, ofLine block line = .ok fields ∧ ∀ f ∈ fields, f.default = none
        ∧ f.metadata = (shownFacts kind name (parse tail) none).comment?

/-- What is read as nothing gets into no column. -/
theorem isDropped_of_asLiteral
    {raw : Text}
    (h : asLiteral raw = .ok none) :
    IsDropped raw := by
  refine ⟨h, fun block line kind name tail hparts hget => ?_⟩
  have hdefault : default? (parse tail) = .ok none := by
    rw [default?, hget]
    exact h
  rw [ofLine_of_columnParts? hparts]
  by_cases hkind : kind ∈ directives
  · have hcontains : directives.contains kind = true := by simpa using hkind
    exact ⟨[], if_pos hcontains, fun f hf => by cases hf⟩
  · obtain ⟨f, hfields, hf⟩ := exists_isColumn (nodup_parse tail) hkind name hdefault
    have hnone : f.default = none :=
      (Except.ok.inj (hdefault.symm.trans hf.default_eq)).symm
    refine ⟨[f], hfields, fun g hg => ?_⟩
    rw [List.mem_singleton.1 hg]
    exact ⟨hnone, hnone ▸ hf.metadata_eq⟩

/-- A raw value is a literal, or it is dropped, exactly if it is a string whenever it has the same
quote at its two ends. -/
theorem literal_or_dropped_iff
    (raw : Text) :
    IsLiteralText (trim raw) ∨ IsDropped raw
      ↔ (IsFramed (trim raw) → IsString (trim raw)) := by
  constructor
  · rintro (hliteral | hdropped) hframe
    · exact hliteral.isString hframe
    · exact absurd hframe (asLiteral_eq_none_iff.1 hdropped.1).1
  · intro hstring
    by_cases hliteral : IsLiteralText (trim raw)
    · exact Or.inl hliteral
    · have hframe : ¬ IsFramed (trim raw) := fun hframe =>
        hliteral (Or.inr (Or.inr (Or.inr (Or.inr (hstring hframe)))))
      exact Or.inr (isDropped_of_asLiteral (asLiteral_eq_none_iff.2 ⟨hframe, hliteral⟩))

/-- Two strings put together are no literal, but they are read as one string, and so is a string
that its last quote does not close. -/
theorem expression_read_as_string :
    ¬ IsLiteralText "\"a\" + \"b\"".toList
      ∧ asLiteral "\"a\" + \"b\"".toList = .ok (some (.text "a\" + \"b".toList))
      ∧ ofLine "t".toList "t.string \"x\", default: \"a\" + \"b\"".toList
        = .ok [{
            name := "x".toList
            typeName := "string".toList
            metadata := some "default: \"a\\\" + \\\"b\"".toList
            default := some (.text "a\" + \"b".toList) }]
      ∧ ¬ IsLiteralText "'a\\'".toList
      ∧ asLiteral "'a\\'".toList = .ok (some (.text "a\\".toList)) := by
  decide +kernel

end Column
end SchemaSpec
