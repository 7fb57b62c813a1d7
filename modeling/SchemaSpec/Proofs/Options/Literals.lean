import SchemaSpec.Proofs.Text.Digits
import SchemaSpec.Options.Literal

/-!
# When a raw value has no reading

Reading a raw value as a literal goes wrong in one way: an integer with too many digits.

* `unquote_eq_none`, `asFlag_of_isInteger`: an integer is read as nothing else.
* `IsOversized`, `asLiteral_eq_error_iff`: the only failure, and what it says.
-/

namespace SchemaSpec
namespace Options

open Text

/-- An integer text of a number of digits, more than a literal may have. -/
def IsOversized (t : Text) (n : Nat) : Prop :=
  ∃ digits, digits.length = n ∧ digitLimit < n ∧ (∀ c ∈ digits, isDigit c = true)
    ∧ (t = digits ∨ t = '-' :: digits)

/-- A text that starts with no quote is no string literal. -/
theorem unquote_eq_none
    {v : Text}
    (htrim : trim v = v)
    (h : ∀ c, v.head? = some c → isQuote c = false) :
    unquote v = none := by
  unfold unquote
  rw [htrim]
  cases v with
  | nil =>
      rfl
  | cons c r =>
      cases r with
      | nil =>
          rfl
      | cons d r =>
          simp [ends?, h c rfl]

section Integers

variable {t : Text}

/-- The characters of an integer text are digits, but for the sign. -/
theorem isDigit_or_eq_of_isInteger
    (h : isInteger t = true)
    {c : Char}
    (hc : c ∈ t) :
    isDigit c = true ∨ c = '-' := by
  have hdigits := (isDigits_eq_true_iff.1 h).2
  rcases (signed_eq_iff hdigits).1 rfl with ht | ht
  · rw [ht] at hc
    exact Or.inl (hdigits c hc)
  · rw [ht] at hc
    rcases List.mem_cons.1 hc with hsign | hc
    · exact Or.inr hsign
    · exact Or.inl (hdigits c hc)

/-- A character that is neither a digit nor the sign stands in no integer text. -/
theorem not_mem_of_isInteger
    (h : isInteger t = true)
    {c : Char}
    (hc : isDigit c = false ∧ c ≠ '-') :
    c ∉ t := by
  intro hmem
  rcases isDigit_or_eq_of_isInteger h hmem with hdigit | hsign
  · rw [hc.1] at hdigit
    cases hdigit
  · exact hc.2 hsign

/-- An integer text is not one of the two booleans. -/
theorem asFlag_of_isInteger
    (h : isInteger t = true) :
    asFlag t = none := by
  have htrue : t ≠ "true".toList := by
    rintro rfl
    exact not_mem_of_isInteger h (c := 'e') (by decide) (by decide)
  have hfalse : t ≠ "false".toList := by
    rintro rfl
    exact not_mem_of_isInteger h (c := 'e') (by decide) (by decide)
  rw [asFlag, if_neg htrue, if_neg hfalse]

/-- An integer text is no string literal. -/
theorem unquote_of_isInteger
    (htrim : trim t = t)
    (h : isInteger t = true) :
    unquote t = none := by
  refine unquote_eq_none htrim (fun c hc => ?_)
  have hdouble := not_mem_of_isInteger h (c := '\x22') (by decide)
  have hsingle := not_mem_of_isInteger h (c := '\x27') (by decide)
  have hmem : c ∈ t := List.mem_of_mem_head? hc
  unfold isQuote
  rw [Bool.or_eq_false_iff, beq_eq_false_iff_ne, beq_eq_false_iff_ne]
  exact ⟨fun heq => hdouble (heq ▸ hmem), fun heq => hsingle (heq ▸ hmem)⟩

theorem integerValue_eq_error_iff
    (h : isInteger t = true)
    {e : LiteralError} :
    integerValue t = .error e ↔ IsOversized t e.digits := by
  have hdigits := (isDigits_eq_true_iff.1 h).2
  unfold integerValue
  dsimp only
  constructor
  · intro herror
    split at herror
    · rename_i hlimit
      cases herror
      exact ⟨(signed t).2, rfl, hlimit, hdigits, (signed_eq_iff hdigits).1 rfl⟩
    · cases herror
  · rintro ⟨digits, hlength, hlimit, hall, ht⟩
    rw [(signed_eq_iff hall).2 ht, hlength, if_pos hlimit]

/-- An oversized integer is an integer. -/
theorem IsOversized.isInteger
    {n : Nat}
    (h : IsOversized t n) :
    isInteger t = true := by
  obtain ⟨digits, hlength, hlimit, hdigits, ht⟩ := h
  rw [Text.isInteger, (signed_eq_iff hdigits).2 ht, isDigits_eq_true_iff]
  refine ⟨?_, hdigits⟩
  rintro rfl
  rw [← hlength] at hlimit
  cases hlimit

end Integers

/-- A raw value is read as a literal or as none, unless it is an oversized integer. -/
theorem asLiteral_eq_error_iff
    {raw : Text}
    {e : LiteralError} :
    asLiteral raw = .error e ↔ IsOversized (trim raw) e.digits := by
  by_cases hinteger : isInteger (trim raw) = true
  · have hvalue : asLiteral raw = (integerValue (trim raw)).map (fun n => some (.whole n)) := by
      unfold asLiteral
      simp only [unquote_of_isInteger (trim_trim raw) hinteger, asFlag_of_isInteger hinteger,
        hinteger, if_true]
    rw [hvalue, ← integerValue_eq_error_iff hinteger]
    cases integerValue (trim raw) <;> simp [Except.map]
  · refine ⟨fun h => ?_, fun h => absurd h.isInteger hinteger⟩
    unfold asLiteral at h
    dsimp only at h
    split at h
    · cases h
    · split at h
      · cases h
      · rw [if_neg hinteger] at h
        cases h

end Options
end SchemaSpec
