import SchemaSpec.Proofs.Text.Ends

/-!
# Identifiers

* `not_mem_of_isIdentifier`: which characters an identifier has none of.
* `isIdentifier_dropFinalLineFeed_iff`: the texts that pass for identifiers where one final line feed
  is left aside.
-/

namespace SchemaSpec
namespace Text

/-- Whether a character may stand in an identifier: an ASCII letter, digit or underscore. -/
def isIdentifierChar (c : Char) : Bool :=
  c.isAlphanum || c == '_'

variable {t : Text} {c : Char}

theorem isIdentifierChar_of_mem
    (h : isIdentifier t = true)
    (hc : c ∈ t) :
    isIdentifierChar c = true := by
  cases t with
  | nil =>
      cases h
  | cons d r =>
      unfold isIdentifier startsIdentifier at h
      obtain ⟨hd, hr⟩ := Bool.and_eq_true_iff.1 h
      rcases List.mem_cons.1 hc with rfl | hc
      · unfold isIdentifierChar Char.isAlphanum
        rcases Bool.or_eq_true_iff.1 hd with halpha | hline
        · simp [halpha]
        · simp [hline]
      · exact List.all_eq_true.1 hr c hc

theorem not_mem_of_isIdentifier
    (h : isIdentifier t = true)
    (hc : isIdentifierChar c = false) :
    c ∉ t := by
  intro hmem
  rw [isIdentifierChar_of_mem h hmem] at hc
  cases hc

/-- With one final line feed left aside, a text passes for an identifier if it is one, or is one with
a line feed behind it. -/
theorem isIdentifier_dropFinalLineFeed_iff :
    isIdentifier (dropFinalLineFeed t) = true
      ↔ isIdentifier t = true ∨ ∃ name, t = name ++ ['\n'] ∧ isIdentifier name = true := by
  constructor
  · intro h
    obtain ⟨feed, heq, rfl | rfl⟩ := exists_dropFinalLineFeed_append t
    · rw [List.append_nil] at heq
      exact Or.inl (heq ▸ h)
    · exact Or.inr ⟨_, heq, h⟩
  · rintro (h | ⟨name, rfl, h⟩)
    · have hlast : t.getLast? ≠ some '\n' := fun hlast =>
        not_mem_of_isIdentifier h (by decide) (List.mem_of_getLast? hlast)
      rwa [dropFinalLineFeed_eq_self hlast]
    · rwa [dropFinalLineFeed_append_lineFeed]

end Text
end SchemaSpec
