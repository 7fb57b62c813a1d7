import SchemaSpec.Proofs.Text.Cuts
import SchemaSpec.Proofs.Options.Literals
import SchemaSpec.Proofs.Options.Tails

/-!
# Recognising literals

A raw value is taken for a string if it has the same quote at its two ends.  That is so of every
string literal, but also of other expressions: of strings put together with an operator, and of a
string that its last quote does not close.

* `IsString`: one complete string literal.
* `IsLiteralText`: the texts that are literals.
* `IsFramed`: the texts that are taken for strings.
* `asLiteral_eq_none_iff`: the raw values that are no literals to a reader.
-/

namespace SchemaSpec
namespace Options

open Text

/-- What stands behind the first quote that no backslash escapes. -/
def behindQuote? (quote : Char) : Text → Option Text
  | [] => none
  | '\\' :: _ :: r => behindQuote? quote r
  | c :: r => if c = quote then some r else behindQuote? quote r

/-- A text is one complete string literal: it starts with a quote, and the next one that no
backslash escapes is its last character. -/
def IsString : Text → Prop
  | [] => False
  | q :: r => isQuote q = true ∧ behindQuote? q r = some []

instance (t : Text) : Decidable (IsString t) :=
  match t with
  | [] => inferInstanceAs (Decidable False)
  | q :: r => inferInstanceAs (Decidable (isQuote q = true ∧ behindQuote? q r = some []))

/-- A text that is a literal: a boolean, a decimal integer, a decimal fraction or a string. -/
def IsLiteralText (t : Text) : Prop :=
  t = "true".toList ∨ t = "false".toList ∨ isInteger t = true ∨ isFraction t = true ∨ IsString t

instance (t : Text) : Decidable (IsLiteralText t) := by
  unfold IsLiteralText
  infer_instance

/-- A text with the same quote at its two ends. -/
def IsFramed (t : Text) : Prop :=
  ∃ q body, isQuote q = true ∧ t = q :: (body ++ [q])

section Frames

variable {q : Char} {t u raw : Text}

theorem append_of_behindQuote?
    (h : behindQuote? q t = some u) :
    ∃ body, t = body ++ q :: u := by
  fun_induction behindQuote? q t with
  | case1 =>
      cases h
  | case2 c r ih =>
      obtain ⟨body, rfl⟩ := ih h
      exact ⟨'\\' :: c :: body, rfl⟩
  | case3 r hescape =>
      cases h
      exact ⟨[], rfl⟩
  | case4 c r hescape hc ih =>
      obtain ⟨body, rfl⟩ := ih h
      exact ⟨c :: body, rfl⟩

/-- A string literal has the same quote at its two ends. -/
theorem IsString.isFramed
    (h : IsString t) :
    IsFramed t := by
  cases t with
  | nil =>
      cases h
  | cons q r =>
      obtain ⟨hq, hlast⟩ := h
      obtain ⟨body, rfl⟩ := append_of_behindQuote? hlast
      exact ⟨q, body, hq, rfl⟩

theorem ends?_eq_some_iff
    {e : Char} :
    ends? t = some (q, u, e) ↔ t = q :: (u ++ [e]) := by
  constructor
  · intro h
    unfold ends? at h
    split at h
    · rename_i c d r
      cases h
      rw [List.dropLast_concat_getLast]
    · cases h
  · rintro rfl
    cases u with
    | nil =>
        rfl
    | cons c r =>
        have hdrop : (c :: (r ++ [e])).dropLast = c :: r := by
          rw [← List.cons_append, List.dropLast_concat]
        simp [ends?, hdrop]

/-- The texts with the same quote at their two ends are those that are read as strings. -/
theorem unquote_eq_none_iff :
    unquote raw = none ↔ ¬ IsFramed (trim raw) := by
  unfold unquote
  cases hends : ends? (trim raw) with
  | none =>
      refine iff_of_true rfl ?_
      rintro ⟨q, body, -, hframe⟩
      rw [ends?_eq_some_iff.2 hframe] at hends
      cases hends
  | some parts =>
      obtain ⟨q, body, e⟩ := parts
      dsimp only
      by_cases hquotes : (isQuote q && e == q) = true
      · rw [if_pos hquotes]
        rw [Bool.and_eq_true, beq_iff_eq] at hquotes
        obtain ⟨hq, rfl⟩ := hquotes
        exact iff_of_false (by simp) (fun hno => hno ⟨e, body, hq, ends?_eq_some_iff.1 hends⟩)
      · rw [if_neg hquotes]
        refine iff_of_true rfl ?_
        rintro ⟨p, inner, hp, hframe⟩
        rw [ends?_eq_some_iff.2 hframe] at hends
        cases hends
        exact hquotes (by simp [hp])

end Frames

section Values

variable {t raw : Text}

/-- A text with quotes at its ends is no number. -/
theorem IsFramed.not_number
    (h : IsFramed t) :
    isInteger t = false ∧ isFraction t = false := by
  obtain ⟨q, body, hq, rfl⟩ := h
  have hfacts : isDigit q = false ∧ q ≠ '-' := by
    unfold isQuote at hq
    rw [Bool.or_eq_true, beq_iff_eq, beq_iff_eq] at hq
    rcases hq with rfl | rfl <;> decide
  have hsigned : signed (q :: (body ++ [q])) = (false, q :: (body ++ [q])) := by
    unfold signed
    split
    · rename_i heq
      exact absurd (List.cons_eq_cons.1 heq).1 hfacts.2
    · rfl
  have hdigits : ∀ r, isDigits (q :: r) = false := by
    intro r
    simp [isDigits, hfacts.1]
  have hpoint : fractionParts? (q :: (body ++ [q])) = none := by
    unfold fractionParts?
    cases hcut : cutAt? ['.'] (q :: (body ++ [q])) with
    | none =>
        rfl
    | some cut =>
        obtain ⟨front, places⟩ := cut
        have hwhole := eq_of_cutAt? hcut
        have hfront : isDigits front = false := by
          cases front with
          | nil =>
              rfl
          | cons c r =>
              rw [← (List.cons_eq_cons.1 hwhole).1]
              exact hdigits r
        simp [hfront]
  rw [isInteger, isFraction, hsigned, hdigits, hpoint]
  exact ⟨rfl, rfl⟩

/-- Of the literals, the strings have quotes at their ends. -/
theorem IsLiteralText.isString
    (h : IsLiteralText t)
    (hframe : IsFramed t) :
    IsString t := by
  have hword : ∀ w : Text, w.head?.any isQuote = false → ¬ IsFramed w := by
    rintro w hw ⟨q, body, hq, rfl⟩
    rw [List.head?_cons, Option.any_some, hq] at hw
    cases hw
  rcases h with rfl | rfl | hwhole | hreal | hstring
  · exact absurd hframe (hword _ (by decide))
  · exact absurd hframe (hword _ (by decide))
  · rw [hframe.not_number.1] at hwhole
    cases hwhole
  · rw [hframe.not_number.2] at hreal
    cases hreal
  · exact hstring

theorem fractionValue?_eq_none_iff :
    fractionValue? t = none ↔ isFraction t = false := by
  unfold fractionValue? isFraction
  rw [Option.map_eq_none_iff, Option.isSome_eq_false_iff, Option.isNone_iff_eq_none]

/-- A raw value without quotes at its ends is read as nothing exactly if it is no literal. -/
theorem asLiteral_eq_none_iff :
    asLiteral raw = .ok none ↔ ¬ IsFramed (trim raw) ∧ ¬ IsLiteralText (trim raw) := by
  have hunquote : unquote (trim raw) = none ↔ ¬ IsFramed (trim raw) := by
    rw [unquote_eq_none_iff, trim_trim]
  unfold asLiteral
  dsimp only
  cases hread : unquote (trim raw) with
  | some s =>
      rw [hread] at hunquote
      exact iff_of_false (by simp) (fun hno => by simp [hno.1] at hunquote)
  | none =>
      have hframe : ¬ IsFramed (trim raw) := hunquote.1 hread
      rw [and_iff_right hframe]
      unfold asFlag
      by_cases htrue : trim raw = "true".toList
      · rw [if_pos htrue, htrue]
        exact iff_of_false (by simp) (fun hno => hno (Or.inl rfl))
      by_cases hfalse : trim raw = "false".toList
      · rw [if_neg htrue, if_pos hfalse, hfalse]
        exact iff_of_false (by simp) (fun hno => hno (Or.inr (Or.inl rfl)))
      rw [if_neg htrue, if_neg hfalse]
      dsimp only
      by_cases hwhole : isInteger (trim raw) = true
      · rw [if_pos hwhole]
        refine iff_of_false ?_ (fun hno => hno (Or.inr (Or.inr (Or.inl hwhole))))
        cases integerValue (trim raw) <;> simp [Except.map]
      have hstring : ¬ IsString (trim raw) := fun h => hframe h.isFramed
      rw [if_neg hwhole, Except.ok.injEq, Option.map_eq_none_iff, fractionValue?_eq_none_iff,
        ← Bool.not_eq_true]
      simp only [IsLiteralText, htrue, hfalse, hwhole, hstring, Bool.false_eq_true, false_or,
        or_false]

end Values

end Options
end SchemaSpec
