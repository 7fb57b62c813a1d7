import SchemaSpec.Proofs.Text.Ends
import SchemaSpec.Text.Digit

/-!
# Decimal numbers

The digits of a number are read as the number.

* `signed_eq_iff`: an integer text is digits, with or without a sign.
* `isInteger_ofInt`: what is written for an integer is an integer text.
* `toNat_ofNat`: the digits of a natural number give it back.
* `ofInt_injective`: the text of an integer gives it back.
-/

namespace SchemaSpec
namespace Text

/-- The ten digits of the usual script. -/
def usualDigits : Text := "0123456789".toList

theorem mem_usualDigits_of_mem_ofNat
    {n : Nat}
    {c : Char}
    (h : c ∈ ofNat n) :
    c ∈ usualDigits := by
  have hdigit : c.isDigit = true := Nat.isDigit_of_mem_toDigits (by decide) (by decide) h
  simp only [Char.isDigit, Bool.and_eq_true, decide_eq_true_eq] at hdigit
  have hlow : 48 ≤ c.toNat := hdigit.1
  have hhigh : c.toNat ≤ 57 := hdigit.2
  have hc : c = Char.ofNat c.toNat := (Char.ofNat_toNat c).symm
  rw [hc]
  generalize c.toNat = n at hlow hhigh
  interval_cases n <;> decide

theorem digitValue?_of_mem_usualDigits :
    ∀ c ∈ usualDigits, digitValue? c = some (c.toNat - '0'.toNat) := by
  simpa using (by decide :
    usualDigits.all (fun c => digitValue? c == some (c.toNat - '0'.toNat)) = true)

theorem isWord_of_mem_usualDigits :
    ∀ c ∈ usualDigits, isWord c = true :=
  (by decide : IsWordRun usualDigits).2

/-- The digits of a number are a word. -/
theorem isWordRun_ofNat
    (n : Nat) :
    IsWordRun (ofNat n) :=
  ⟨Nat.toDigits_ne_nil, fun c hc => isWord_of_mem_usualDigits c (mem_usualDigits_of_mem_ofNat hc)⟩

theorem isDigits_ofNat
    (n : Nat) :
    isDigits (ofNat n) = true := by
  have hne : ofNat n ≠ [] := Nat.toDigits_ne_nil
  have hall : ∀ c ∈ ofNat n, isDigit c = true := by
    intro c hc
    simp [isDigit, digitValue?_of_mem_usualDigits c (mem_usualDigits_of_mem_ofNat hc)]
  simp only [isDigits, Bool.and_eq_true, Bool.not_eq_true', List.isEmpty_eq_false_iff,
    List.all_eq_true]
  exact ⟨hne, hall⟩

/-- Digits carry no sign. -/
theorem signed_of_isDigit
    {t : Text}
    (h : ∀ c ∈ t, isDigit c = true) :
    signed t = (false, t) := by
  unfold signed
  split
  · rename_i r
    exact absurd (h '-' List.mem_cons_self) (by decide)
  · rfl

theorem isDigits_eq_true_iff
    {t : Text} :
    isDigits t = true ↔ t ≠ [] ∧ ∀ c ∈ t, isDigit c = true := by
  simp [isDigits]

theorem signed_ofNat
    (n : Nat) :
    signed (ofNat n) = (false, ofNat n) :=
  signed_of_isDigit (isDigits_eq_true_iff.1 (isDigits_ofNat n)).2

/-- An integer text is its digits, with or without a sign. -/
theorem signed_eq_iff
    {t digits : Text}
    (h : ∀ c ∈ digits, isDigit c = true) :
    (signed t).2 = digits ↔ t = digits ∨ t = '-' :: digits := by
  constructor
  · intro ht
    unfold signed at ht
    split at ht
    · exact Or.inr (congrArg (List.cons '-') ht)
    · exact Or.inl ht
  · rintro (rfl | rfl)
    · rw [signed_of_isDigit h]
    · rfl

theorem signed_ofInt
    (n : Int) :
    signed (ofInt n) = (decide (n < 0), ofNat n.natAbs) := by
  cases n with
  | ofNat n =>
      simp [ofInt, signed_ofNat]
  | negSucc n =>
      simp [ofInt, signed, Int.negSucc_lt_zero]

/-- What is written for an integer is an integer text. -/
theorem isInteger_ofInt
    (n : Int) :
    isInteger (ofInt n) = true := by
  rw [isInteger, signed_ofInt]
  exact isDigits_ofNat _

theorem foldl_digitValue
    {t : Text}
    (h : ∀ c ∈ t, c ∈ usualDigits)
    (n : Nat) :
    t.foldl (fun n c => 10 * n + (digitValue? c).getD 0) n = Nat.ofDigitChars 10 t n := by
  induction t generalizing n with
  | nil =>
      simp
  | cons c t ih =>
      rw [List.foldl_cons, Nat.ofDigitChars_cons,
        digitValue?_of_mem_usualDigits c (h c List.mem_cons_self)]
      exact ih (fun d hd => h d (List.mem_cons_of_mem _ hd)) _

/-- The digits of a natural number give it back. -/
theorem toNat_ofNat
    (n : Nat) :
    toNat (ofNat n) = n := by
  rw [toNat, foldl_digitValue (fun _ hc => mem_usualDigits_of_mem_ofNat hc)]
  exact Nat.ofDigitChars_ten_toDigits

/-- Different integers are written differently. -/
theorem ofInt_injective :
    Function.Injective ofInt := by
  intro m n h
  have hsigned := congrArg signed h
  rw [signed_ofInt, signed_ofInt, Prod.mk.injEq, decide_eq_decide] at hsigned
  have habs := congrArg toNat hsigned.2
  rw [toNat_ofNat, toNat_ofNat] at habs
  omega

end Text
end SchemaSpec
