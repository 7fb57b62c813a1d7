import Mathlib.Algebra.Ring.Parity
import SchemaSpec.Proofs.Text.Identifiers
import SchemaSpec.Proofs.Options.Recognition
import SchemaSpec.Document.EnumBlock

/-!
# Enum members as tokens

A value that is no identifier is put in backquotes, with a backslash before each backquote in it, but
with none before a backslash.  So a backslash of the value may escape what was to close the token.

* `IsToken`: a member that is one token.
* `PairsBackslashes`: values in which the backslashes before a backquote or the end come in pairs.
* `behindQuote?_escaped_iff`: where the backquotes of such a value end.
* `isToken_enumMember_iff`: the values whose members are one token.
* `enumMember_injective`: different values have different members, all the same.
-/

namespace SchemaSpec
namespace Document

open Text Options

/-- A member is one token: the value, if that is an identifier, or else a text in backquotes that no
backquote before the last closes.  A backslash escapes the character behind it. -/
def IsToken (value member : Text) : Prop :=
  (member = value ∧ isIdentifier value = true)
    ∨ ∃ body, member = '\x60' :: (body ++ ['\x60'])
      ∧ behindQuote? '\x60' (body ++ ['\x60']) = some []

/-- The number of backslashes at the end of a text. -/
def backslashes (t : Text) : Nat :=
  (t.rtakeWhile (fun c => c == '\\')).length

/-- Where a value ends, and before each backquote in it, the number of backslashes is even. -/
def PairsBackslashes (value : Text) : Prop :=
  ∀ front rest, value = front ++ rest → (rest = [] ∨ rest.head? = some '\x60') →
    Even (backslashes front)

/-- A value with a backslash before each backquote in it. -/
def escaped (value : Text) : Text :=
  value.flatMap (fun c => if c = '\x60' then ['\\', '\x60'] else [c])

section Escapes

variable {q c : Char} {t u v w : Text}

@[simp] theorem escaped_nil : escaped [] = [] := rfl

@[simp] theorem escaped_backquote_cons :
    escaped ('\x60' :: v) = '\\' :: '\x60' :: escaped v := rfl

theorem escaped_cons
    (hc : c ≠ '\x60') :
    escaped (c :: v) = c :: escaped v := by
  simp [escaped, hc]

/-- No escaped text starts with a backquote. -/
theorem head?_escaped_ne
    (v : Text) :
    (escaped v).head? ≠ some '\x60' := by
  cases v with
  | nil =>
      simp
  | cons c v =>
      by_cases hc : c = '\x60'
      · simp [hc]
      · simp [escaped_cons hc, hc]

/-- An escaped text is read back from its front: a backslash with a backquote behind it is the escape
of that backquote. -/
theorem escaped_injective
    (h : escaped v = escaped w) :
    v = w := by
  induction v generalizing w with
  | nil =>
      cases w with
      | nil =>
          rfl
      | cons d w =>
          by_cases hd : d = '\x60' <;> simp [escaped, hd] at h
  | cons c v ih =>
      cases w with
      | nil =>
          by_cases hc : c = '\x60' <;> simp [escaped, hc] at h
      | cons d w =>
          by_cases hc : c = '\x60' <;> by_cases hd : d = '\x60'
          · subst hc hd
            simp only [escaped_backquote_cons, List.cons.injEq, true_and] at h
            rw [ih h]
          · subst hc
            rw [escaped_backquote_cons, escaped_cons hd, List.cons.injEq] at h
            exact absurd (by rw [← h.2]; rfl) (head?_escaped_ne w)
          · subst hd
            rw [escaped_backquote_cons, escaped_cons hc, List.cons.injEq] at h
            exact absurd (by rw [h.2]; rfl) (head?_escaped_ne v)
          · rw [escaped_cons hc, escaped_cons hd, List.cons.injEq] at h
            rw [h.1, ih h.2]

end Escapes

section Closing

variable {q c : Char} {t u v : Text}

theorem behindQuote?_cons
    (hc : c ≠ '\\') :
    behindQuote? q (c :: t) = if c = q then some t else behindQuote? q t := by
  rw [behindQuote?]
  intro d r h _
  exact absurd h hc

theorem backslashes_concat_backslash
    (t : Text) :
    backslashes (t ++ ['\\']) = backslashes t + 1 := by
  simp [backslashes, List.rtakeWhile_concat_pos]

theorem backslashes_concat
    (hc : c ≠ '\\')
    (t : Text) :
    backslashes (t ++ [c]) = 0 := by
  rw [backslashes, List.rtakeWhile_concat_neg _ _ _ (by simpa using hc)]
  rfl

/-- Behind a text, the backslashes of a value come in pairs where it ends and before its backquotes. -/
def PairsBehind (front value : Text) : Prop :=
  ∀ t rest, value = t ++ rest → (rest = [] ∨ rest.head? = some '\x60') →
    Even (backslashes (front ++ t))

theorem pairsBehind_nil :
    PairsBehind t [] ↔ Even (backslashes t) := by
  constructor
  · intro h
    have hend := h [] [] rfl (Or.inl rfl)
    rwa [List.append_nil] at hend
  · intro h u rest heq _
    rw [(List.append_eq_nil_iff.1 heq.symm).1, List.append_nil]
    exact h

theorem pairsBehind_cons :
    PairsBehind t (c :: v)
      ↔ (c = '\x60' → Even (backslashes t)) ∧ PairsBehind (t ++ [c]) v := by
  constructor
  · intro h
    refine ⟨fun hc => ?_, fun u rest heq hrest => ?_⟩
    · have hstart := h [] (c :: v) rfl (Or.inr (by rw [hc]; rfl))
      rwa [List.append_nil] at hstart
    · have hlater := h (c :: u) rest (by rw [heq]; rfl) hrest
      rwa [List.append_cons] at hlater
  · rintro ⟨hhere, hlater⟩ u rest heq hrest
    cases u with
    | nil =>
        rw [List.nil_append] at heq
        rw [List.append_nil]
        refine hhere ?_
        rw [← heq] at hrest
        simpa using hrest
    | cons d u =>
        obtain ⟨rfl, rfl⟩ := List.cons_eq_cons.1 heq
        rw [List.append_cons]
        exact hlater u rest rfl hrest

/-- The backslash without a partner at the end of a text, if there is one. -/
def unpaired (t : Text) : Text :=
  if Even (backslashes t) then [] else ['\\']

theorem unpaired_of_even
    (h : Even (backslashes t)) :
    unpaired t = [] :=
  if_pos h

theorem unpaired_of_odd
    (h : ¬ Even (backslashes t)) :
    unpaired t = ['\\'] :=
  if_neg h

theorem unpaired_concat
    (hc : c ≠ '\\')
    (t : Text) :
    unpaired (t ++ [c]) = [] :=
  unpaired_of_even (by simp [backslashes_concat hc])

/-- A backslash is the partner of the one before it, or waits for one. -/
theorem behindQuote?_unpaired_backslash
    (front t : Text) :
    behindQuote? q (unpaired front ++ '\\' :: t)
      = behindQuote? q (unpaired (front ++ ['\\']) ++ t) := by
  by_cases heven : Even (backslashes front)
  · have hodd : ¬ Even (backslashes (front ++ ['\\'])) := by
      rwa [backslashes_concat_backslash, Nat.even_add_one, not_not]
    rw [unpaired_of_even heven, unpaired_of_odd hodd]
    rfl
  · have hpaired : Even (backslashes (front ++ ['\\'])) := by
      rwa [backslashes_concat_backslash, Nat.even_add_one]
    rw [unpaired_of_odd heven, unpaired_of_even hpaired]
    rfl

/-- An unpaired backslash is read with the one that is to escape a backquote. -/
theorem behindQuote?_unpaired_backquote
    (front t : Text) :
    behindQuote? '\x60' (unpaired front ++ '\\' :: '\x60' :: t)
      = if Even (backslashes front) then behindQuote? '\x60' t else some t := by
  by_cases heven : Even (backslashes front)
  · rw [unpaired_of_even heven, if_pos heven]
    rfl
  · rw [unpaired_of_odd heven, if_neg heven]
    rfl

/-- An unpaired backslash before any other character changes nothing. -/
theorem behindQuote?_unpaired_cons
    (hback : c ≠ '\\')
    (hquote : c ≠ q)
    (front t : Text) :
    behindQuote? q (unpaired front ++ c :: t) = behindQuote? q t := by
  by_cases heven : Even (backslashes front)
  · rw [unpaired_of_even heven, List.nil_append, behindQuote?_cons hback, if_neg hquote]
  · rw [unpaired_of_odd heven]
    rfl

/-- The backquotes around a value end with the last of them if backslashes come in pairs.  Of the text
before the value, an unpaired backslash at its end matters. -/
theorem behindQuote?_escaped_iff
    (front value : Text) :
    behindQuote? '\x60' (unpaired front ++ (escaped value ++ ['\x60'])) = some []
      ↔ PairsBehind front value := by
  induction value generalizing front with
  | nil =>
      rw [pairsBehind_nil]
      by_cases heven : Even (backslashes front)
      · rw [unpaired_of_even heven]
        exact iff_of_true rfl heven
      · rw [unpaired_of_odd heven]
        exact iff_of_false (by simp [behindQuote?]) heven
  | cons c v ih =>
      have hrest := ih (front ++ [c])
      rw [pairsBehind_cons, ← hrest]
      by_cases hback : c = '\\'
      · subst hback
        rw [escaped_cons (by decide), List.cons_append, behindQuote?_unpaired_backslash]
        exact ⟨fun h => ⟨fun hc => absurd hc (by decide), h⟩, fun h => h.2⟩
      rw [unpaired_concat hback, List.nil_append]
      by_cases hquote : c = '\x60'
      · subst hquote
        rw [escaped_backquote_cons, List.cons_append, List.cons_append,
          behindQuote?_unpaired_backquote]
        by_cases heven : Even (backslashes front)
        · rw [if_pos heven]
          exact ⟨fun h => ⟨fun _ => heven, h⟩, fun h => h.2⟩
        · rw [if_neg heven]
          exact iff_of_false (by simp) (fun h => heven (h.1 rfl))
      · rw [escaped_cons hquote, List.cons_append, behindQuote?_unpaired_cons hback hquote]
        exact ⟨fun h => ⟨fun hc => absurd hc hquote, h⟩, fun h => h.2⟩

end Closing

section Members

variable {v w : Text}

theorem pairsBehind_empty_iff :
    PairsBehind [] v ↔ PairsBackslashes v :=
  Iff.rfl

theorem enumMember_eq
    (v : Text) :
    enumMember v
      = if isIdentifier (dropFinalLineFeed v) then v else '\x60' :: (escaped v ++ ['\x60']) :=
  rfl

/-- Where there are no backslashes, they come in pairs. -/
theorem pairsBackslashes_of_not_mem
    (h : '\\' ∉ v) :
    PairsBackslashes v := by
  rintro front rest rfl _
  have hnone : front.rtakeWhile (fun c => c == '\\') = [] := by
    rw [List.rtakeWhile_eq_nil_iff]
    intro hne hlast
    exact h (List.mem_append_left _ (beq_iff_eq.1 hlast ▸ List.getLast_mem hne))
  simp [backslashes, hnone]

/-- A member is one token, unless a backslash of the value escapes what closes it, or the value is an
identifier with a line feed behind it. -/
theorem isToken_enumMember_iff :
    IsToken v (enumMember v)
      ↔ PairsBackslashes v ∧ ¬ ∃ name, v = name ++ ['\n'] ∧ isIdentifier name = true := by
  rw [enumMember_eq]
  by_cases hplain : isIdentifier (dropFinalLineFeed v) = true
  · rw [if_pos hplain]
    rcases isIdentifier_dropFinalLineFeed_iff.1 hplain with hv | ⟨name, rfl, hname⟩
    · refine iff_of_true (Or.inl ⟨rfl, hv⟩)
        ⟨pairsBackslashes_of_not_mem (not_mem_of_isIdentifier hv (by decide)), ?_⟩
      rintro ⟨name, rfl, -⟩
      exact not_mem_of_isIdentifier hv (by decide : isIdentifierChar '\n' = false) (by simp)
    · refine iff_of_false ?_ (fun h => h.2 ⟨name, rfl, hname⟩)
      rintro (⟨-, hv⟩ | ⟨body, heq, -⟩)
      · exact not_mem_of_isIdentifier hv (by decide : isIdentifierChar '\n' = false) (by simp)
      · have hquote : '\x60' ∈ name ++ ['\n'] := by
          rw [heq]
          exact List.mem_cons_self
        rcases List.mem_append.1 hquote with hquote | hquote
        · exact not_mem_of_isIdentifier hname (by decide) hquote
        · exact absurd (List.mem_singleton.1 hquote) (by decide)
  · rw [if_neg hplain]
    have hno := mt isIdentifier_dropFinalLineFeed_iff.2 hplain
    rw [not_or] at hno
    rw [and_iff_left hno.2, ← pairsBehind_empty_iff, ← behindQuote?_escaped_iff]
    constructor
    · rintro (⟨-, hv⟩ | ⟨body, heq, hbody⟩)
      · exact absurd hv hno.1
      · rwa [← (List.cons_eq_cons.1 heq).2] at hbody
    · exact fun h => Or.inr ⟨escaped v, rfl, h⟩

/-- Different values have different members. -/
theorem enumMember_injective
    (h : enumMember v = enumMember w) :
    v = w := by
  -- What stands as it is starts with no backquote.
  have hhead : ∀ {t u : Text}, isIdentifier (dropFinalLineFeed t) = true → t ≠ '\x60' :: u := by
    rintro t u ht rfl
    cases u with
    | nil =>
        exact absurd ht (by decide)
    | cons d u =>
        exact absurd ht (by simp [dropFinalLineFeed, isIdentifier, startsIdentifier])
  rw [enumMember_eq, enumMember_eq] at h
  split_ifs at h with hv hw hw
  · exact h
  · exact absurd h (hhead hv)
  · exact absurd h.symm (hhead hw)
  · exact escaped_injective (List.append_cancel_right (List.cons_eq_cons.1 h).2)

end Members

/-- The member of a value is one token exactly if backslashes come in pairs in the value where it ends
and before its backquotes, and it is no identifier with a line feed behind it.  Members of different
values differ in any case. -/
theorem enumMember_isToken_iff
    (v : Text) :
    (IsToken v (enumMember v)
        ↔ PairsBackslashes v ∧ ¬ ∃ name, v = name ++ ['\n'] ∧ isIdentifier name = true)
      ∧ ∀ w, enumMember v = enumMember w → v = w :=
  ⟨isToken_enumMember_iff, fun _ => enumMember_injective⟩

/-- A value that ends with a backslash leaves its member open, and an identifier with a line feed
behind it is not put in backquotes. -/
theorem enumMember_left_open :
    enumMember "a\\".toList = "\x60a\\\x60".toList
      ∧ ¬ IsToken "a\\".toList (enumMember "a\\".toList)
      ∧ enumMember "a\n".toList = "a\n".toList
      ∧ ¬ IsToken "a\n".toList (enumMember "a\n".toList) := by
  refine ⟨by decide, fun h => ?_, by decide, fun h => ?_⟩
  · have hpairs := (isToken_enumMember_iff.1 h).1 "a\\".toList [] rfl (Or.inl rfl)
    exact absurd hpairs (by decide)
  · exact (isToken_enumMember_iff.1 h).2 ⟨['a'], by decide, by decide⟩

end Document
end SchemaSpec
