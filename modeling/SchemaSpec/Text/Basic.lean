/-!
# Texts

A text is the list of its characters.  This module holds the cuts and joins that every reader and
writer of the library is built from.

* `join`: texts with a separator between each two of them.
* `splitWhere`, `splitOn`, `lines`: the pieces between separating characters.  There is always at
  least one piece, and a piece never holds a separating character (`mem_splitWhere`).
* `after?`, `cutAt?`: what stands behind a fixed opening, and around a first occurrence.
* `dropEnd`: a text without the longest ending of characters of one class.
-/

namespace SchemaSpec

/-- A text, as the list of its characters. -/
abbrev Text := List Char

namespace Text

/-- The texts of a list, with `sep` between each two of them. -/
def join (sep : Text) : List Text → Text
  | [] => []
  | [t] => t
  | t :: u :: ts => t ++ sep ++ join sep (u :: ts)

/-- Put a character in front of the first text of a list. -/
def extendHead (c : Char) : List Text → List Text
  | [] => [[c]]
  | p :: ps => (c :: p) :: ps

/-- The pieces between the characters of a class. -/
def splitWhere (p : Char → Bool) : Text → List Text
  | [] => [[]]
  | c :: r =>
      if p c then [] :: splitWhere p r
      else extendHead c (splitWhere p r)

/-- The pieces between the occurrences of one character. -/
def splitOn (sep : Char) (t : Text) : List Text :=
  splitWhere (fun c => c == sep) t

/-- The lines of a text; only a line feed ends a line. -/
def lines (t : Text) : List Text :=
  splitOn '\n' t

/-- The rest of a text behind `opening`, if the text starts with it. -/
def after? : (opening t : Text) → Option Text
  | [], t => some t
  | _ :: _, [] => none
  | o :: os, c :: r => if c = o then after? os r else none

/-- The parts before and behind the first occurrence of `pat`. -/
def cutAt? (pat : Text) : Text → Option (Text × Text)
  | [] => (after? pat []).map (fun rest => ([], rest))
  | c :: r =>
      match after? pat (c :: r) with
      | some rest => some ([], rest)
      | none => (cutAt? pat r).map (fun cut => (c :: cut.1, cut.2))

/-- Whether `pat` occurs in a text. -/
def hasPart (pat t : Text) : Bool :=
  (cutAt? pat t).isSome

/-- A text without its longest ending of characters of a class. -/
def dropEnd (p : Char → Bool) : Text → Text
  | [] => []
  | c :: r =>
      match dropEnd p r with
      | [] => if p c then [] else [c]
      | d :: s => c :: d :: s

/-- A text without one final line feed, if it has one. -/
def dropFinalLineFeed : Text → Text
  | [] => []
  | [c] => if c = '\n' then [] else [c]
  | c :: d :: r => c :: dropFinalLineFeed (d :: r)

/-- Whether the code point of a character lies in one of the inclusive ranges. -/
def inRanges (ranges : List (Nat × Nat)) (c : Char) : Bool :=
  ranges.any (fun r => r.1 ≤ c.toNat && c.toNat ≤ r.2)

/-- Compare two texts by the code points of their characters. -/
def le : Text → Text → Bool
  | [], _ => true
  | _ :: _, [] => false
  | c :: r, d :: s => if c = d then le r s else c.toNat ≤ d.toNat

/-- The decimal digits of a natural number. -/
def ofNat (n : Nat) : Text :=
  Nat.toDigits 10 n

/-- The decimal digits of an integer, with a minus sign if it is negative. -/
def ofInt : Int → Text
  | .ofNat n => ofNat n
  | .negSucc n => '-' :: ofNat (n + 1)

/-! ## Lemmas -/

theorem splitWhere_ne_nil
    (p : Char → Bool)
    (t : Text) :
    splitWhere p t ≠ [] := by
  induction t with
  | nil =>
      simp [splitWhere]
  | cons c r ih =>
      simp only [splitWhere]
      split
      · simp
      · cases splitWhere p r <;> simp [extendHead]

/-- No piece holds a separating character. -/
theorem mem_splitWhere
    {p : Char → Bool}
    {t : Text} :
    ∀ {piece : Text}, piece ∈ splitWhere p t → ∀ c ∈ piece, p c = false := by
  induction t with
  | nil =>
      intro piece h
      simp [splitWhere] at h
      simp [h]
  | cons c r ih =>
      intro piece h
      by_cases hc : p c
      · simp only [splitWhere, hc, if_true, List.mem_cons] at h
        rcases h with rfl | h
        · simp
        · exact ih h
      · simp only [splitWhere, hc] at h
        cases hr : splitWhere p r with
        | nil => exact absurd hr (splitWhere_ne_nil p r)
        | cons q qs =>
            rw [hr] at h ih
            simp only [extendHead, Bool.false_eq_true, if_false, List.mem_cons] at h
            rcases h with rfl | h
            · intro d hd
              rcases List.mem_cons.1 hd with rfl | hd
              · simpa using hc
              · exact ih List.mem_cons_self d hd
            · exact ih (List.mem_cons_of_mem _ h)

/-- The rest behind an opening, put behind it again, is the text. -/
theorem after?_eq_some_iff
    {opening t rest : Text} :
    after? opening t = some rest ↔ t = opening ++ rest := by
  induction opening generalizing t with
  | nil =>
      simp [after?]
  | cons o os ih =>
      cases t with
      | nil =>
          simp [after?]
      | cons c r =>
          by_cases h : c = o
          · simp [after?, h, ih]
          · simp [after?, h]

end Text
end SchemaSpec
