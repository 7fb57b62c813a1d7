import SchemaSpec.Proofs.Text.Ends
import SchemaSpec.Proofs.Listing.Facts

/-!
# The start of a column line

A column line starts with the block variable, a point, the kind of the column, and its name in
quotes.

* `IsKind`, `IsName`: what stands there.
* `front`: the start of the line.
* `columnParts?_front`: such a line falls into its kind, its name and its options, whatever blanks
  stand around it.
-/

namespace SchemaSpec
namespace Column

open Text Options

/-- A name that is found between quotes. -/
def IsName (name : Text) : Prop :=
  name ≠ [] ∧ ∀ c ∈ name, isQuote c = false

instance (name : Text) : Decidable (IsName name) :=
  decidable_of_iff (name ≠ [] ∧ name.all (fun c => !isQuote c) = true) (by simp [IsName])

/-- The kind of a column: a word that is not `timestamps` and no directive. -/
structure IsKind (kind : Text) : Prop where
  isWordRun : IsWordRun kind
  not_timestamps : kind ≠ "timestamps".toList
  not_directive : kind ∉ directives

/-- A name in double quotes. -/
def inQuotes (name : Text) : Text :=
  '\x22' :: name ++ ['\x22']

/-- A column line up to its name. -/
def front (block kind name : Text) : Text :=
  block ++ ['.'] ++ kind ++ [' '] ++ inQuotes name

section Fronts

variable {block kind name rest : Text}

theorem quotedName?_append
    {q : Char}
    (hq : isQuote q = true)
    (hname : IsName name)
    (rest : Text) :
    quotedName? (q :: (name ++ q :: rest)) = some (name, rest) := by
  have hrun : ∀ c ∈ name, (!isQuote c) = true := fun c hc => by
    simpa using hname.2 c hc
  have hstop : ∀ c, (q :: rest).head? = some c → (!isQuote c) = false := by
    intro c hc
    rw [← Option.some.inj hc, hq]
    rfl
  have htake := takeWhile_append_of_stop hrun hstop
  have hdrop := dropWhile_append_of_stop hrun hstop
  obtain ⟨c, r, rfl⟩ := List.exists_cons_of_ne_nil hname.1
  rw [quotedName?, if_pos hq, htake, hdrop]

theorem quotedName?_inQuotes
    (hname : IsName name)
    (rest : Text) :
    quotedName? (inQuotes name ++ rest) = some (name, rest) := by
  have hread := quotedName?_append (q := '\x22') (by decide) hname rest
  simpa [inQuotes] using hread

theorem trim_inQuotes
    (name : Text) :
    trim (inQuotes name) = inQuotes name := by
  have hquote : trim ['\x22'] = ['\x22'] := by decide
  exact trim_append_eq_self hquote hquote (by simp) (by simp) name

/-- Only the word `timestamps` starts a timestamps line. -/
theorem timestampsTail?_eq_none
    (hkind : IsWordRun kind)
    (hends : wordEnds rest = true)
    (hne : kind ≠ "timestamps".toList) :
    timestampsTail? block (block ++ ['.'] ++ kind ++ rest) = none := by
  unfold timestampsTail?
  split
  · rename_i behind hafter
    have htext := after?_eq_some_iff.1 hafter
    have hword : ".timestamps".toList = ['.'] ++ "timestamps".toList := by decide
    rw [hword, ← List.append_assoc block, List.append_assoc _ kind, List.append_assoc _ _ behind,
      List.append_cancel_left_eq] at htext
    by_cases hend : wordEnds behind = true
    · have hleft := word?_append hkind hends
      have hright : word? ("timestamps".toList ++ behind) = some ("timestamps".toList, behind) :=
        word?_append (by decide) hend
      rw [htext, hright] at hleft
      exact absurd (congrArg Prod.fst (Option.some.inj hleft)).symm hne
    · simp [hend]
  · rfl

theorem front_append
    (block kind name rest : Text) :
    front block kind name ++ rest
      = block ++ ['.'] ++ kind ++ (' ' :: (inQuotes name ++ rest)) := by
  simp only [front, List.append_assoc, List.cons_append, List.nil_append]

theorem trim_front
    (hblock : IsWordRun block) :
    trim (front block kind name) = front block kind name := by
  have h := trim_append_eq_self hblock.trim_eq (trim_inQuotes name) hblock.1
    (by simp [inQuotes]) (['.'] ++ kind ++ [' '])
  simpa only [front, List.append_assoc] using h

theorem timestampsTail?_front
    (hkind : IsWordRun kind)
    (hne : kind ≠ "timestamps".toList)
    (rest : Text) :
    timestampsTail? block (front block kind name ++ rest) = none := by
  rw [front_append]
  exact timestampsTail?_eq_none hkind rfl hne

/-- A column line falls into its kind, its name and its options. -/
theorem parts?_front
    (hkind : IsWordRun kind)
    (hname : IsName name)
    (hline : '\n' ∉ rest) :
    parts? block (front block kind name ++ rest) = some (kind, name, rest) := by
  have hopen : after? (block ++ ['.']) (front block kind name ++ rest)
      = some (kind ++ (' ' :: (inQuotes name ++ rest))) := by
    rw [after?_eq_some_iff, front_append, List.append_assoc]
  have hword : word? (kind ++ (' ' :: (inQuotes name ++ rest)))
      = some (kind, ' ' :: (inQuotes name ++ rest)) :=
    word?_append hkind rfl
  have hblank : trimStart (' ' :: (inQuotes name ++ rest)) = inQuotes name ++ rest := by
    rw [← List.singleton_append, trimStart_append_of_blank allBlank_space]
    refine trimStart_eq_self (fun c hc => ?_)
    rw [← Option.some.inj hc]
    decide
  have hspace : isBlank ' ' = true := by decide
  unfold parts?
  rw [hopen]
  simp [hword, hblank, quotedName?_inQuotes hname, hspace, hline]

theorem columnParts?_trim
    (block line : Text) :
    columnParts? block (trim line) = columnParts? block line := by
  unfold columnParts?
  rw [trim_trim]

/-- A column line with blanks around it falls into its kind, its name and its options. -/
theorem columnParts?_front
    (hblock : IsWordRun block)
    (hkind : IsKind kind)
    (hname : IsName name)
    (hline : '\n' ∉ rest)
    {left right : Text}
    (hleft : AllBlank left)
    (hright : AllBlank right) :
    columnParts? block (left ++ (front block kind name ++ rest) ++ right)
      = some (kind, name, trimEnd rest) := by
  have htrim : trim (left ++ (front block kind name ++ rest) ++ right)
      = front block kind name ++ trimEnd rest := by
    rw [trim_surround hleft hright]
    exact trim_append_of_trimmed_left (trim_front hblock) (by simp [front, inQuotes]) rest
  have hrest : '\n' ∉ trimEnd rest := fun hmem => hline (trimEnd_subset rest hmem)
  have hstamps : timestampsTail? block (front block kind name ++ trimEnd rest) = none :=
    timestampsTail?_front hkind.isWordRun hkind.not_timestamps _
  have hparts : parts? block (front block kind name ++ trimEnd rest)
      = some (kind, name, trimEnd rest) :=
    parts?_front hkind.isWordRun hname hrest
  unfold columnParts?
  rw [htrim]
  obtain ⟨c, r, hcode⟩ : ∃ c r, front block kind name ++ trimEnd rest = c :: r :=
    List.exists_cons_of_ne_nil (by simp [front, inQuotes])
  rw [hcode] at hstamps hparts ⊢
  have hcomment : c ≠ '#' := by
    have hfirst : block.head? = some c := by
      have hhead := congrArg List.head? hcode
      rwa [front_append, List.append_assoc, List.append_assoc,
        List.head?_append_of_ne_nil _ hblock.1] at hhead
    exact ne_of_isWord (hblock.2 c (List.mem_of_mem_head? hfirst)) (by decide)
  simp only [hcomment, hstamps, Option.isSome_none, Bool.false_eq_true, or_self, if_false]
  exact hparts

end Fronts

end Column
end SchemaSpec
