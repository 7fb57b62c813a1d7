import Mathlib.Data.List.Forall2
import SchemaSpec.Proofs.Text.Ends
import SchemaSpec.Table.Header

/-!
# Renaming the block variable

The columns of a block do not depend on the name of its variable, as long as no other line of the
block starts with that name.

* `IsRenamed`: a line of a block, and the line with another name for the variable.
* `exists_isRenamed`: which lines can be written so.
* `ofLine_renamed`, `ofLines_renamed`: such lines have the same columns.
* `isBlockEnd_renamed`: a renamed line ends a block no more than the line did.
-/

namespace SchemaSpec
namespace Column

open Text

/-- A line of a block in which the variable is renamed from `v` to `w`: a line that starts with the
variable and a point starts with the new name and a point, and a line that has no column may stay as
it is, if it does not start with the new name and a point. -/
inductive IsRenamed (v w : Text) : Text → Text → Prop
  | named {indent rest : Text} :
      AllBlank indent →
        IsRenamed v w (indent ++ v ++ '.' :: rest) (indent ++ w ++ '.' :: rest)
  | other {line : Text} :
      ofLine v line = .ok [] → (∀ rest, trim line ≠ w ++ '.' :: rest) →
        IsRenamed v w line line

section Renaming

variable {v w line line' : Text}

theorem after?_append
    (opening t : Text)
    (v : Text) :
    after? (v ++ opening) (v ++ t) = after? opening t := by
  induction v with
  | nil =>
      rfl
  | cons c v ih =>
      rw [List.cons_append, List.cons_append, after?, if_pos rfl, ih]

/-- A line that does not start with the block variable and a point has no column. -/
theorem ofCode_eq_nil
    {block code : Text}
    (h : ∀ rest, code ≠ block ++ '.' :: rest) :
    ofCode block code = .ok [] := by
  have hstamps : timestampsTail? block code = none := by
    unfold timestampsTail?
    split
    · rename_i rest hafter
      rw [after?_eq_some_iff, List.append_assoc] at hafter
      exact absurd hafter (h _)
    · rfl
  have hparts : parts? block code = none := by
    have hafter : after? (block ++ ['.']) code = none := by
      cases hrest : after? (block ++ ['.']) code with
      | none =>
          rfl
      | some rest =>
          rw [after?_eq_some_iff, List.append_assoc] at hrest
          exact absurd hrest (h _)
    unfold parts?
    rw [hafter]
    rfl
  unfold ofCode
  rw [hstamps, hparts]

theorem ofLine_eq_nil
    (h : ∀ rest, trim line ≠ v ++ '.' :: rest) :
    ofLine v line = .ok [] := by
  have hcode := ofCode_eq_nil h
  unfold ofLine
  cases htrim : trim line with
  | nil =>
      rfl
  | cons c r =>
      rw [htrim] at hcode
      dsimp only
      split
      · rfl
      · exact hcode

/-- The variable of a block can be renamed in each line, except to a name that starts a line without
columns. -/
theorem exists_isRenamed
    (h : ofLine v line = .ok [] → ∀ rest, trim line ≠ w ++ '.' :: rest) :
    ∃ line', IsRenamed v w line line' := by
  by_cases hnone : ofLine v line = .ok []
  · exact ⟨line, .other hnone (h hnone)⟩
  · obtain ⟨rest, hrest⟩ : ∃ rest, trim line = v ++ '.' :: rest := by
      by_contra hno
      exact hnone (ofLine_eq_nil (fun rest hrest => hno ⟨rest, hrest⟩))
    obtain ⟨left, right, hline, hleft, -⟩ := exists_trim_surround line
    refine ⟨left ++ w ++ '.' :: (rest ++ right), ?_⟩
    have hsplit : line = left ++ v ++ '.' :: (rest ++ right) := by
      rw [hline, hrest]
      simp
    rw [hsplit]
    exact .named hleft

/-- The columns of a line that starts with the block variable and a point do not depend on the name
of the variable. -/
theorem ofCode_named
    (v w rest : Text) :
    ofCode v (v ++ '.' :: rest) = ofCode w (w ++ '.' :: rest) := by
  have hstamps : ∀ block, timestampsTail? block (block ++ '.' :: rest)
      = timestampsTail? [] ('.' :: rest) := by
    intro block
    unfold timestampsTail?
    rw [after?_append, List.nil_append]
  have hparts : ∀ block, parts? block (block ++ '.' :: rest) = parts? [] ('.' :: rest) := by
    intro block
    unfold parts?
    rw [after?_append, List.nil_append]
  unfold ofCode
  rw [hstamps v, hstamps w, hparts v, hparts w]

theorem trim_named
    {indent : Text}
    (hv : IsWordRun v)
    (hindent : AllBlank indent)
    (rest : Text) :
    trim (indent ++ v ++ '.' :: rest) = v ++ '.' :: trimEnd rest := by
  have hpoint : trimEnd ('.' :: rest) = '.' :: trimEnd rest := by
    have hkeep : ∀ c, ['.'].getLast? = some c → isBlank c = false := by
      intro c hc
      rw [← Option.some.inj hc]
      decide
    exact dropEnd_append_of_last hkeep rest
  have hsurround := trim_surround hindent allBlank_nil (v ++ '.' :: rest)
  rw [List.append_nil, ← List.append_assoc] at hsurround
  rw [hsurround, trim_append_of_trimmed_left hv.trim_eq hv.1, hpoint]

theorem ofLine_named
    {indent : Text}
    (hv : IsWordRun v)
    (hindent : AllBlank indent)
    (rest : Text) :
    ofLine v (indent ++ v ++ '.' :: rest) = ofCode v (v ++ '.' :: trimEnd rest) := by
  obtain ⟨c, r, rfl⟩ := List.exists_cons_of_ne_nil hv.1
  have hcomment : c ≠ '#' := ne_of_isWord (hv.2 c List.mem_cons_self) (by decide)
  unfold ofLine
  rw [trim_named hv hindent]
  exact if_neg hcomment

variable (hv : IsWordRun v) (hw : IsWordRun w)
include hv hw

/-- A renamed line has the columns of the line. -/
theorem ofLine_renamed
    (h : IsRenamed v w line line') :
    ofLine v line = ofLine w line' := by
  cases h with
  | named hindent =>
      rw [ofLine_named hv hindent, ofLine_named hw hindent]
      exact ofCode_named v w _
  | other hnone hstart =>
      rw [hnone, ofLine_eq_nil hstart]

/-- Renaming the variable of a block does not change its columns. -/
theorem ofLines_renamed
    {body body' : List Text}
    (h : List.Forall₂ (IsRenamed v w) body body') :
    ofLines v body = ofLines w body' := by
  induction h with
  | nil =>
      rfl
  | cons hline _ ih =>
      rw [ofLines, ofLines, ofLine_renamed hv hw hline, ih]

omit hv in
/-- A renamed line ends a block no more than the line did, if the new name is not `end`. -/
theorem isBlockEnd_renamed
    (hnew : w = v ∨ w ≠ "end".toList)
    (h : IsRenamed v w line line')
    (hline : Header.isBlockEnd (trim line) = false) :
    Header.isBlockEnd (trim line') = false := by
  rcases hnew with rfl | hend
  · cases h <;> exact hline
  cases h with
  | named hindent =>
      rename_i indent rest
      rw [trim_named hw hindent]
      unfold Header.isBlockEnd
      split
      · rename_i behind hafter
        by_contra hends
        rw [Bool.not_eq_false] at hends
        -- The first word of the line would be both names.
        have hword : word? (w ++ '.' :: trimEnd rest) = some (w, '.' :: trimEnd rest) :=
          word?_append hw rfl
        rw [after?_eq_some_iff.1 hafter, word?_append (by decide) hends] at hword
        exact hend (congrArg Prod.fst (Option.some.inj hword)).symm
      · rfl
  | other _ _ =>
      exact hline

end Renaming

end Column
end SchemaSpec
