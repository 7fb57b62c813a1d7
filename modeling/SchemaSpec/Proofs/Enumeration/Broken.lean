import SchemaSpec.Proofs.Enumeration.Sources

/-!
# Bare keyword arguments over several lines

A list in brackets goes on as long as a bracket is open.  Bare keyword arguments open none, so that
their declaration ends with its first line: the keys on the lines behind it are lost.

* `IsBroken`: the lines of bare keyword arguments that are broken behind commas.
* `contribution_of_isBroken`: such lines declare the keys of the first one, and nothing else.
* `ofSource_broken_iff`: they declare what the same values on one line or in brackets declare,
  exactly if there is one line only.
-/

namespace SchemaSpec
namespace EnumDecl

open Text Options

/-- A line of bare keyword arguments, with a comma behind the last one if they go on, and with a
comment or none. -/
def IsKeywordLine (goesOn : Bool) (values : List Text) (line : Text) : Prop :=
  ∃ entries code comment, List.Forall₂ ListForm.hash.IsEntry values entries
    ∧ Spaced false (commaTokens goesOn entries) code ∧ IsComment comment ∧ line = code ++ comment

/-- The lines of bare keyword arguments from behind the marker on, with the keys on each: the
arguments are broken behind any of the commas, among them that of the marker. -/
inductive IsBroken : List (List Text) → List Text → Prop
  | last {values : List Text} {line : Text} :
      values ≠ [] → IsKeywordLine false values line → IsBroken [values] [line]
  | line {values : List Text} {groups : List (List Text)} {line : Text} {lines : List Text} :
      IsKeywordLine true values line → IsBroken groups lines →
        IsBroken (values :: groups) (line :: lines)

section Lines

variable {goesOn : Bool} {values : List Text} {groups : List (List Text)} {line : Text}
  {lines : List Text}

/-- The keys of a line are read from it, whatever lines follow. -/
theorem IsKeywordLine.readValues_eq
    (h : IsKeywordLine goesOn values line)
    (hnodup : values.Nodup)
    (hwords : ∀ v ∈ values, IsWordRun v)
    (hfirst : ∀ v ∈ values, v.head? ≠ some '_')
    (following : List Text) :
    readValues (stripComment (trim line)) following = values := by
  obtain ⟨entries, code, comment, hentries, hcode, hcomment, rfl⟩ := h
  have htokens : ListForm.hash.IsTokens entries (commaTokens goesOn entries) := ⟨goesOn, rfl⟩
  have hinert := hcode.allInert (htokens.isToken hwords hentries)
  have hstrip : stripComment (trim (code ++ comment)) = trim code :=
    stripComment_trim (fun c hc => isUncommented_of_isInert (hinert c hc)) hcomment
  rw [hstrip, readValues_bare hnodup hwords hfirst hentries hcode following]

/-- No line of keyword arguments is the first line of another declaration. -/
theorem IsKeywordLine.marker?_eq_none
    (h : IsKeywordLine goesOn values line)
    (hwords : ∀ v ∈ values, IsWordRun v) :
    marker? (trim line) = none := by
  obtain ⟨entries, code, comment, hentries, hcode, hcomment, rfl⟩ := h
  have htokens : ListForm.hash.IsTokens entries (commaTokens goesOn entries) := ⟨goesOn, rfl⟩
  have htoken : ∀ w ∈ commaTokens goesOn entries,
      w = [','] ∨ ∃ v, IsWordRun v ∧ ListForm.hash.IsEntry v w :=
    fun w hw => (htokens.mem hentries hw).imp_right (fun ⟨v, hv, hvw⟩ => ⟨v, hwords v hv, hvw⟩)
  exact marker?_line htoken hcode (isBreak_of_isComment hcomment)

theorem IsBroken.contribution_eq_nil
    (h : IsBroken groups lines)
    (hwords : ∀ v ∈ groups.flatten, IsWordRun v)
    (modelName : Text)
    (following : List Text) :
    contribution modelName following lines = [] := by
  induction h with
  | last _ hline =>
      rw [List.flatten_singleton] at hwords
      rw [contribution, contribution, ofLine?, hline.marker?_eq_none hwords]
      rfl
  | line hline _ ih =>
      rw [List.flatten_cons, List.forall_mem_append] at hwords
      rw [contribution, ih hwords.2, ofLine?, hline.marker?_eq_none hwords.1]
      rfl

theorem IsBroken.first
    (h : IsBroken (values :: groups) (line :: lines)) :
    ∃ goesOn, IsKeywordLine goesOn values line := by
  cases h with
  | last _ hline => exact ⟨false, hline⟩
  | line hline _ => exact ⟨true, hline⟩

/-- Behind the first line stand keys, if there are more lines at all. -/
theorem IsBroken.flatten_ne_nil
    (h : IsBroken groups lines) :
    groups.flatten ≠ [] := by
  induction h with
  | last hne _ =>
      simpa using hne
  | line _ _ ih =>
      rw [List.flatten_cons]
      exact fun hnil => ih (List.append_eq_nil_iff.1 hnil).2

theorem IsBroken.lines_eq_nil_iff
    (h : IsBroken (values :: groups) (line :: lines)) :
    lines = [] ↔ (values :: groups).flatten = values := by
  cases h with
  | last =>
      simp
  | line _ hrest =>
      have hgroups := hrest.flatten_ne_nil
      rw [List.flatten_cons]
      refine iff_of_false ?_ (fun heq => hgroups (List.append_right_eq_self.1 heq))
      rintro rfl
      cases hrest

end Lines

section Declarations

variable {fieldName indent marker line : Text} {values : List Text} {groups : List (List Text)}
  {lines ls : List Text}

/-- A broken declaration declares the keys on its first line, if there are any, and nothing else. -/
theorem contribution_of_isBroken
    (hfield : IsWordRun fieldName)
    (hnodup : values.Nodup)
    (hwords : ∀ v ∈ (values :: groups).flatten, IsWordRun v)
    (hfirst : ∀ v ∈ values, v.head? ≠ some '_')
    (hindent : AllBlank indent)
    (hmarker : IsMarker fieldName marker)
    (h : IsBroken (values :: groups) (line :: lines))
    (modelName : Text)
    (following : List Text) :
    contribution modelName following ((indent ++ marker ++ line) :: lines)
      = if values = [] then [] else [⟨fieldName, modelName, values⟩] := by
  have hmarked := marker?_append hfield hmarker hindent line
  rw [List.flatten_cons, List.forall_mem_append] at hwords
  have hothers : contribution modelName following lines = [] := by
    cases h with
    | last => rfl
    | line _ hrest => exact hrest.contribution_eq_nil hwords.2 modelName following
  obtain ⟨goesOn, hline⟩ := h.first
  have hread := hline.readValues_eq hnodup hwords.1 hfirst (lines ++ following)
  rw [contribution, hothers, List.append_nil, ofLine?, hmarked]
  dsimp only
  rw [hread]
  cases values with
  | nil => rfl
  | cons v vs => rfl

/-- A declaration with bare keyword arguments that is broken behind commas declares what the same
values declare on one line or in brackets, exactly if it is not broken. -/
theorem ofSource_broken_iff
    (hfield : IsWordRun fieldName)
    (hnodup : (values :: groups).flatten.Nodup)
    (hwords : ∀ v ∈ (values :: groups).flatten, IsWordRun v)
    (hfirst : ∀ v ∈ (values :: groups).flatten, v.head? ≠ some '_')
    (hindent : AllBlank indent)
    (hmarker : IsMarker fieldName marker)
    (h : IsBroken (values :: groups) (line :: lines))
    (hwritten : IsWritten fieldName (values :: groups).flatten ls)
    (modelName : Text)
    (before after : List Text)
    (hlines : ∀ l ∈ before ++ ((indent ++ marker ++ line) :: lines ++ after), '\n' ∉ l) :
    contribution modelName after ls = [⟨fieldName, modelName, (values :: groups).flatten⟩]
      ∧ (ofSource modelName (join ['\n'] (before ++ ((indent ++ marker ++ line) :: lines ++ after)))
          = contribution modelName ((indent ++ marker ++ line) :: lines ++ after) before
            ++ contribution modelName after ls ++ ofLines modelName after
        ↔ lines = []) := by
  have hwhole := contribution_of_isWritten hfield h.flatten_ne_nil hnodup hwords hwritten modelName
    after
  have hread : contribution modelName after ((indent ++ marker ++ line) :: lines)
      = if values = [] then [] else [⟨fieldName, modelName, values⟩] := by
    have hpart := List.nodup_append.1 (List.flatten_cons ▸ hnodup)
    exact contribution_of_isBroken hfield hpart.1 hwords
      (fun v hv => hfirst v (List.mem_append_left _ hv)) hindent hmarker h modelName after
  have hsome : before ++ ((indent ++ marker ++ line) :: lines ++ after) ≠ [] := by
    simp
  refine ⟨hwhole, ?_⟩
  rw [ofSource, lines_join hsome hlines, ofLines_append, ofLines_append, ← List.append_assoc,
    List.append_left_inj, List.append_right_inj, hwhole, hread, h.lines_eq_nil_iff]
  by_cases hnil : values = []
  · have hsomething := h.flatten_ne_nil
    rw [if_pos hnil]
    refine iff_of_false (List.cons_ne_nil _ _).symm (fun heq => ?_)
    rw [heq] at hsomething
    exact hsomething hnil
  · rw [if_neg hnil]
    simp [eq_comm]

/-- An enum broken behind its first key, with a comment there. -/
def brokenLines : List Text :=
  ["  enum :size, small: 0, # S".toList, "    large: 1".toList]

theorem isBroken_brokenLines :
    IsBroken [["small".toList], ["large".toList]] ["small: 0, # S".toList, "    large: 1".toList] := by
  have hsmall : IsKeywordLine true ["small".toList] "small: 0, # S".toList :=
    ⟨["small: 0".toList], "small: 0, ".toList, "# S".toList,
      .cons ⟨[' '], ['0'], by decide, by decide, by decide⟩ .nil,
      ⟨[], ", ".toList, by decide, by decide, by simp, [], [' '], by decide, by decide, by simp,
        allBlank_space⟩,
      fun c hc => (Option.some.inj hc).symm, by decide⟩
  have hlarge : IsKeywordLine false ["large".toList] "    large: 1".toList :=
    ⟨["large: 1".toList], "    large: 1".toList, [],
      .cons ⟨[' '], ['1'], by decide, by decide, by decide⟩ .nil,
      ⟨"    ".toList, [], by decide, by decide, by simp, allBlank_nil⟩,
      by simp [IsComment], by decide⟩
  exact .line hsmall (.last (by decide) hlarge)

/-- The same enum on one line declares both keys, and so the broken one is another. -/
theorem ofSource_broken_iff_size :
    ofSource "Order".toList (join ['\n'] (["class Order".toList] ++ (brokenLines ++ ["end".toList])))
      ≠ [⟨"size".toList, "Order".toList, ["small".toList, "large".toList]⟩] := by
  have hmarker : IsMarker "size".toList "enum :size, ".toList :=
    ⟨[' '], [' '], by decide, by decide, Or.inl ⟨[], by decide, by decide⟩⟩
  obtain ⟨hwhole, hbroken⟩ := ofSource_broken_iff (by decide) (by decide) (by decide) (by decide)
    (by decide : AllBlank "  ".toList) hmarker isBroken_brokenLines isWritten_sizeLine "Order".toList
    ["class Order".toList] ["end".toList] (by decide)
  have hlines : "  ".toList ++ "enum :size, ".toList ++ "small: 0, # S".toList
      = "  enum :size, small: 0, # S".toList := by
    decide
  have hclass : contribution "Order".toList (brokenLines ++ ["end".toList]) ["class Order".toList]
      = [] := by
    decide
  have hend : ofLines "Order".toList ["end".toList] = [] := by
    decide
  rw [hlines, hwhole, hend] at hbroken
  intro hsame
  have hone := hbroken.1 (by
    rw [show "  enum :size, small: 0, # S".toList :: ["    large: 1".toList] = brokenLines from rfl,
      hclass]
    exact hsame)
  cases hone

/-- Keys behind a line break are lost, and without keys on the first line the whole enum is; a hash
keeps its keys over the same breaks. -/
theorem keys_lost_behind_break :
    ofSource "Post".toList "enum :status, active: 0,\n  archived: 1".toList
        = [⟨"status".toList, "Post".toList, ["active".toList]⟩]
      ∧ ofSource "Post".toList "enum :status,\n  active: 0, archived: 1".toList = []
      ∧ ofSource "Post".toList "enum :status, active: 0, archived: 1".toList
        = [⟨"status".toList, "Post".toList, ["active".toList, "archived".toList]⟩]
      ∧ ofSource "Post".toList "enum :status, \x7b active: 0,\n  archived: 1 \x7d".toList
        = [⟨"status".toList, "Post".toList, ["active".toList, "archived".toList]⟩] := by
  decide +kernel

end Declarations

end EnumDecl
end SchemaSpec
