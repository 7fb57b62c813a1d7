import SchemaSpec.Proofs.Document.Layout

/-!
# What outlives an extension

Extending a document takes lines of it away: those that stand for missing models, and the empty
lines before its last brace.

* `gone`: what goes with one such line.
* `Outlives`, `Outlives.kept`: a property of texts that does not end with what goes holds of what is
  kept.
* `Declares.remove`: no declaration lies where a line goes, though the words of that line are words
  of the document too.
* `declaredFrom_subset_kept`: the names that a text declares are kept.
-/

namespace SchemaSpec
namespace Document

open Text

/-- What goes with a line that stands for missing models: the line and the line feed before it. -/
def gone : Text := '\n' :: placeholder

/-- A property of texts that outlives what goes, does not look at a line feed before the text, and
needs nothing that stands behind the last opening brace. -/
structure Outlives (P : Text → Prop) : Prop where
  remove : ∀ a b, P (a ++ gone ++ b) → P (a ++ b)
  lineFeed : ∀ t, P ('\n' :: t) ↔ P t
  of_append : ∀ t u, P (t ++ u) → '\x7b' ∉ u → P t

section Outlives

variable {P : Text → Prop}

/-- The lines of a text, each with the line feed before it, make up the text with one more before
it. -/
theorem flatMap_lineFeed_eq
    {ls : List Text}
    (h : ls ≠ []) :
    ls.flatMap (fun l => ['\n'] ++ l) = '\n' :: join ['\n'] ls := by
  obtain ⟨l, ls, rfl⟩ := List.exists_cons_of_ne_nil h
  rw [join_cons_eq_flatMap, List.flatMap_cons, List.append_assoc]
  rfl

/-- One line after another goes. -/
theorem Outlives.flatMap_filter
    (h : Outlives P)
    {a : Text}
    {ls : List Text}
    (ht : P (a ++ ls.flatMap (fun l => ['\n'] ++ l))) :
    P (a ++ (ls.filter (fun line => line != placeholder)).flatMap (fun l => ['\n'] ++ l)) := by
  induction ls generalizing a with
  | nil =>
      exact ht
  | cons l ls ih =>
      rw [List.flatMap_cons, ← List.append_assoc] at ht
      have hrest := ih ht
      by_cases hl : l = placeholder
      · rw [List.filter_cons_of_neg (by simp [hl])]
        rw [hl] at hrest
        exact h.remove a _ hrest
      · rw [List.filter_cons_of_pos (by simp [hl]), List.flatMap_cons, ← List.append_assoc]
        exact hrest

theorem Outlives.dropPlaceholders
    (h : Outlives P)
    {t : Text}
    (ht : P t) :
    P (dropPlaceholders t) := by
  have hlines : P ([] ++ (lines t).flatMap (fun l => ['\n'] ++ l)) := by
    rw [List.nil_append, flatMap_lineFeed_eq (lines_ne_nil t), join_lines]
    exact (h.lineFeed t).2 ht
  have hfiltered := h.flatMap_filter hlines
  unfold Document.dropPlaceholders
  by_cases hnil : (lines t).filter (fun line => line != placeholder) = []
  · rw [hnil] at hfiltered ⊢
    exact hfiltered
  · rw [List.nil_append, flatMap_lineFeed_eq hnil] at hfiltered
    exact (h.lineFeed _).1 hfiltered

/-- What outlives the removal of one line holds of what is kept of a text. -/
theorem Outlives.kept
    (h : Outlives P)
    {t : Text}
    (ht : P t) :
    P (kept t) := by
  obtain ⟨u, hu, hall⟩ := exists_dropEnd_append (fun c => c == '\n') (Document.dropPlaceholders t)
  have hdropped := h.dropPlaceholders ht
  rw [hu] at hdropped
  refine h.of_append _ u hdropped (fun hmem => ?_)
  exact absurd (hall _ hmem) (by decide)

end Outlives

section Names

/-- A keyword and the characters of its names, for which a line that goes declares nothing, not even
together with what stands behind it. -/
structure Apart (keyword : Text) (p : Char → Bool) : Prop where
  isWordRun : IsWordRun keyword
  nameClass : NameClass p
  not_slash : p '/' = false
  passed : ∀ inWord t, declaredFrom keyword p inWord (gone ++ t) = declaredFrom keyword p true t

/-- The line holds the word `models`, which is none of the keywords. -/
theorem apart_model :
    Apart "model".toList isWord where
  isWordRun := by decide
  nameClass := nameClass_isWord
  not_slash := by decide
  passed := by
    intro inWord t
    cases inWord <;> rfl

theorem nameClass_isQualifiedChar :
    NameClass isQualifiedChar where
  not_isBlank := by
    intro c hc
    rcases Bool.or_eq_true_iff.1 hc with hword | hpoint
    · exact not_isBlank_of_isWord hword
    · rw [beq_iff_eq.1 hpoint]
      decide
  not_brace := by decide

theorem apart_namespace :
    Apart "namespace".toList isQualifiedChar where
  isWordRun := by decide
  nameClass := nameClass_isQualifiedChar
  not_slash := by decide
  passed := by
    intro inWord t
    cases inWord <;> rfl

variable {keyword name : Text} {p : Char → Bool} {inWord : Bool}

/-- No slash stands in a declaration. -/
theorem IsDeclaration.slash_not_mem
    {code : Text}
    (h : IsDeclaration keyword p name code)
    (hapart : Apart keyword p) :
    '/' ∉ code := by
  have hblank : isBlank '/' = false := by decide
  have hgaps : ∀ t : Text, AllBlank t → '/' ∉ t := by
    intro t ht hmem
    rw [ht _ hmem] at hblank
    cases hblank
  have hname : (∀ c ∈ name, p c = true) → '/' ∉ name := by
    intro hall hmem
    have hslash := hall _ hmem
    rw [hapart.not_slash] at hslash
    cases hslash
  have hbrace : '/' ∉ ['\x7b'] := by decide
  obtain ⟨gap, space, hgap, hchars, hspace, rfl⟩ := h
  simp only [List.mem_append, not_or]
  exact ⟨⟨⟨⟨hapart.isWordRun.not_mem (by decide), hgaps gap hgap.1⟩, hname hchars.2⟩,
    hgaps space hspace⟩, hbrace⟩

/-- What is declared behind a word character is declared behind any character. -/
theorem Declares.of_inWord
    {t : Text}
    (h : Declares keyword p true name t) :
    Declares keyword p inWord name t := by
  obtain ⟨before, code, after, htext, hstart, hcode⟩ := h
  refine ⟨before, code, after, htext, ?_, hcode⟩
  rcases List.eq_nil_or_concat before with rfl | ⟨before, c, rfl⟩
  · cases hstart
  · rw [List.concat_eq_append, endsInWord_concat] at hstart ⊢
    exact hstart

/-- A declaration outlives what goes. -/
theorem Declares.remove
    (hapart : Apart keyword p)
    {a b : Text}
    (h : Declares keyword p inWord name (a ++ gone ++ b)) :
    Declares keyword p inWord name (a ++ b) := by
  obtain ⟨before, code, after, htext, hstart, hcode⟩ := h
  rw [List.append_assoc] at htext
  rcases cut_cases htext.symm with ⟨x, rfl⟩ | ⟨x, rfl, hb⟩ | ⟨left, right, -, hr, rfl, -, hb⟩
  · exact ⟨before, code, x ++ b, by simp, hstart, hcode⟩
  · -- The declaration stands behind the start of what goes, and so behind its end.
    rw [endsInWord_append] at hstart
    have hbehind : Declares keyword p (endsInWord inWord a) name (gone ++ b) :=
      ⟨x, code, after, hb, hstart, hcode⟩
    rw [← mem_declaredFrom_iff hapart.nameClass, hapart.passed,
      mem_declaredFrom_iff hapart.nameClass] at hbehind
    exact hbehind.of_inWord.append_left
  · rcases List.append_eq_append_iff.1 hb with ⟨z, rfl, -⟩ | ⟨z, hgone, -⟩
    · have hslash : '/' ∈ gone := by decide
      exact absurd (by simp [hslash]) (hcode.slash_not_mem hapart)
    · -- The brace of the declaration would stand in what goes.
      have hlast := hcode.getLast?
      rw [List.getLast?_append_of_ne_nil _ hr] at hlast
      have hmem : '\x7b' ∈ gone := hgone ▸ List.mem_append_left _ (List.mem_of_getLast? hlast)
      exact absurd hmem (by decide)

/-- No declaration starts with a line feed. -/
theorem declares_lineFeed_cons
    (hapart : Apart keyword p)
    {t : Text} :
    Declares keyword p false name ('\n' :: t) ↔ Declares keyword p false name t := by
  have hfeed : isWord '\n' = false := by decide
  rw [declares_cons, hfeed]
  refine ⟨fun h => h.resolve_left ?_, Or.inr⟩
  rintro ⟨-, code, after, htext, gap, space, -, -, -, rfl⟩
  obtain ⟨c, keyword, rfl⟩ := List.exists_cons_of_ne_nil hapart.isWordRun.1
  have hc : c ≠ '\n' := ne_of_isWord (hapart.isWordRun.2 c List.mem_cons_self) hfeed
  exact hc (List.cons_eq_cons.1 htext).1.symm

theorem outlives_declares
    (hapart : Apart keyword p)
    (name : Text) :
    Outlives (Declares keyword p false name) where
  remove _ _ := Declares.remove hapart
  lineFeed _ := declares_lineFeed_cons hapart
  of_append _ _ := Declares.of_append

/-- What is declared before a text without opening braces is declared still when lines go and more
follows. -/
theorem declaredFrom_subset_kept
    (hapart : Apart keyword p)
    {t u : Text}
    (hu : '\x7b' ∉ u)
    (v : Text) :
    declaredFrom keyword p false (t ++ u) ⊆ declaredFrom keyword p false (kept t ++ v) := by
  intro name h
  rw [mem_declaredFrom_iff hapart.nameClass] at h ⊢
  exact ((outlives_declares hapart name).kept (h.of_append hu)).append_right v

end Names

end Document
end SchemaSpec
