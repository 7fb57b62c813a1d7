import Mathlib.Data.List.Basic
import Mathlib.Tactic.Common
import SchemaSpec.Text.Basic

/-!
# Lines and joined texts

Cutting a text into lines undoes joining lines, and joining them again undoes the cutting.

* `splitWhere_append_cons`: a separating character cuts a text in two, each cut on its own.
* `splitOn_join`: cutting at a separator undoes joining with it.
* `lines_join`, `join_lines`: the two round trips.
* `mem_lines_append`: the lines of two texts with a line feed between them.
-/

namespace SchemaSpec
namespace Text

section Joining

variable {sep t u : Text}
variable {ts us : List Text}

@[simp] theorem join_nil : join sep [] = [] := rfl

@[simp] theorem join_singleton : join sep [t] = t := rfl

theorem join_cons
    (h : ts ≠ []) :
    join sep (t :: ts) = t ++ sep ++ join sep ts := by
  cases ts with
  | nil =>
      exact absurd rfl h
  | cons u us =>
      rfl

theorem join_append
    (ht : ts ≠ [])
    (hu : us ≠ []) :
    join sep (ts ++ us) = join sep ts ++ sep ++ join sep us := by
  induction ts with
  | nil =>
      exact absurd rfl ht
  | cons t ts ih =>
      cases ts with
      | nil =>
          exact join_cons hu
      | cons v vs =>
          have hrest := ih (List.cons_ne_nil v vs)
          rw [List.cons_append, join_cons (by simp), hrest, join_cons (List.cons_ne_nil v vs)]
          simp only [List.append_assoc]

theorem join_cons_eq_flatMap
    (t : Text)
    (us : List Text) :
    join sep (t :: us) = t ++ us.flatMap (fun u => sep ++ u) := by
  induction us generalizing t with
  | nil =>
      simp
  | cons u us ih =>
      rw [join_cons (List.cons_ne_nil u us), ih, List.flatMap_cons]
      simp only [List.append_assoc]

/-- A joined text around one of its texts. -/
theorem join_eq_flatMap
    (ts : List Text)
    (t : Text)
    (us : List Text) :
    join sep (ts ++ t :: us)
      = ts.flatMap (fun u => u ++ sep) ++ t ++ us.flatMap (fun u => sep ++ u) := by
  induction ts with
  | nil =>
      exact join_cons_eq_flatMap t us
  | cons v ts ih =>
      rw [List.cons_append, join_cons (by simp), ih, List.flatMap_cons]
      simp only [List.append_assoc]

/-- Every character of a joined text comes from one of the texts or from the separator. -/
theorem mem_join
    {c : Char}
    (h : c ∈ join sep ts) :
    c ∈ sep ∨ ∃ t ∈ ts, c ∈ t := by
  induction ts with
  | nil =>
      simp at h
  | cons t ts ih =>
      cases ts with
      | nil =>
          exact Or.inr ⟨t, by simp, by simpa using h⟩
      | cons v vs =>
          rw [join_cons (List.cons_ne_nil v vs)] at h
          simp only [List.mem_append] at h
          rcases h with (ht | hsep) | hrest
          · exact Or.inr ⟨t, by simp, ht⟩
          · exact Or.inl hsep
          · rcases ih hrest with hsep | ⟨u, hu, hc⟩
            · exact Or.inl hsep
            · exact Or.inr ⟨u, List.mem_cons_of_mem _ hu, hc⟩

/-- A joined text contains each of the texts. -/
theorem infix_join_of_mem
    (h : t ∈ ts) :
    t <:+: join sep ts := by
  induction ts with
  | nil =>
      cases h
  | cons u us ih =>
      cases us with
      | nil =>
          rw [List.mem_singleton.1 h]
          exact List.infix_rfl
      | cons v vs =>
          rw [join_cons (List.cons_ne_nil v vs)]
          rcases List.mem_cons.1 h with rfl | hrest
          · exact (List.prefix_append t sep).isInfix.trans (List.prefix_append _ _).isInfix
          · exact (ih hrest).trans (List.suffix_append _ _).isInfix

end Joining

section Splitting

variable {p : Char → Bool}

theorem extendHead_append
    {c : Char}
    {ps qs : List Text}
    (h : ps ≠ []) :
    extendHead c (ps ++ qs) = extendHead c ps ++ qs := by
  cases ps with
  | nil =>
      exact absurd rfl h
  | cons q ps =>
      rfl

/-- A separating character cuts a text in two, and each part is cut on its own. -/
theorem splitWhere_append_cons
    {c : Char}
    (hc : p c = true)
    (t u : Text) :
    splitWhere p (t ++ c :: u) = splitWhere p t ++ splitWhere p u := by
  induction t with
  | nil =>
      simp [splitWhere, hc]
  | cons d t ih =>
      by_cases hd : p d = true
      · simp [splitWhere, hd, ih]
      · simp only [List.cons_append, splitWhere, hd, ih]
        exact extendHead_append (splitWhere_ne_nil p t)

/-- A text without separating characters is one piece. -/
theorem splitWhere_eq_singleton
    {t : Text}
    (h : ∀ c ∈ t, p c = false) :
    splitWhere p t = [t] := by
  induction t with
  | nil =>
      rfl
  | cons c t ih =>
      have hc := h c List.mem_cons_self
      have ht := ih (fun d hd => h d (List.mem_cons_of_mem _ hd))
      simp [splitWhere, hc, ht, extendHead]

/-- Cutting at a separator undoes joining with it. -/
theorem splitOn_join
    {c : Char}
    {ts : List Text}
    (hne : ts ≠ [])
    (h : ∀ t ∈ ts, c ∉ t) :
    splitOn c (join [c] ts) = ts := by
  have hpiece : ∀ t ∈ ts, splitOn c t = [t] := fun t ht =>
    splitWhere_eq_singleton (fun d hd => by simpa using fun heq : d = c => h t ht (heq ▸ hd))
  induction ts with
  | nil =>
      exact absurd rfl hne
  | cons t ts ih =>
      have hfirst := hpiece t List.mem_cons_self
      cases ts with
      | nil =>
          exact hfirst
      | cons u us =>
          have hrest := ih (List.cons_ne_nil u us) (fun v hv => h v (List.mem_cons_of_mem _ hv))
            (fun v hv => hpiece v (List.mem_cons_of_mem _ hv))
          rw [join_cons (List.cons_ne_nil u us), List.append_assoc, List.singleton_append, splitOn,
            splitWhere_append_cons (by simp)]
          exact congrArg₂ (· ++ ·) hfirst hrest

/-- No character is new in a piece between separating characters. -/
theorem subset_of_mem_splitWhere
    {t piece : Text}
    (h : piece ∈ splitWhere p t) :
    piece ⊆ t := by
  induction t generalizing piece with
  | nil =>
      rw [splitWhere, List.mem_singleton] at h
      rw [h]
      exact List.Subset.refl []
  | cons c t ih =>
      rw [splitWhere] at h
      split at h
      · rcases List.mem_cons.1 h with rfl | h
        · exact List.nil_subset _
        · exact List.Subset.trans (ih h) (List.subset_cons_self c t)
      · cases hrest : splitWhere p t with
        | nil =>
            exact absurd hrest (splitWhere_ne_nil p t)
        | cons q qs =>
            rw [hrest] at h ih
            rcases List.mem_cons.1 h with rfl | h
            · exact List.cons_subset_cons c (ih List.mem_cons_self)
            · exact List.Subset.trans (ih (List.mem_cons_of_mem _ h)) (List.subset_cons_self c t)

end Splitting

section Lines

@[simp] theorem lines_nil : lines [] = [[]] := rfl

theorem lines_ne_nil
    (t : Text) :
    lines t ≠ [] :=
  splitWhere_ne_nil _ t

theorem lines_append_cons
    (t u : Text) :
    lines (t ++ '\n' :: u) = lines t ++ lines u :=
  splitWhere_append_cons (by simp) t u

theorem lines_eq_singleton
    {t : Text}
    (h : '\n' ∉ t) :
    lines t = [t] :=
  splitWhere_eq_singleton (fun c hc => by
    simpa using fun heq : c = '\n' => h (heq ▸ hc))

/-- A line holds no line feed. -/
theorem lineFeed_not_mem_of_mem_lines
    {t line : Text}
    (h : line ∈ lines t) :
    '\n' ∉ line := by
  intro hmem
  have := mem_splitWhere h '\n' hmem
  simp at this

/-- Cutting into lines undoes joining lines. -/
theorem lines_join
    {ls : List Text}
    (hne : ls ≠ [])
    (h : ∀ line ∈ ls, '\n' ∉ line) :
    lines (join ['\n'] ls) = ls :=
  splitOn_join hne h

/-- Joining the lines of a text gives the text. -/
theorem join_lines
    (t : Text) :
    join ['\n'] (lines t) = t := by
  induction t with
  | nil =>
      rfl
  | cons c t ih =>
      by_cases hc : c = '\n'
      · subst hc
        have hcut : lines ('\n' :: t) = [] :: lines t := by
          simp [lines, splitOn, splitWhere]
        rw [hcut, join_cons (lines_ne_nil t), ih]
        rfl
      · have hcut : lines (c :: t) = extendHead c (lines t) := by
          simp [lines, splitOn, splitWhere, hc]
        rw [hcut]
        cases hrest : lines t with
        | nil =>
            exact absurd hrest (lines_ne_nil t)
        | cons q qs =>
            rw [hrest] at ih
            cases qs with
            | nil =>
                simpa [extendHead] using ih
            | cons r rs =>
                rw [join_cons (List.cons_ne_nil r rs)] at ih
                rw [extendHead, join_cons (List.cons_ne_nil r rs), ← ih]
                simp only [List.cons_append]

theorem mem_lines_append
    {t u line : Text} :
    line ∈ lines (t ++ '\n' :: u) ↔ line ∈ lines t ∨ line ∈ lines u := by
  rw [lines_append_cons, List.mem_append]

/-- The lines of texts that are each followed by a line feed, with a text behind them. -/
theorem lines_flatMap_append
    (ts : List Text)
    (u : Text) :
    lines (ts.flatMap (fun t => t ++ ['\n']) ++ u) = ts.flatMap lines ++ lines u := by
  induction ts with
  | nil =>
      rfl
  | cons t ts ih =>
      rw [List.flatMap_cons, List.flatMap_cons, List.append_assoc, List.append_assoc,
        List.singleton_append, lines_append_cons, ih, List.append_assoc]

theorem lineFeed_not_mem_append
    {t u : Text}
    (ht : '\n' ∉ t)
    (hu : '\n' ∉ u) :
    '\n' ∉ t ++ u := by
  rw [List.mem_append, not_or]
  exact ⟨ht, hu⟩

/-- The lines of texts joined with line feeds. -/
theorem lines_join_lineFeed
    {ts : List Text}
    (h : ts ≠ []) :
    lines (join ['\n'] ts) = ts.flatMap lines := by
  induction ts with
  | nil =>
      exact absurd rfl h
  | cons t ts ih =>
      by_cases hts : ts = []
      · subst hts
        exact (List.append_nil _).symm
      · rw [join_cons hts, List.append_assoc, List.singleton_append, lines_append_cons, ih hts]
        rfl

/-- Texts joined with empty lines. -/
theorem lines_join_blank
    {ts : List Text}
    (h : ts ≠ [])
    (t : Text) :
    lines (join ['\n', '\n'] (t :: ts)) = lines t ++ [] :: lines (join ['\n', '\n'] ts) := by
  have hcut : join ['\n', '\n'] (t :: ts)
      = t ++ '\n' :: ([] ++ '\n' :: join ['\n', '\n'] ts) := by
    rw [join_cons h, List.append_assoc]
    rfl
  rw [hcut, lines_append_cons, lines_append_cons]
  rfl

/-- A line of a text is a line of texts that are joined with empty lines. -/
theorem mem_lines_join_of_mem
    {ts : List Text}
    {t line : Text}
    (ht : t ∈ ts)
    (h : line ∈ lines t) :
    line ∈ lines (join ['\n', '\n'] ts) := by
  induction ts with
  | nil =>
      cases ht
  | cons u ts ih =>
      by_cases hts : ts = []
      · subst hts
        rw [List.mem_singleton.1 ht] at h
        exact h
      · rw [lines_join_blank hts, List.mem_append]
        rcases List.mem_cons.1 ht with rfl | ht
        · exact Or.inl h
        · exact Or.inr (List.mem_cons_of_mem _ (ih ht))

theorem mem_lines_join_blank
    {ts : List Text}
    {line : Text}
    (h : line ∈ lines (join ['\n', '\n'] ts)) :
    line = [] ∨ ∃ t ∈ ts, line ∈ lines t := by
  induction ts with
  | nil =>
      exact Or.inl (List.mem_singleton.1 h)
  | cons t ts ih =>
      by_cases hts : ts = []
      · subst hts
        exact Or.inr ⟨t, List.mem_cons_self, h⟩
      · rw [lines_join_blank hts, List.mem_append, List.mem_cons] at h
        rcases h with h | h | h
        · exact Or.inr ⟨t, List.mem_cons_self, h⟩
        · exact Or.inl h
        · rcases ih h with h | ⟨u, hu, h⟩
          · exact Or.inl h
          · exact Or.inr ⟨u, List.mem_cons_of_mem _ hu, h⟩

/-- Line feeds at the end of a text only make empty lines. -/
theorem lines_append_of_lineFeeds
    {u : Text}
    (hu : ∀ c ∈ u, c = '\n')
    (t : Text) :
    lines (t ++ u) = lines t ++ List.replicate u.length [] := by
  induction u generalizing t with
  | nil =>
      simp
  | cons c u ih =>
      have hc : c = '\n' := hu c List.mem_cons_self
      have hrest : lines u = List.replicate (u.length + 1) [] := by
        have h := ih (fun d hd => hu d (List.mem_cons_of_mem _ hd)) []
        rwa [List.nil_append, lines_nil, List.singleton_append] at h
      rw [hc, lines_append_cons, hrest, List.length_cons]

/-- Line feeds at the start of a text only make empty lines. -/
theorem lines_lineFeeds_append
    {u : Text}
    (hu : ∀ c ∈ u, c = '\n')
    (t : Text) :
    lines (u ++ t) = List.replicate u.length [] ++ lines t := by
  induction u with
  | nil =>
      rfl
  | cons c u ih =>
      have hrest := ih (fun d hd => hu d (List.mem_cons_of_mem _ hd))
      have hcut := lines_append_cons [] (u ++ t)
      rw [List.nil_append, lines_nil, hrest] at hcut
      rw [hu c List.mem_cons_self, List.cons_append, hcut]
      rfl

end Lines

end Text
end SchemaSpec
