import SchemaSpec.Proofs.Text.Casing
import SchemaSpec.Naming.Singular

/-!
# The last word of a name

A table name is put into the singular at its last word, the one behind the last underscore; whatever
stands before it stays as it is.

* `exchanges`: the endings that are taken off, with those that come in their place.
* `IsRewritten`: a word with one ending exchanged.
* `SuffixRule.apply?_eq_some_iff`: what a rule does to a word.
* `inflected_lastWord`: the singular of a name with an underscore, and the model name of a table of
  this name.
-/

namespace SchemaSpec
namespace Naming

open Text

/-- The endings that singular forms take off, with those that come in their place. -/
def exchanges : List (Text × Text) :=
  ([], []) :: irregulars ++ suffixRules.map (fun r => (r.removed, r.added))

/-- How the last word of a name is rewritten: an ending without underscore is taken off, and another
one put on.  A line feed behind the word stays there. -/
inductive IsRewritten : Text → Text → Prop
  | word
      (kept : Text)
      {cut added : Text}
      (hexchange : (cut.map foldLetter, added) ∈ exchanges)
      (hcut : '_' ∉ cut) :
      IsRewritten (kept ++ cut) (kept ++ added)
  | line
      (kept : Text)
      {cut added : Text}
      (hexchange : (cut.map foldLetter, added) ∈ exchanges)
      (hcut : '_' ∉ cut) :
      IsRewritten (kept ++ cut ++ ['\n']) (kept ++ added ++ ['\n'])

/-- A table name with what stands behind its last point. -/
inductive EndsWith (base : Text) : Text → Prop
  | whole :
      EndsWith base base
  | behind
      (schema : Text) :
      EndsWith base (schema ++ '.' :: base)

section Rewriting

variable {front word t : Text}

theorem IsRewritten.refl
    (word : Text) :
    IsRewritten word word := by
  have h : IsRewritten (word ++ []) (word ++ []) := .word word List.mem_cons_self List.not_mem_nil
  rwa [List.append_nil] at h

theorem IsRewritten.of_irregular
    {singular : Text}
    (hmem : (word, singular) ∈ irregulars)
    (hnone : '_' ∉ word) :
    IsRewritten word singular := by
  have hfold : ∀ p ∈ irregulars, p.1.map foldLetter = p.1 := by decide
  refine .word [] ?_ hnone
  rw [hfold _ hmem]
  exact List.mem_append_left _ (List.mem_cons_of_mem _ hmem)

/-- A rule exchanges the suffix that it removes, up to the form of its letters, for the one that it
adds, behind a stem that fits. -/
theorem SuffixRule.apply?_eq_some_iff
    {r : SuffixRule} :
    r.apply? word = some t ↔ ∃ kept cut, word = kept ++ cut ∧ cut.map foldLetter = r.removed
      ∧ r.stem.fits (kept.map foldLetter) = true ∧ t = kept ++ r.added := by
  unfold SuffixRule.apply?
  dsimp only
  rw [← List.map_take]
  constructor
  · intro h
    split at h
    · rename_i hfits
      obtain ⟨hsuffix, hstem⟩ := Bool.and_eq_true_iff.1 hfits
      have hremoved := List.suffix_iff_eq_drop.1 (List.isSuffixOf_iff_suffix.1 hsuffix)
      rw [List.length_map, ← List.map_drop] at hremoved
      exact ⟨_, _, (List.take_append_drop _ _).symm, hremoved.symm, hstem, (Option.some.inj h).symm⟩
    · cases h
  · rintro ⟨kept, cut, rfl, hcut, hstem, rfl⟩
    have hlength : (kept ++ cut).length - r.removed.length = kept.length := by
      rw [← hcut, List.length_map, List.length_append, Nat.add_sub_cancel]
    have hsuffix : r.removed.isSuffixOf ((kept ++ cut).map foldLetter) = true := by
      rw [List.isSuffixOf_iff_suffix, List.map_append, hcut]
      exact List.suffix_append _ _
    rw [hlength, List.take_left, hsuffix, hstem]
    rfl

/-- What a rule removes from a name, it removes from the last word. -/
theorem SuffixRule.apply?_append_cons
    {r : SuffixRule}
    (hr : r ∈ suffixRules)
    (h : r.apply? (front ++ '_' :: word) = some t) :
    ∃ kept cut, word = kept ++ cut ∧ cut.map foldLetter = r.removed ∧ '_' ∉ cut
      ∧ t = front ++ '_' :: (kept ++ r.added) := by
  obtain ⟨stem, cut, hsplit, hcut, -, rfl⟩ := SuffixRule.apply?_eq_some_iff.1 h
  have hnone : '_' ∉ cut := by
    intro hmem
    have htable : ∀ r ∈ suffixRules, '_' ∉ r.removed := by decide
    have hmapped : '_' ∈ cut.map foldLetter := List.mem_map.2 ⟨'_', hmem, rfl⟩
    exact htable r hr (hcut ▸ hmapped)
  -- The underscore before the last word is no part of the ending, so it stands in what is kept.
  rcases List.append_eq_append_iff.1 hsplit with ⟨x, hstem, hrest⟩ | ⟨x, -, hrest⟩
  · cases x with
    | nil =>
        rw [List.nil_append] at hrest
        exact absurd (hrest ▸ List.mem_cons_self) hnone
    | cons c kept =>
        obtain ⟨rfl, hword⟩ := List.cons.inj hrest
        exact ⟨kept, cut, hword, hcut, hnone, by rw [hstem]; simp⟩
  · exact absurd (hrest ▸ List.mem_append_right x List.mem_cons_self) hnone

/-- The rules rewrite the last word of a name. -/
theorem applyRules_append_cons
    (h : applyRules (front ++ '_' :: word) = some t) :
    ∃ last, IsRewritten word last ∧ t = front ++ '_' :: last := by
  obtain ⟨feed, hfeed, hend⟩ := exists_dropFinalLineFeed_append word
  have hbody : dropFinalLineFeed (front ++ '_' :: word) = front ++ '_' :: dropFinalLineFeed word :=
    dropFinalLineFeed_append_cons (by decide) front word
  have hsplit : front ++ '_' :: word = (front ++ '_' :: dropFinalLineFeed word) ++ feed := by
    rw [List.append_assoc, List.cons_append, ← hfeed]
  unfold applyRules at h
  dsimp only at h
  rw [hbody, hsplit, List.drop_left] at h
  obtain ⟨u, hu, rfl⟩ := Option.map_eq_some_iff.1 h
  obtain ⟨r, hr, happly⟩ := List.exists_of_findSome?_eq_some hu
  obtain ⟨kept, cut, hword, hcut, hnone, rfl⟩ := SuffixRule.apply?_append_cons hr happly
  have hexchange : (cut.map foldLetter, r.added) ∈ exchanges := by
    rw [hcut]
    exact List.mem_append_right _ (List.mem_map.2 ⟨r, hr, rfl⟩)
  refine ⟨kept ++ r.added ++ feed, ?_, by simp⟩
  rw [hfeed, hword]
  rcases hend with rfl | rfl
  · rw [List.append_nil, List.append_nil]
    exact .word kept hexchange hnone
  · exact .line kept hexchange hnone

theorem lastSegment_append_cons
    (hnone : '_' ∉ word)
    (front : Text) :
    lastSegment (front ++ '_' :: word) = (front ++ ['_'], word) := by
  have htail : ((front ++ '_' :: word).reverse.takeWhile (fun c => c != '_')).reverse = word := by
    rw [List.reverse_append, List.reverse_cons, List.append_assoc, List.singleton_append,
      takeWhile_append_of_stop, List.reverse_reverse]
    · intro c hc
      have hne : c ≠ '_' := fun heq => hnone (heq ▸ List.mem_reverse.1 hc)
      simpa using hne
    · simp
  have hlength : (front ++ '_' :: word).length - word.length = (front ++ ['_']).length := by
    simp only [List.length_append, List.length_cons, List.length_nil]
    omega
  unfold lastSegment
  dsimp only
  rw [htail, hlength, List.append_cons front '_' word, List.take_left]

/-- The singular of a name with an underscore is that name with its last word rewritten. -/
theorem singularize_append_cons
    (hfront : lower front = front)
    (hword : lower word = word)
    (hnone : '_' ∉ word) :
    ∃ last, IsRewritten word last ∧ singularize (front ++ '_' :: word) = front ++ '_' :: last := by
  have hlower : lower (front ++ '_' :: word) = front ++ '_' :: word :=
    lower_append_cons hfront (by decide) hword
  unfold singularize
  dsimp only
  rw [hlower, lastSegment_append_cons hnone]
  dsimp only
  split
  · exact ⟨word, .refl word, rfl⟩
  · split
    · rename_i singular hlookup
      obtain ⟨before, behind, hsplit, -⟩ := List.lookup_eq_some_iff.1 hlookup
      have hmem : (word, singular) ∈ irregulars := by
        rw [hsplit]
        exact List.mem_append_right before List.mem_cons_self
      exact ⟨singular, .of_irregular hmem hnone, List.append_assoc front ['_'] singular⟩
    · cases hrules : applyRules (front ++ '_' :: word) with
      | none =>
          exact ⟨word, .refl word, rfl⟩
      | some t =>
          exact applyRules_append_cons hrules

end Rewriting

/-- The two sides of an underscore are put into Pascal case one by one. -/
theorem toPascal_append_cons
    (front word : Text) :
    toPascal (front ++ '_' :: word) = toPascal front ++ toPascal word := by
  unfold toPascal
  rw [splitWhere_append_cons (by rfl), List.flatMap_append]

/-- A model is named after what stands behind the last point of its table's name, in any letter
case. -/
theorem modelName_of_endsWith
    {base table : Text}
    (hpoint : '.' ∉ base)
    (h : EndsWith base table) :
    modelName table = toPascal (singularize (lower base)) := by
  have hbase : splitOn '.' base = [base] :=
    splitWhere_eq_singleton (fun c hc => by simpa using fun heq : c = '.' => hpoint (heq ▸ hc))
  have hlast : (splitOn '.' table).getLastD [] = base := by
    cases h with
    | whole =>
        rw [hbase]
        rfl
    | behind schema =>
        have hcut : splitOn '.' (schema ++ '.' :: base) = splitOn '.' schema ++ splitOn '.' base :=
          splitWhere_append_cons (by rfl) schema base
        rw [hcut, hbase, List.getLastD_concat]
  unfold modelName
  rw [hlast]

/-- The singular of a lower case name keeps all up to its last underscore and rewrites the word
behind it.  The model of a table whose name comes to this one, behind any schema and in any letter
case, is named after the part before the underscore and the rewritten word. -/
theorem inflected_lastWord
    {front word : Text}
    (hfront : lower front = front)
    (hword : lower word = word)
    (hnone : '_' ∉ word) :
    ∃ last, IsRewritten word last
      ∧ singularize (front ++ '_' :: word) = front ++ '_' :: last
      ∧ ∀ base table, '.' ∉ base → EndsWith base table → lower base = front ++ '_' :: word →
        modelName table = toPascal front ++ toPascal last := by
  obtain ⟨last, hrewritten, hsingular⟩ := singularize_append_cons hfront hword hnone
  refine ⟨last, hrewritten, hsingular, fun base table hpoint htable hlower => ?_⟩
  rw [modelName_of_endsWith hpoint htable, hlower, hsingular, toPascal_append_cons]

theorem inflected_lastWord_branches :
    lower "company_car".toList = "company_car".toList
      ∧ lower "branches".toList = "branches".toList
      ∧ '_' ∉ "branches".toList
      ∧ IsRewritten "branches".toList "branch".toList
      ∧ modelName "public.Company_CAR_Branches".toList
        = toPascal "company_car".toList ++ toPascal "branch".toList := by
  have hfront : lower "company_car".toList = "company_car".toList := by decide
  have hword : lower "branches".toList = "branches".toList := by decide
  have hnone : '_' ∉ "branches".toList := by decide
  obtain ⟨last, hrewritten, hsingular, hmodel⟩ := inflected_lastWord hfront hword hnone
  have hlast : last = "branch".toList := by
    have hvalue : singularize ("company_car".toList ++ '_' :: "branches".toList)
        = "company_car_".toList ++ "branch".toList := by decide +kernel
    rw [hvalue] at hsingular
    exact (List.append_cancel_left hsingular).symm
  subst hlast
  exact ⟨hfront, hword, hnone, hrewritten,
    hmodel "Company_CAR_Branches".toList _ (by decide) (.behind "public".toList) (by decide)⟩

end Naming
end SchemaSpec
