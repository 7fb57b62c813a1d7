import SchemaSpec.Proofs.Options.Closed
import SchemaSpec.Proofs.Options.Keys

/-!
# Tails of options

What a tail of options says is the list of the pairs in it, of which the last one with a key counts.

* `exists_pieces_append`: a text without separators goes to the last piece of what is before it.
* `splitTopLevel_trim`, `splitTopLevel_dropWhile`: blanks around a tail and commas before it do not
  matter.
* `pairs`, `parse_eq_ofPairs`: the options of a tail are its pairs.
* `pairs_flatMap`: the pairs of closed pieces behind commas.
* `get?_ofPairs_eq_some_iff`: the value of a key is that of its last pair.
* `nodup_parse`: each key of a tail comes once.
-/

namespace SchemaSpec
namespace Options

open Text

section Pieces

variable {sep : Char → Bool} {t u : Text}

namespace Scan

theorem quiet_of_not_sep
    {s : Scan}
    (hu : ∀ c ∈ u, sep c = false) :
    quiet sep s u = true := by
  induction u generalizing s with
  | nil =>
      rfl
  | cons c u ih =>
      obtain ⟨hc, hu⟩ := List.forall_mem_cons.1 hu
      have hno : s.separates sep c = false := by
        simp [separates, hc]
      rw [quiet_cons, hno, ih hu]
      rfl

/-- A text without separators goes to the last piece of what is before it. -/
theorem exists_pieces_append
    (hu : ∀ c ∈ u, sep c = false)
    (s : Scan)
    (t : Text) :
    ∃ ps p, s.pieces sep t = ps ++ [p] ∧ s.pieces sep (t ++ u) = ps ++ [p ++ u] := by
  induction t generalizing s with
  | nil =>
      exact ⟨[], [], rfl, pieces_of_quiet (quiet_of_not_sep hu)⟩
  | cons c t ih =>
      obtain ⟨ps, p, hleft, hright⟩ := ih (s.step c)
      obtain ⟨qs, q, hleft', hright'⟩ := ih s
      rw [List.cons_append, pieces, pieces]
      split
      · exact ⟨[] :: qs, q, by rw [hleft']; rfl, by rw [hright']; rfl⟩
      · rw [hleft, hright]
        cases ps with
        | nil =>
            exact ⟨[], c :: p, rfl, rfl⟩
        | cons r ps =>
            exact ⟨(c :: r) :: ps, p, rfl, rfl⟩

end Scan

/-- Blanks around a tail do not matter. -/
theorem splitTopLevel_surround
    {left right : Text}
    (hleft : AllBlank left)
    (hright : AllBlank right)
    (t : Text) :
    splitTopLevel (left ++ t ++ right) = splitTopLevel t := by
  have hstart : splitTopLevel (left ++ t) = splitTopLevel t := by
    have hclosed := closed_of_allBlank hleft
    unfold splitTopLevel splitTopLevelBy
    rw [Scan.pieces_append hclosed.1, hclosed.2]
    cases hcut : Scan.start.pieces isComma t with
    | nil =>
        rfl
    | cons p ps =>
        have htrim := trim_surround hleft allBlank_nil p
        rw [List.append_nil] at htrim
        rw [List.modifyHead_cons, List.map_cons, List.map_cons, htrim]
  rw [← hstart]
  obtain ⟨ps, p, hcut, hcut'⟩ := Scan.exists_pieces_append
    (fun c hc => not_isComma_of_isBlank (hright c hc)) Scan.start (left ++ t)
  have htrim := trim_surround allBlank_nil hright p
  rw [List.nil_append] at htrim
  unfold splitTopLevel splitTopLevelBy
  rw [hcut, hcut', List.map_append, List.map_append, List.map_singleton, List.map_singleton, htrim]

theorem splitTopLevel_trim
    (t : Text) :
    splitTopLevel (trim t) = splitTopLevel t := by
  obtain ⟨left, right, ht, hleft, hright⟩ := exists_trim_surround t
  have hsame := splitTopLevel_surround hleft hright (trim t)
  rw [← ht] at hsame
  exact hsame.symm

/-- Commas before a tail do not matter. -/
theorem splitTopLevel_dropWhile
    (t : Text) :
    splitTopLevel (t.dropWhile isComma) = splitTopLevel t := by
  induction t with
  | nil =>
      rfl
  | cons c t ih =>
      by_cases hc : isComma c = true
      · rw [List.dropWhile_cons_of_pos hc, ih, beq_iff_eq.1 hc]
        rfl
      · rw [List.dropWhile_cons_of_neg hc]

end Pieces

/-! ## Pairs -/

/-- The pairs of a tail, one after the other. -/
def pairs (tail : Text) : List (Text × Text) :=
  (splitTopLevel tail).filterMap pair?

theorem parse_eq_ofPairs
    (tail : Text) :
    parse tail = ofPairs (pairs tail) := by
  have hsplit : splitTopLevel ((trim tail).dropWhile isComma) = splitTopLevel tail := by
    rw [splitTopLevel_dropWhile, splitTopLevel_trim]
  unfold parse pairs
  rw [← hsplit]

/-- Blanks around a tail do not matter to its pairs. -/
theorem pairs_surround
    {left right : Text}
    (hleft : AllBlank left)
    (hright : AllBlank right)
    (tail : Text) :
    pairs (left ++ tail ++ right) = pairs tail := by
  unfold pairs
  rw [splitTopLevel_surround hleft hright]

/-- Closed pieces behind commas are the pieces of the text, and before them stands a first one. -/
theorem pieces_flatMap
    {first : Text}
    {ps : List Text}
    (hfirst : Closed isComma first)
    (h : ∀ p ∈ ps, Closed isComma p) :
    Scan.start.pieces isComma (first ++ ps.flatMap (fun p => comma ++ p))
      = first :: ps.map (fun p => ' ' :: p) := by
  induction ps generalizing first with
  | nil =>
      rw [List.flatMap_nil, List.append_nil, pieces_closed hfirst]
      rfl
  | cons p ps ih =>
      obtain ⟨hp, hps⟩ := List.forall_mem_cons.1 h
      have hnext : Closed isComma (' ' :: p) :=
        (closed_of_allBlank allBlank_space).append hp
      have htext : first ++ (p :: ps).flatMap (fun p => comma ++ p)
          = first ++ ',' :: ((' ' :: p) ++ ps.flatMap (fun p => comma ++ p)) := by
        simp [comma]
      rw [htext, pieces_closed_cons hfirst (by decide) (by decide), ih hnext hps]
      rfl

theorem pair?_nil :
    pair? [] = none := by
  decide

/-- The pairs of closed pieces behind commas. -/
theorem pairs_flatMap
    {ps : List Text}
    (h : ∀ p ∈ ps, Closed isComma p) :
    pairs (ps.flatMap (fun p => comma ++ p)) = ps.filterMap (fun p => pair? (trim p)) := by
  have hcut := pieces_flatMap (closed_of_allBlank allBlank_nil) h
  rw [List.nil_append] at hcut
  have htrim : ∀ p : Text, trim (' ' :: p) = trim p := by
    intro p
    have hsame := trim_surround allBlank_space allBlank_nil p
    rwa [List.append_nil] at hsame
  have hempty : ∀ p : Text, (if (!p.isEmpty) = true then pair? p else none) = pair? p := by
    intro p
    cases p with
    | nil =>
        exact pair?_nil.symm
    | cons c r =>
        rfl
  unfold pairs splitTopLevel splitTopLevelBy
  rw [hcut, List.filterMap_filter, List.filterMap_congr (fun p _ => hempty p), List.map_cons,
    List.map_map]
  have hfirst : pair? (trim []) = none := pair?_nil
  rw [List.filterMap_cons_none hfirst, List.filterMap_map]
  exact List.filterMap_congr (fun p _ => congrArg pair? (htrim p))

/-- The value of a pair is trimmed. -/
theorem trim_of_pair?
    {piece key value : Text}
    (h : pair? piece = some (key, value)) :
    trim value = value := by
  unfold pair? at h
  rcases Option.or_eq_some_iff.1 h with hcolon | ⟨-, harrow⟩
  · unfold colonPair? at hcolon
    split at hcolon
    · obtain ⟨-, rfl⟩ := Prod.mk.inj (Option.some.inj hcolon)
      exact trim_trim _
    · cases hcolon
  · unfold arrowPair? at harrow
    split at harrow
    · split at harrow
      · obtain ⟨-, rfl⟩ := Prod.mk.inj (Option.some.inj harrow)
        exact trim_trim _
      · cases harrow
    · cases harrow

theorem trim_of_mem_pairs
    {tail key value : Text}
    (h : (key, value) ∈ pairs tail) :
    trim value = value := by
  obtain ⟨piece, -, hpiece⟩ := List.mem_filterMap.1 h
  exact trim_of_pair? hpiece

section Values

variable {key value : Text} {options : OptionList} {ps : List (Text × Text)}

theorem get?_assign
    (key' : Text) :
    get? key' (assign key value options)
      = if key' = key then some value else get? key' options := by
  unfold get?
  induction options with
  | nil =>
      by_cases hkey : key' = key <;> simp [assign, hkey]
  | cons o options ih =>
      obtain ⟨k, v⟩ := o
      unfold assign
      rw [lookup_cons_eq_ite]
      by_cases hk : k = key
      · rw [if_pos hk, lookup_cons_eq_ite, hk]
        split <;> rfl
      · rw [if_neg hk, lookup_cons_eq_ite, ih]
        by_cases hkey : key' = key
        · rw [if_pos hkey, if_pos hkey, if_neg (fun h => hk (h.symm.trans hkey))]
        · rw [if_neg hkey, if_neg hkey]

/-- The value of a key is that of its last pair. -/
theorem get?_ofPairs_eq_some_iff :
    get? key (ofPairs ps) = some value ↔
      ∃ left right, ps = left ++ (key, value) :: right ∧ key ∉ right.map Prod.fst := by
  induction ps using List.reverseRecOn with
  | nil =>
      simp [ofPairs, get?]
  | append_singleton ps p ih =>
      obtain ⟨k, v⟩ := p
      have hlast : ofPairs (ps ++ [(k, v)]) = assign k v (ofPairs ps) := by
        unfold ofPairs
        rw [List.foldl_concat]
      rw [hlast, get?_assign]
      constructor
      · intro h
        split at h
        · rename_i hkey
          obtain rfl := Option.some.inj h
          exact ⟨ps, [], by rw [hkey], List.not_mem_nil⟩
        · rename_i hkey
          obtain ⟨left, right, rfl, hno⟩ := ih.1 h
          refine ⟨left, right ++ [(k, v)], by simp, ?_⟩
          simpa [hkey] using hno
      · rintro ⟨left, right, hsplit, hno⟩
        rcases List.eq_nil_or_concat right with rfl | ⟨right, q, rfl⟩
        · obtain ⟨-, hpair⟩ := List.append_inj' hsplit rfl
          obtain ⟨rfl, rfl⟩ := Prod.mk.inj (List.cons_eq_cons.1 hpair).1
          rw [if_pos rfl]
        · rw [List.concat_eq_append, ← List.cons_append, ← List.append_assoc] at hsplit
          obtain ⟨rfl, hpair⟩ := List.append_inj' hsplit rfl
          obtain rfl := (List.cons_eq_cons.1 hpair).1
          rw [List.concat_eq_append, List.map_append, List.mem_append, not_or] at hno
          have hkey : key ≠ k := fun heq => hno.2 (by simp [heq])
          rw [if_neg hkey]
          exact ih.2 ⟨left, right, rfl, hno.1⟩

theorem get?_ofPairs
    (key : Text)
    (ps : List (Text × Text)) :
    get? key (ofPairs ps) = ps.reverse.lookup key := by
  induction ps using List.reverseRecOn with
  | nil =>
      rfl
  | append_singleton ps p ih =>
      have hlast : ofPairs (ps ++ [p]) = assign p.1 p.2 (ofPairs ps) := by
        unfold ofPairs
        rw [List.foldl_concat]
      rw [hlast, get?_assign, ih, List.reverse_concat, lookup_cons_eq_ite]

theorem mem_keys_assign
    {key' : Text}
    (h : key' ∈ (assign key value options).map Prod.fst) :
    key' = key ∨ key' ∈ options.map Prod.fst := by
  induction options with
  | nil =>
      exact Or.inl (List.mem_singleton.1 h)
  | cons o options ih =>
      unfold assign at h
      split at h
      · exact Or.inr h
      · rcases List.mem_cons.1 h with rfl | h
        · exact Or.inr List.mem_cons_self
        · exact (ih h).imp_right (List.mem_cons_of_mem _)

theorem nodup_assign
    (h : (options.map Prod.fst).Nodup) :
    ((assign key value options).map Prod.fst).Nodup := by
  induction options with
  | nil =>
      exact List.nodup_singleton key
  | cons o options ih =>
      obtain ⟨hout, hrest⟩ := List.nodup_cons.1 h
      unfold assign
      split
      · exact h
      · rename_i hkey
        refine List.nodup_cons.2 ⟨fun hmem => ?_, ih hrest⟩
        rcases mem_keys_assign hmem with heq | hmem
        · exact hkey heq
        · exact hout hmem

/-- Each key of a tail comes once. -/
theorem nodup_parse
    (tail : Text) :
    ((parse tail).map Prod.fst).Nodup := by
  rw [parse_eq_ofPairs]
  induction pairs tail using List.reverseRecOn with
  | nil =>
      exact List.nodup_nil
  | append_singleton ps p ih =>
      unfold ofPairs at ih ⊢
      rw [List.foldl_concat]
      exact nodup_assign ih

end Values

end Options
end SchemaSpec
