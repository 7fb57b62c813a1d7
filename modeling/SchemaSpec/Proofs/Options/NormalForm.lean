import SchemaSpec.Proofs.Options.Tails

/-!
# The pieces of a text, put together again

Cutting a text at its top-level commas gives pieces that stay as they are from then on: joined with
commas, they are found again.  Only the last of them may leave a string or a group open.

* `IsPiece`: a text that is cut into itself alone.
* `IsPieceList`: pieces of which all but the last are closed.
* `quiet_or_exists_cut`: a text is one piece, or its first separator cuts it in two.
* `isPieceList_splitTopLevel`, `splitTopLevel_join_of_isPieceList`: cutting gives such lists, and finds
  each of them again.
-/

namespace SchemaSpec
namespace Options

open Text

/-- A text that is cut into itself alone. -/
structure IsPiece (piece : Text) : Prop where
  nonempty : piece ≠ []
  trimmed : trim piece = piece
  whole : splitTopLevel piece = [piece]

/-- Pieces of which all but the last are closed: a scan over them ends outside strings and groups. -/
structure IsPieceList (pieces : List Text) : Prop where
  isPiece : ∀ p ∈ pieces, IsPiece p
  closed : ∀ p ∈ pieces.dropLast, Scan.start.run p = .start

section Scanning

variable {sep : Char → Bool} {s : Scan} {t u : Text}

namespace Scan

/-- A scan is in a string behind a quote only. -/
theorem isQuote_of_place_run
    {q : Char}
    {escaped : Bool}
    (h : (start.run t).place = .literal q escaped) :
    isQuote q = true := by
  induction t using List.reverseRecOn generalizing escaped with
  | nil =>
      cases h
  | append_singleton t c ih =>
      rw [place_run, List.foldl_append, ← place_run] at h
      change (start.run t).place.next c = _ at h
      cases hplace : (start.run t).place with
      | code =>
          rw [hplace, Lexical.next] at h
          split at h
          · rename_i hquote
            cases h
            exact hquote
          · cases h
      | literal p escaped' =>
          rw [hplace] at h
          have hsame : p = q := by
            cases escaped' with
            | true =>
                cases h
                rfl
            | false =>
                rw [Lexical.next] at h
                split_ifs at h
                · cases h
                  rfl
                · cases h
                  rfl
          exact ih (hsame ▸ hplace)

/-- No blank ends a string or a group. -/
theorem eq_start_of_step_isBlank
    {c : Char}
    (hquote : ∀ q escaped, s.place = .literal q escaped → isQuote q = true)
    (hc : isBlank c = true)
    (h : s.step c = start) :
    s = start := by
  have hplain := isPlain_of_isBlank hc
  obtain ⟨place, depth⟩ := s
  cases place with
  | code =>
      rwa [step_plain hplain] at h
  | literal q escaped =>
      have hne : c ≠ q := by
        rintro rfl
        simp [isPlain, hquote c escaped rfl] at hplain
      have hback : c ≠ '\\' := by
        rintro rfl
        exact absurd hc (by decide)
      cases escaped <;> simp [step, Lexical.next, hne, hback, start] at h

/-- Blanks at the end do not matter to a text that a scan comes back from. -/
theorem run_eq_start_of_append_blank
    (hu : AllBlank u)
    (h : start.run (t ++ u) = start) :
    start.run t = start := by
  induction u using List.reverseRecOn with
  | nil =>
      rwa [List.append_nil] at h
  | append_singleton u c ih =>
      rw [← List.append_assoc, run_append] at h
      refine ih (fun d hd => hu d (List.mem_append_left _ hd)) ?_
      exact eq_start_of_step_isBlank (fun q escaped => isQuote_of_place_run) (hu c (by simp)) h

/-- A text is one piece, or its first separator cuts it in two: what is before it is closed, and the
cutting starts anew behind it. -/
theorem quiet_or_exists_cut
    (sep : Char → Bool)
    (s : Scan)
    (t : Text) :
    quiet sep s t = true
      ∨ ∃ first c rest, t = first ++ c :: rest ∧ quiet sep s first = true
        ∧ s.run first = start ∧ sep c = true := by
  induction t generalizing s with
  | nil =>
      exact Or.inl rfl
  | cons c t ih =>
      by_cases hsep : s.separates sep c = true
      · simp only [separates, Bool.and_eq_true, beq_iff_eq] at hsep
        exact Or.inr ⟨[], c, t, rfl, rfl, hsep.1.1, hsep.1.2⟩
      · rw [Bool.not_eq_true] at hsep
        rcases ih (s.step c) with hquiet | ⟨first, d, rest, rfl, hquiet, hrun, hd⟩
        · exact Or.inl (by rw [quiet_cons, hsep, hquiet]; rfl)
        · exact Or.inr ⟨c :: first, d, rest, rfl, by rw [quiet_cons, hsep, hquiet]; rfl, hrun, hd⟩

end Scan

end Scanning

section Pieces

variable {t p : Text} {ps : List Text}

theorem isPieceList_nil : IsPieceList [] :=
  ⟨by simp, by simp⟩

theorem isPieceList_singleton
    (h : IsPiece p) :
    IsPieceList [p] :=
  ⟨by simpa using h, by simp⟩

/-- A closed piece in front of pieces. -/
theorem IsPieceList.cons
    (hp : IsPiece p)
    (hclosed : Scan.start.run p = .start)
    (h : IsPieceList ps) :
    IsPieceList (p :: ps) := by
  refine ⟨List.forall_mem_cons.2 ⟨hp, h.isPiece⟩, ?_⟩
  cases ps with
  | nil =>
      simp
  | cons q qs =>
      rw [List.dropLast_cons_cons]
      exact List.forall_mem_cons.2 ⟨hclosed, h.closed⟩

/-- What is left of a text without top-level commas is a piece. -/
theorem isPiece_trim
    (h : Scan.quiet isComma .start t = true)
    (hne : trim t ≠ []) :
    IsPiece (trim t) := by
  refine ⟨hne, trim_trim t, ?_⟩
  rw [splitTopLevel_trim, splitTopLevel_of_quiet h, if_neg hne]

/-- What is left of a text that a scan comes back from is closed. -/
theorem run_trim
    (h : Scan.start.run t = .start) :
    Scan.start.run (trim t) = .start := by
  obtain ⟨left, right, ht, hleft, hright⟩ := exists_trim_surround t
  rw [ht] at h
  have hfront := Scan.run_eq_start_of_append_blank hright h
  rwa [Scan.run_append, (closed_of_allBlank hleft).2] at hfront

/-- Cutting gives pieces, all but the last of them closed. -/
theorem isPieceList_splitTopLevel
    (t : Text) :
    IsPieceList (splitTopLevel t) := by
  -- The induction is on the text behind the first comma.
  induction hlength : t.length using Nat.strong_induction_on generalizing t with
  | h n ih =>
      rcases Scan.quiet_or_exists_cut isComma .start t with hquiet |
        ⟨first, c, rest, rfl, hquiet, hrun, hc⟩
      · rw [splitTopLevel_of_quiet hquiet]
        split_ifs with hblank
        · exact isPieceList_nil
        · exact isPieceList_singleton (isPiece_trim hquiet hblank)
      · have hrest : IsPieceList (splitTopLevel rest) :=
          ih rest.length (by simp [← hlength]; omega) rest rfl
        rw [beq_iff_eq.1 hc, splitTopLevel_append_comma hrun, splitTopLevel_of_quiet hquiet]
        split_ifs with hblank
        · exact hrest
        · exact hrest.cons (isPiece_trim hquiet hblank) (run_trim hrun)

/-- Pieces joined with commas are found again. -/
theorem splitTopLevel_join_of_isPieceList
    (h : IsPieceList ps) :
    splitTopLevel (join comma ps) = ps := by
  induction ps with
  | nil =>
      rfl
  | cons p ps ih =>
      obtain ⟨hp, hps⟩ := List.forall_mem_cons.1 h.isPiece
      cases ps with
      | nil =>
          exact hp.whole
      | cons q qs =>
          have hclosed := h.closed
          rw [List.dropLast_cons_cons, List.forall_mem_cons] at hclosed
          have hspace := splitTopLevel_surround allBlank_space allBlank_nil (join comma (q :: qs))
          rw [List.append_nil] at hspace
          have htext : join comma (p :: q :: qs) = p ++ ',' :: ([' '] ++ join comma (q :: qs)) := by
            rw [join_cons (List.cons_ne_nil q qs)]
            simp [comma]
          rw [htext, splitTopLevel_append_comma hclosed.1, hspace, hp.whole, ih ⟨hps, hclosed.2⟩]
          rfl

end Pieces

/-- Cutting a text gives pieces that are trimmed, not empty and cut into themselves alone, all but the
last of them closed; joined with commas, they are found again.  The lists of such pieces are exactly
those that are found again. -/
theorem splitTopLevel_normalForm :
    (∀ t, IsPieceList (splitTopLevel t)
        ∧ splitTopLevel (join comma (splitTopLevel t)) = splitTopLevel t)
      ∧ ∀ ps, splitTopLevel (join comma ps) = ps ↔ IsPieceList ps := by
  refine ⟨fun t => ?_, fun ps => ⟨fun h => ?_, splitTopLevel_join_of_isPieceList⟩⟩
  · have hlist := isPieceList_splitTopLevel t
    exact ⟨hlist, splitTopLevel_join_of_isPieceList hlist⟩
  · have hlist := isPieceList_splitTopLevel (join comma ps)
    rwa [h] at hlist

/-- The last piece may leave a string open. -/
example : splitTopLevel "a, f(b, c), 'd, e".toList
    = ["a".toList, "f(b, c)".toList, "'d, e".toList] := by
  decide

end Options
end SchemaSpec
