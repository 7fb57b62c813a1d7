import SchemaSpec.Proofs.Text.Ends
import SchemaSpec.Options.Scan

/-!
# Closed texts

A text is closed for a class of separators if a scan over it meets no separator and comes back to
where it started: outside strings and groups.  Closed texts are what can be put between separators
and found again.

* `Scan.quiet`: no separator is met, from a given state on.
* `Closed`: quiet from the start, and back at the start.
* `Closed.append`, `closed_of_plain`, `closed_group`, `closed_string`: how closed texts are made.
* `pieces_closed_cons`: a closed text in front of a separator is a piece.
* `splitTopLevel_append_comma`: a comma outside strings and groups cuts a text in two.
* `splitTopLevel_join`: trimmed closed texts joined by commas are found again, whatever blanks stand
  around them.
-/

namespace SchemaSpec
namespace Options

open Text

/-- Whether a character is neither a quote nor a bracket. -/
def isPlain (c : Char) : Bool :=
  !(isQuote c || isOpener c || isCloser c)

theorem isPlain_of_isWord
    {c : Char}
    (h : isWord c = true) :
    isPlain c = true := by
  have hne : ∀ d, isWord d = false → c ≠ d := fun d hd => ne_of_isWord h hd
  simp [isPlain, isQuote, isOpener, isCloser, hne _ (by decide : isWord '\x22' = false),
    hne _ (by decide : isWord '\x27' = false), hne _ (by decide : isWord '\x7b' = false),
    hne _ (by decide : isWord '[' = false), hne _ (by decide : isWord '(' = false),
    hne _ (by decide : isWord '\x7d' = false), hne _ (by decide : isWord ']' = false),
    hne _ (by decide : isWord ')' = false)]

theorem isPlain_of_isBlank
    {c : Char}
    (h : isBlank c = true) :
    isPlain c = true := by
  have hne : ∀ d, isBlank d = false → c ≠ d := by
    rintro d hd rfl
    rw [hd] at h
    exact Bool.false_ne_true h
  simp [isPlain, isQuote, isOpener, isCloser, hne _ (by decide : isBlank '\x22' = false),
    hne _ (by decide : isBlank '\x27' = false), hne _ (by decide : isBlank '\x7b' = false),
    hne _ (by decide : isBlank '[' = false), hne _ (by decide : isBlank '(' = false),
    hne _ (by decide : isBlank '\x7d' = false), hne _ (by decide : isBlank ']' = false),
    hne _ (by decide : isBlank ')' = false)]

namespace Scan

variable {sep : Char → Bool} {s : Scan} {t u : Text}

/-- Whether a scan over a text meets no separator, read from a state on. -/
def quiet (sep : Char → Bool) : Scan → Text → Bool
  | _, [] => true
  | s, c :: r => !s.separates sep c && quiet sep (s.step c) r

@[simp] theorem run_nil : s.run [] = s := rfl

@[simp] theorem run_cons (c : Char) : s.run (c :: t) = (s.step c).run t := rfl

@[simp] theorem quiet_nil : quiet sep s [] = true := rfl

@[simp] theorem quiet_cons (c : Char) :
    quiet sep s (c :: t) = (!s.separates sep c && quiet sep (s.step c) t) := rfl

theorem run_append : s.run (t ++ u) = (s.run t).run u :=
  List.foldl_append

theorem quiet_append :
    quiet sep s (t ++ u) = (quiet sep s t && quiet sep (s.run t) u) := by
  induction t generalizing s with
  | nil =>
      simp
  | cons c t ih =>
      simp [ih, Bool.and_assoc]

theorem pieces_ne_nil
    (sep : Char → Bool)
    (s : Scan)
    (t : Text) :
    s.pieces sep t ≠ [] := by
  cases t with
  | nil =>
      simp [pieces]
  | cons c t =>
      unfold pieces
      split
      · simp
      · cases pieces sep (s.step c) t <;> simp [extendHead]

/-- A quiet text stays in one piece with what follows it. -/
theorem pieces_append
    (h : quiet sep s t = true) :
    s.pieces sep (t ++ u) = ((s.run t).pieces sep u).modifyHead (t ++ ·) := by
  induction t generalizing s with
  | nil =>
      cases hu : s.pieces sep u <;> simp [hu]
  | cons c t ih =>
      simp only [quiet_cons, Bool.and_eq_true, Bool.not_eq_true'] at h
      rw [List.cons_append, pieces, h.1, ih h.2, run_cons]
      cases hu : ((s.step c).run t).pieces sep u with
      | nil =>
          exact absurd hu (pieces_ne_nil sep _ u)
      | cons q qs =>
          simp [extendHead]

/-- A quiet text is one piece. -/
theorem pieces_of_quiet
    (h : quiet sep s t = true) :
    s.pieces sep t = [t] := by
  have hwhole := pieces_append (u := []) h
  rwa [List.append_nil, pieces, List.modifyHead_cons, List.append_nil] at hwhole

/-- Only the start state separates. -/
theorem separates_of_ne_start
    (h : s ≠ start)
    (c : Char) :
    s.separates sep c = false := by
  simp [separates, h]

/-- Outside strings, a plain character changes nothing. -/
theorem step_plain
    {c : Char}
    {d : Nat}
    (hc : isPlain c = true) :
    step ⟨.code, d⟩ c = ⟨.code, d⟩ := by
  simp only [isPlain, Bool.not_eq_true', Bool.or_eq_false_iff] at hc
  simp [step, Lexical.next, hc.1.1, hc.1.2, hc.2]

theorem run_plain
    {d : Nat}
    (ht : ∀ c ∈ t, isPlain c = true) :
    run ⟨.code, d⟩ t = ⟨.code, d⟩ := by
  induction t with
  | nil =>
      rfl
  | cons c t ih =>
      rw [run_cons, step_plain (ht c List.mem_cons_self)]
      exact ih (fun e he => ht e (List.mem_cons_of_mem _ he))

/-- A text of plain characters is quiet if none of them is a separator, or inside a group. -/
theorem quiet_plain
    {d : Nat}
    (ht : ∀ c ∈ t, isPlain c = true)
    (hsep : d = 0 → ∀ c ∈ t, sep c = false) :
    quiet sep ⟨.code, d⟩ t = true := by
  induction t with
  | nil =>
      rfl
  | cons c t ih =>
      have hrest := ih (fun e he => ht e (List.mem_cons_of_mem _ he))
        (fun h0 e he => hsep h0 e (List.mem_cons_of_mem _ he))
      have hc : separates sep ⟨.code, d⟩ c = false := by
        by_cases h0 : d = 0
        · simp [separates, hsep h0 c List.mem_cons_self]
        · exact separates_of_ne_start (by simp [start, h0]) c
      rw [quiet_cons, hc, step_plain (ht c List.mem_cons_self), hrest]
      rfl

/-- A separator changes nothing. -/
theorem step_of_separates
    {c : Char}
    (h : s.separates sep c = true) :
    s.step c = s := by
  simp only [separates, Bool.and_eq_true, beq_iff_eq] at h
  obtain ⟨⟨rfl, -⟩, hc⟩ := h
  exact step_plain hc

/-- Where a scan comes back to the start, a separator cuts a text in two, and each part is cut on its
own. -/
theorem pieces_append_cons
    {c : Char}
    (h : s.run t = start)
    (hc : sep c = true)
    (hplain : isPlain c = true)
    (u : Text) :
    s.pieces sep (t ++ c :: u) = s.pieces sep t ++ start.pieces sep u := by
  induction t generalizing s with
  | nil =>
      rw [run_nil] at h
      simp only [isPlain, Bool.not_eq_true'] at hplain
      have hsep : start.separates sep c = true := by
        simp [separates, hc, hplain]
      rw [List.nil_append, h, pieces, pieces, if_pos hsep]
      rfl
  | cons d t ih =>
      rw [run_cons] at h
      rw [List.cons_append, pieces, pieces]
      split
      · rename_i hsep
        rw [step_of_separates hsep] at h
        rw [ih h]
        rfl
      · rw [ih h, extendHead_append (pieces_ne_nil sep _ t)]

/-- Groups do not matter to the place of a scan with respect to strings. -/
theorem place_run
    (s : Scan)
    (t : Text) :
    (s.run t).place = t.foldl Lexical.next s.place := by
  induction t generalizing s with
  | nil =>
      rfl
  | cons c t ih =>
      have hstep : (s.step c).place = s.place.next c := by
        obtain ⟨place, depth⟩ := s
        cases place with
        | literal q escaped =>
            rfl
        | code =>
            have hopener : isOpener c = true → isQuote c = false := by
              simp only [isOpener, Bool.or_eq_true, beq_iff_eq]
              rintro ((rfl | rfl) | rfl) <;> rfl
            have hcloser : isCloser c = true → isQuote c = false := by
              simp only [isCloser, Bool.or_eq_true, beq_iff_eq]
              rintro ((rfl | rfl) | rfl) <;> rfl
            simp only [step, Lexical.next]
            by_cases ho : isOpener c = true
            · simp [ho, hopener ho]
            · by_cases hc : isCloser c = true
              · simp [ho, hc, hcloser hc]
              · simp [ho, hc]
      rw [run_cons, ih, hstep, List.foldl_cons]

theorem place_of_run
    (h : start.run t = .start) :
    t.foldl Lexical.next .code = .code := by
  have hplace := place_run start t
  rw [h] at hplace
  exact hplace.symm

end Scan

/-- Whether a scan over a text meets no separator and ends outside strings and groups. -/
def Closed (sep : Char → Bool) (t : Text) : Prop :=
  Scan.quiet sep .start t = true ∧ Scan.start.run t = .start

section Closed

variable {sep : Char → Bool} {t u : Text}

theorem Closed.append
    (ht : Closed sep t)
    (hu : Closed sep u) :
    Closed sep (t ++ u) := by
  constructor
  · rw [Scan.quiet_append, ht.1, ht.2, hu.1]
    rfl
  · rw [Scan.run_append, ht.2, hu.2]

/-- A text without quotes, brackets and separators is closed. -/
theorem closed_of_plain
    (ht : ∀ c ∈ t, isPlain c = true)
    (hsep : ∀ c ∈ t, sep c = false) :
    Closed sep t :=
  ⟨Scan.quiet_plain ht (fun _ => hsep), Scan.run_plain ht⟩

/-- A group of plain characters is closed, whether separators stand in it or not. -/
theorem closed_group
    (ht : ∀ c ∈ t, isPlain c = true) :
    Closed sep ('\x7b' :: t ++ ['\x7d']) := by
  have hopen : Scan.start.step '\x7b' = ⟨.code, 1⟩ := by decide
  have hclose : Scan.step ⟨.code, 1⟩ '\x7d' = .start := by decide
  have hrun : Scan.run ⟨.code, 1⟩ t = ⟨.code, 1⟩ := Scan.run_plain ht
  have hquiet : Scan.quiet sep ⟨.code, 1⟩ t = true :=
    Scan.quiet_plain ht (fun h0 => absurd h0 (by decide))
  constructor
  · rw [List.cons_append, Scan.quiet_cons, hopen, Scan.quiet_append, hquiet, hrun]
    simp [Scan.separates, isQuote, isOpener, isCloser]
  · rw [List.cons_append, Scan.run_cons, hopen, Scan.run_append, hrun, Scan.run_cons, hclose,
      Scan.run_nil]

/-- A string in quotes is closed, whatever stands in it but the quote and backslashes. -/
theorem closed_string
    {q : Char}
    (hq : isQuote q = true)
    (ht : ∀ c ∈ t, c ≠ q ∧ c ≠ '\\') :
    Closed sep (q :: t ++ [q]) := by
  have hopen : Scan.start.step q = ⟨.literal q false, 0⟩ := by
    simp only [isQuote, Bool.or_eq_true, beq_iff_eq] at hq
    rcases hq with rfl | rfl <;> decide
  have hinside : ∀ d, d ≠ q ∧ d ≠ '\\' →
      Scan.step ⟨.literal q false, 0⟩ d = ⟨.literal q false, 0⟩ := by
    intro d hd
    simp [Scan.step, Lexical.next, hd.1, hd.2]
  have hback : q ≠ '\\' := by
    rintro rfl
    cases hq
  have hclose : Scan.step ⟨.literal q false, 0⟩ q = .start := by
    simp [Scan.step, Lexical.next, hback, Scan.start]
  have hno : Scan.start.separates sep q = false := by
    simp [Scan.separates, hq]
  have hquiet : ∀ d, Scan.separates sep ⟨.literal q false, 0⟩ d = false :=
    Scan.separates_of_ne_start (by simp [Scan.start])
  have hbody : Scan.quiet sep ⟨.literal q false, 0⟩ t = true
      ∧ Scan.run ⟨.literal q false, 0⟩ t = ⟨.literal q false, 0⟩ := by
    induction t with
    | nil =>
        exact ⟨rfl, rfl⟩
    | cons d t ih =>
        obtain ⟨hd, ht⟩ := List.forall_mem_cons.1 ht
        rw [Scan.quiet_cons, Scan.run_cons, hquiet, hinside d hd]
        exact ih ht
  constructor
  · rw [List.cons_append, Scan.quiet_cons, hno, hopen, Scan.quiet_append, hbody.1, hbody.2,
      Scan.quiet_cons, hquiet]
    rfl
  · rw [List.cons_append, Scan.run_cons, hopen, Scan.run_append, hbody.2, Scan.run_cons, hclose,
      Scan.run_nil]

/-- A closed text is one piece. -/
theorem pieces_closed
    (ht : Closed sep t) :
    Scan.start.pieces sep t = [t] :=
  Scan.pieces_of_quiet ht.1

/-- A closed text in front of a separator is a piece, and the reading starts anew behind it. -/
theorem pieces_closed_cons
    {c : Char}
    (ht : Closed sep t)
    (hc : sep c = true)
    (hplain : isPlain c = true) :
    Scan.start.pieces sep (t ++ c :: u) = t :: Scan.start.pieces sep u := by
  rw [Scan.pieces_append_cons ht.2 hc hplain, pieces_closed ht]
  rfl

end Closed

/-- A comma. -/
abbrev isComma : Char → Bool := fun c => c == ','

theorem not_isComma_of_isBlank
    {c : Char}
    (h : isBlank c = true) :
    isComma c = false := by
  refine Bool.eq_false_iff.2 (fun hcomma => ?_)
  rw [beq_iff_eq.1 hcomma] at h
  exact absurd h (by decide)

theorem closed_of_allBlank
    {t : Text}
    (ht : AllBlank t) :
    Closed isComma t :=
  closed_of_plain (fun c hc => isPlain_of_isBlank (ht c hc))
    (fun c hc => not_isComma_of_isBlank (ht c hc))

/-- A text without top-level commas is one piece, unless it is blank. -/
theorem splitTopLevel_of_quiet
    {t : Text}
    (h : Scan.quiet isComma .start t = true) :
    splitTopLevel t = if trim t = [] then [] else [trim t] := by
  unfold splitTopLevel splitTopLevelBy
  rw [Scan.pieces_of_quiet h, List.map_singleton, List.filter_singleton]
  cases trim t <;> rfl

/-- Behind a comma outside strings and groups, the cutting starts anew. -/
theorem splitTopLevel_append_comma
    {t : Text}
    (h : Scan.start.run t = .start)
    (u : Text) :
    splitTopLevel (t ++ ',' :: u) = splitTopLevel t ++ splitTopLevel u := by
  unfold splitTopLevel splitTopLevelBy
  rw [Scan.pieces_append_cons h (by decide) (by decide), List.map_append, List.filter_append]

theorem not_isComma_of_isWord
    {c : Char}
    (h : isWord c = true) :
    isComma c = false := by
  simpa [isComma] using ne_of_isWord h (by decide : isWord ',' = false)

theorem closed_word
    {w : Text}
    (h : IsWordRun w) :
    Closed isComma w :=
  closed_of_plain (fun c hc => isPlain_of_isWord (h.2 c hc))
    (fun c hc => not_isComma_of_isWord (h.2 c hc))

/-- A word in quotes is closed. -/
theorem closed_quotedWord
    {w : Text}
    (h : IsWordRun w) :
    Closed isComma ('\x22' :: w ++ ['\x22']) :=
  closed_string (by decide)
    (fun c hc => ⟨ne_of_isWord (h.2 c hc) (by decide), ne_of_isWord (h.2 c hc) (by decide)⟩)

/-- What stands between two items. -/
def comma : Text := ", ".toList

end Options
end SchemaSpec
