import SchemaSpec.Proofs.Files.Matching
import SchemaSpec.Files.Search

/-!
# Patterns as they are written

A pattern is read as a climb, the leading segments without wild characters, and the segments to
match.

* `WrittenPattern`: a pattern that climbs at its front and leads down from there on;
  `Pattern.exists_written` says which texts are such patterns.
* `Pattern.cutLeading_eq`: the segments that a search jumps over.
* `WrittenPattern.ofText_toText`: how a written pattern is read.
* `leading_append_matching`, `leading_isPlain`: what its parts are.
-/

namespace SchemaSpec

open Text

/-- A pattern as it is written: it climbs a number of directories up and leads down from there on.
-/
structure WrittenPattern where
  up : Nat
  text : Text
  settled : ¬ ['.', '.', '/'] <+: text
  down : Path.above ∉ Path.segmentsOf text

namespace WrittenPattern

/-- A pattern as one text. -/
def toText (w : WrittenPattern) : Text :=
  (List.replicate w.up ['.', '.', '/']).flatten ++ w.text

/-- The segments of a pattern behind its climb. -/
def segments (w : WrittenPattern) : List Text :=
  Path.segmentsOf w.text

/-- The leading segments without wild characters; the last segment is none of them. -/
def leading (w : WrittenPattern) : List Text :=
  w.segments.dropLast.takeWhile (fun s => !s.any Wild.isWild)

/-- The directory that a pattern climbs to. -/
def top (w : WrittenPattern) (base : Path) : Path :=
  base.take (base.length - w.up)

end WrittenPattern

namespace Pattern

theorem climb_of_settled
    {t : Text}
    (h : ¬ ['.', '.', '/'] <+: t) :
    climb t = (0, t) := by
  unfold climb
  split
  · exact absurd ⟨_, rfl⟩ h
  · rfl

theorem climb_toText
    (w : WrittenPattern) :
    climb w.toText = (w.up, w.text) := by
  have hclimb : ∀ k, climb ((List.replicate k ['.', '.', '/']).flatten ++ w.text)
      = (k, w.text) := by
    intro k
    induction k with
    | zero =>
        exact climb_of_settled w.settled
    | succ k ih =>
        rw [List.replicate_succ, List.flatten_cons, List.append_assoc, List.cons_append,
          List.cons_append, List.cons_append, List.nil_append, climb, ih]
  exact hclimb w.up

/-- What is left of a text behind its climb does not climb. -/
theorem climb_spec
    (t : Text) :
    t = (List.replicate (climb t).1 ['.', '.', '/']).flatten ++ (climb t).2
      ∧ ¬ ['.', '.', '/'] <+: (climb t).2 := by
  induction t using climb.induct with
  | case1 r ih =>
      rw [climb]
      refine ⟨?_, ih.2⟩
      rw [List.replicate_succ, List.flatten_cons, List.append_assoc, ← ih.1]
      rfl
  | case2 t hno =>
      have hsettled : ¬ ['.', '.', '/'] <+: t := by
        rintro ⟨r, rfl⟩
        exact hno r rfl
      rw [climb_of_settled hsettled]
      exact ⟨rfl, hsettled⟩

/-- Every pattern without a step up behind its climb is a written pattern. -/
theorem exists_written
    {t : Text}
    (hdown : Path.above ∉ Path.segmentsOf (climb t).2) :
    ∃ w : WrittenPattern, w.toText = t := by
  obtain ⟨hwhole, hsettled⟩ := climb_spec t
  exact ⟨⟨(climb t).1, (climb t).2, hsettled, hdown⟩, hwhole.symm⟩

/-- The segments that a search jumps over are the leading ones without wild characters, and it
matches the segments behind them. -/
theorem cutLeading_eq
    (segments : List Text) :
    cutLeading segments
      = (segments.dropLast.takeWhile (fun s => !s.any Wild.isWild),
        segments.drop (segments.dropLast.takeWhile (fun s => !s.any Wild.isWild)).length) := by
  induction segments using cutLeading.induct with
  | case1 =>
      rfl
  | case2 s =>
      rfl
  | case3 s t rest hwild =>
      rw [cutLeading, if_pos hwild, List.dropLast_cons_of_ne_nil (List.cons_ne_nil t rest),
        List.takeWhile_cons_of_neg (by simp [hwild])]
      rfl
  | case4 s t rest hplain ih =>
      rw [cutLeading, if_neg hplain, ih, List.dropLast_cons_of_ne_nil (List.cons_ne_nil t rest),
        List.takeWhile_cons_of_pos (by simpa using hplain)]
      rfl

end Pattern

namespace WrittenPattern

variable (w : WrittenPattern)

/-- The segments behind the leading ones. -/
def matching : List Text :=
  w.segments.drop w.leading.length

theorem ofText_toText :
    Pattern.ofText w.toText = ⟨w.up, w.leading, w.matching⟩ := by
  unfold Pattern.ofText
  dsimp only
  rw [Pattern.climb_toText, Pattern.cutLeading_eq]
  rfl

theorem leading_append_matching :
    w.leading ++ w.matching = w.segments := by
  have hprefix : w.leading <+: w.segments :=
    (List.takeWhile_prefix _).trans (List.dropLast_prefix _)
  exact List.prefix_iff_eq_append.1 hprefix

theorem leading_isPlain :
    ∀ s ∈ w.leading, Wild.IsPlain s := by
  intro s hs
  simpa [Wild.IsPlain] using List.mem_takeWhile_imp hs

/-- Only a pattern without segments has none to match. -/
theorem matching_eq_nil_iff :
    w.matching = [] ↔ w.segments = [] := by
  unfold matching
  rw [List.drop_eq_nil_iff]
  constructor
  · intro hle
    have hshort : w.leading.length ≤ w.segments.dropLast.length :=
      (List.takeWhile_prefix _).length_le
    rw [List.length_dropLast] at hshort
    exact List.eq_nil_of_length_eq_zero (by omega)
  · intro hnil
    rw [hnil]
    exact Nat.zero_le _

theorem slash_notMem :
    ∀ s ∈ w.segments, '/' ∉ s := by
  intro s hs hslash
  have hpiece := mem_splitWhere (List.mem_filter.1 hs).1 '/' hslash
  simp at hpiece

end WrittenPattern

end SchemaSpec
