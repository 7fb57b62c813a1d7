import SchemaSpec.Proofs.Text.Encoding
import SchemaSpec.Proofs.Text.Ends

/-!
# Line ends

The text of a file may end its lines in three ways, and reading makes them one.

* `fileLines`: the lines of a file, each with its line end.
* `Respelled`: one text is another with a line feed for each line end.
* `Respelled.dropEnd`: dropping the line ends at the end of a text goes along with respelling it.
* `Respelled.eq_of_not_mem`, `Respelled.exists_return`: the two are the same, up to the first carriage
  return.
* `Respelled.encode_prefix_iff`, `Respelled.encode_suffix_iff`: when the bytes at the start or the end
  are the same.
* `fileLines_unifyLineEnds`, `dropEnd_join_filter`: the lines of a file that is read, and dropping some
  of them.
-/

namespace SchemaSpec
namespace Text

/-- Whether a character is a line end, or part of one. -/
def isLineEnd (c : Char) : Bool :=
  c == '\n' || c == '\r'

/-- The lines of the text of a file, each with its line end. -/
def fileLines : Text → List Text
  | [] => []
  | '\r' :: '\n' :: r => ['\r', '\n'] :: fileLines r
  | '\r' :: r => ['\r'] :: fileLines r
  | '\n' :: r => ['\n'] :: fileLines r
  | c :: r => extendHead c (fileLines r)

/-- The second text is the first one with line feeds in place of its line ends; a carriage return
with a line feed behind it may be one line end or two. -/
inductive Respelled : Text → Text → Prop
  | nil : Respelled [] []
  | same (c : Char) {t u : Text} (hc : c ≠ '\r') (h : Respelled t u) : Respelled (c :: t) (c :: u)
  | single {t u : Text} (h : Respelled t u) : Respelled ('\r' :: t) ('\n' :: u)
  | pair {t u : Text} (h : Respelled t u) : Respelled ('\r' :: '\n' :: t) ('\n' :: u)

section Spelling

variable {t u v w : Text}

theorem unifyLineEnds_cons
    {c : Char}
    (hc : c ≠ '\r')
    (t : Text) :
    unifyLineEnds (c :: t) = c :: unifyLineEnds t := by
  rw [unifyLineEnds]
  · exact fun r heq _ => hc heq
  · exact hc

theorem respelled_unifyLineEnds
    (t : Text) :
    Respelled t (unifyLineEnds t) := by
  induction t using unifyLineEnds.induct with
  | case1 =>
      exact .nil
  | case2 r ih =>
      rw [unifyLineEnds]
      exact .pair ih
  | case3 r hr ih =>
      rw [unifyLineEnds]
      · exact .single ih
      · exact hr
  | case4 c r _ hsingle ih =>
      rw [unifyLineEnds_cons hsingle]
      exact .same c hsingle ih

theorem Respelled.append
    (h : Respelled t u)
    (h' : Respelled v w) :
    Respelled (t ++ v) (u ++ w) := by
  induction h with
  | nil =>
      exact h'
  | same c hc _ ih =>
      exact .same c hc ih
  | single _ ih =>
      exact .single ih
  | pair _ ih =>
      exact .pair ih

theorem Respelled.flatten
    {f : Text → Text}
    (h : ∀ t, Respelled t (f t))
    (ts : List Text) :
    Respelled ts.flatten (ts.map f).flatten := by
  induction ts with
  | nil =>
      exact .nil
  | cons t ts ih =>
      exact (h t).append ih

theorem Respelled.eq_nil_iff
    (h : Respelled t u) :
    t = [] ↔ u = [] := by
  cases h <;> simp

/-- Dropping the line ends at the end of a text goes along with respelling it. -/
theorem Respelled.dropEnd
    (h : Respelled t u) :
    Respelled (dropEnd isLineEnd t) (dropEnd isLineEnd u) := by
  induction h with
  | nil =>
      exact .nil
  | same c hc _ ih =>
      simp only [dropEnd_cons, ih.eq_nil_iff]
      split
      · exact .nil
      · exact .same c hc ih
  | single _ ih =>
      have hreturn : isLineEnd '\r' = true := rfl
      have hfeed : isLineEnd '\n' = true := rfl
      simp only [dropEnd_cons, ih.eq_nil_iff, hreturn, hfeed, and_true]
      split
      · exact .nil
      · exact .single ih
  | pair _ ih =>
      have hreturn : isLineEnd '\r' = true := rfl
      have hfeed : isLineEnd '\n' = true := rfl
      simp only [dropEnd_cons, ih.eq_nil_iff, hreturn, hfeed, and_true]
      split
      · exact .nil
      · rw [if_neg (List.cons_ne_nil _ _)]
        exact .pair ih

/-- A text without carriage returns is its own respelling. -/
theorem Respelled.eq_of_not_mem
    (h : Respelled t u)
    (hreturn : '\r' ∉ t) :
    u = t := by
  induction h with
  | nil =>
      rfl
  | same c _ _ ih =>
      rw [ih (fun hmem => hreturn (List.mem_cons_of_mem c hmem))]
  | single _ _ =>
      exact absurd List.mem_cons_self hreturn
  | pair _ _ =>
      exact absurd List.mem_cons_self hreturn

/-- A text with a carriage return differs from its respelling where the first one stands. -/
theorem Respelled.exists_return
    (h : Respelled t u)
    (hreturn : '\r' ∈ t) :
    ∃ s v w, t = s ++ '\r' :: v ∧ u = s ++ '\n' :: w := by
  induction h with
  | nil =>
      cases hreturn
  | same c hc _ ih =>
      rcases List.mem_cons.1 hreturn with rfl | hmem
      · exact absurd rfl hc
      · obtain ⟨s, v, w, rfl, rfl⟩ := ih hmem
        exact ⟨c :: s, v, w, rfl, rfl⟩
  | single _ _ =>
      exact ⟨[], _, _, rfl, rfl⟩
  | pair _ _ =>
      exact ⟨[], _, _, rfl, rfl⟩

theorem Respelled.return_not_mem
    (h : Respelled t u) :
    '\r' ∉ u := by
  induction h with
  | nil =>
      exact List.not_mem_nil
  | same c hc _ ih =>
      simpa using ⟨fun heq => hc heq.symm, ih⟩
  | single _ ih =>
      simpa using ih
  | pair _ ih =>
      simpa using ih

/-- A text without line ends is the respelling of itself alone. -/
theorem Respelled.eq_iff
    (h : Respelled t u)
    (hfeed : '\n' ∉ v)
    (hreturn : '\r' ∉ v) :
    t = v ↔ u = v := by
  constructor
  · rintro rfl
    exact h.eq_of_not_mem hreturn
  · rintro rfl
    induction h with
    | nil =>
        rfl
    | same c _ _ ih =>
        rw [ih (fun hmem => hfeed (List.mem_cons_of_mem c hmem))
          (fun hmem => hreturn (List.mem_cons_of_mem c hmem))]
    | single _ _ =>
        exact absurd List.mem_cons_self hfeed
    | pair _ _ =>
        exact absurd List.mem_cons_self hfeed

theorem Respelled.allBlank
    (h : Respelled t u)
    (hu : AllBlank u) :
    AllBlank t := by
  induction h with
  | nil =>
      exact allBlank_nil
  | same c _ _ ih =>
      have hrest := ih (fun d hd => hu d (List.mem_cons_of_mem c hd))
      exact List.forall_mem_cons.2 ⟨hu c List.mem_cons_self, hrest⟩
  | single _ ih =>
      have hrest := ih (fun d hd => hu d (List.mem_cons_of_mem _ hd))
      exact List.forall_mem_cons.2 ⟨by decide, hrest⟩
  | pair _ ih =>
      have hrest := ih (fun d hd => hu d (List.mem_cons_of_mem _ hd))
      exact List.forall_mem_cons.2 ⟨by decide, List.forall_mem_cons.2 ⟨by decide, hrest⟩⟩

/-- Where a text that is read is cut at a character that is no line feed, its source is cut. -/
theorem exists_of_unifyLineEnds_eq
    {c : Char}
    (hc : c ≠ '\n')
    (h : unifyLineEnds t = u ++ c :: v) :
    ∃ before behind, t = before ++ c :: behind ∧ unifyLineEnds before = u
      ∧ unifyLineEnds behind = v := by
  induction t using unifyLineEnds.induct generalizing u with
  | case1 =>
      exact absurd h.symm (by simp [unifyLineEnds])
  | case2 r ih =>
      rw [unifyLineEnds] at h
      rcases List.cons_eq_append_iff.1 h with ⟨-, heq⟩ | ⟨u, rfl, hrest⟩
      · exact absurd (List.cons.inj heq).1 hc
      · obtain ⟨before, behind, rfl, rfl, rfl⟩ := ih hrest
        exact ⟨'\r' :: '\n' :: before, behind, rfl, by rw [unifyLineEnds], rfl⟩
  | case3 r hr ih =>
      rw [unifyLineEnds] at h
      · rcases List.cons_eq_append_iff.1 h with ⟨-, heq⟩ | ⟨u, rfl, hrest⟩
        · exact absurd (List.cons.inj heq).1 hc
        · obtain ⟨before, behind, rfl, rfl, rfl⟩ := ih hrest
          refine ⟨'\r' :: before, behind, rfl, ?_, rfl⟩
          rw [unifyLineEnds]
          rintro rest rfl
          exact hr _ rfl
      · exact hr
  | case4 d r _ hreturn ih =>
      rw [unifyLineEnds_cons hreturn] at h
      rcases List.cons_eq_append_iff.1 h with ⟨rfl, heq⟩ | ⟨u, rfl, hrest⟩
      · obtain ⟨rfl, rfl⟩ := List.cons.inj heq
        exact ⟨[], r, rfl, rfl, rfl⟩
      · obtain ⟨before, behind, rfl, rfl, rfl⟩ := ih hrest
        exact ⟨d :: before, behind, rfl, unifyLineEnds_cons hreturn before, rfl⟩

end Spelling

section Bytes

variable {t u : Text}

theorem Respelled.length_encode_le
    (h : Respelled t u) :
    (encode u).length ≤ (encode t).length := by
  induction h with
  | nil =>
      exact Nat.le_refl _
  | same c _ _ ih =>
      simpa [encode] using ih
  | single _ ih =>
      exact Nat.succ_le_succ ih
  | pair _ ih =>
      exact Nat.le_succ_of_le (Nat.succ_le_succ ih)

/-- The bytes of a text are at the start of those of its respelling exactly if the text has no
carriage return. -/
theorem Respelled.encode_prefix_iff
    (h : Respelled t u)
    (rest : Bytes) :
    encode t <+: encode u ++ rest ↔ '\r' ∉ t := by
  constructor
  · rintro hprefix hmem
    obtain ⟨s, v, w, rfl, rfl⟩ := h.exists_return hmem
    have hreturn : encode ('\r' :: v) = 13 :: encode v := rfl
    have hfeed : encode ('\n' :: w) = 10 :: encode w := rfl
    rw [encode_append, encode_append, List.append_assoc, List.prefix_append_right_inj, hreturn,
      hfeed, List.cons_append, List.cons_prefix_cons] at hprefix
    exact absurd hprefix.1 (by decide)
  · intro hreturn
    rw [h.eq_of_not_mem hreturn]
    exact List.prefix_append _ _

/-- The bytes of blanks behind a character are at the end of those of their respelling exactly if
the blanks have no carriage return. -/
theorem Respelled.encode_suffix_iff
    (h : Respelled t u)
    {c : Char}
    (hc : c.toNat < 0x80)
    (hnot : c ∉ t)
    (front : Bytes) :
    encode (c :: t) <:+ front ++ encode (c :: u) ↔ '\r' ∉ t := by
  constructor
  · intro hsuffix hmem
    have hcons : ∀ v, encode (c :: v) = c.toNat.toUInt8 :: encode v := by
      intro v
      rw [encode, List.flatMap_cons, encodeChar_of_ascii hc]
      rfl
    -- The byte of the character stands at the start of both ends only, so both are the same.
    have hother : encode (c :: u) <:+ encode (c :: t) :=
      List.suffix_of_suffix_length_le (List.suffix_append _ _) hsuffix
        (by simpa [hcons] using h.length_encode_le)
    rw [hcons, hcons, List.suffix_cons_iff] at hother
    have hsame : encode u = encode t := by
      rcases hother with heq | hlater
      · exact (List.cons.inj heq).2
      · exact absurd ((mem_encode_iff hc).1 (hlater.subset List.mem_cons_self)) hnot
    have hreturn := (mem_encode_iff (c := '\r') (by decide)).2 hmem
    rw [← hsame] at hreturn
    exact h.return_not_mem ((mem_encode_iff (by decide)).1 hreturn)
  · intro hreturn
    rw [h.eq_of_not_mem hreturn]
    exact List.suffix_append _ _

end Bytes

section Lines

variable {t u v : Text}

theorem fileLines_cons
    {c : Char}
    (hc : isLineEnd c = false)
    (t : Text) :
    fileLines (c :: t) = extendHead c (fileLines t) := by
  obtain ⟨hfeed, hreturn⟩ : c ≠ '\n' ∧ c ≠ '\r' := by
    simpa [isLineEnd] using hc
  rw [fileLines]
  · exact fun r heq _ => hreturn heq
  · exact hreturn
  · exact hfeed

/-- The lines of a file that is read are those of the file, each read. -/
theorem fileLines_unifyLineEnds
    (t : Text) :
    fileLines (unifyLineEnds t) = (fileLines t).map unifyLineEnds := by
  induction t using fileLines.induct with
  | case1 =>
      rfl
  | case2 r ih =>
      rw [unifyLineEnds, fileLines, fileLines, ih]
      rfl
  | case3 r hr ih =>
      rw [unifyLineEnds, fileLines, fileLines, ih]
      · rfl
      · exact hr
      · exact hr
  | case4 r ih =>
      rw [unifyLineEnds_cons (by decide), fileLines, fileLines, ih]
      rfl
  | case5 c r _ hreturn hfeed ih =>
      have hc : isLineEnd c = false := by
        simpa [isLineEnd] using ⟨hfeed, hreturn⟩
      rw [unifyLineEnds_cons hreturn, fileLines_cons hc, fileLines_cons hc, ih]
      cases fileLines r with
      | nil =>
          exact congrArg (fun line => [line]) (unifyLineEnds_cons hreturn []).symm
      | cons line rest =>
          exact congrArg (fun line => line :: rest.map unifyLineEnds)
            (unifyLineEnds_cons hreturn line).symm

/-- Lines with a line feed behind each but the last one, and without an empty last one. -/
def ended : List Text → List Text
  | [] => []
  | [line] => if line = [] then [] else [line]
  | line :: next :: rest => (line ++ ['\n']) :: ended (next :: rest)

theorem fileLines_eq_ended
    (h : '\r' ∉ t) :
    fileLines t = ended (lines t) := by
  induction t with
  | nil =>
      rfl
  | cons c t ih =>
      obtain ⟨hc, ht⟩ : '\r' ≠ c ∧ '\r' ∉ t := by
        simpa using h
      have ih := ih ht
      obtain ⟨line, rest, hlines⟩ := List.exists_cons_of_ne_nil (lines_ne_nil t)
      by_cases hfeed : c = '\n'
      · subst hfeed
        have hcut : lines ('\n' :: t) = [] :: lines t := rfl
        rw [hcut, fileLines, ih, hlines]
        rfl
      · have hend : isLineEnd c = false := by
          simpa [isLineEnd] using ⟨hfeed, fun heq => hc heq.symm⟩
        have hcut : lines (c :: t) = extendHead c (lines t) := by
          simp [lines, splitOn, splitWhere, hfeed]
        rw [hcut, fileLines_cons hend, ih, hlines]
        cases rest with
        | nil =>
            by_cases hnil : line = []
            · simp [ended, extendHead, hnil]
            · simp [ended, extendHead, hnil]
        | cons next rest =>
            rfl

theorem dropEnd_append_lineFeed
    (t : Text) :
    dropEnd isLineEnd (t ++ ['\n']) = dropEnd isLineEnd t :=
  dropEnd_append_of_all (fun c hc => by rw [List.mem_singleton.1 hc]; rfl) t

theorem dropEnd_join_cons
    (line : Text)
    (ls : List Text) :
    dropEnd isLineEnd (join ['\n'] (line :: ls))
      = dropEnd isLineEnd ((line ++ ['\n']) ++ join ['\n'] ls) := by
  cases ls with
  | nil =>
      rw [join_singleton, join_nil, List.append_nil, dropEnd_append_lineFeed]
  | cons next rest =>
      rw [join_cons (List.cons_ne_nil next rest)]

/-- Dropping lines and then the line ends at the end, with the line ends between the lines or each
behind its own. -/
theorem dropEnd_join_filter
    (keep : Text → Bool)
    {ls : List Text}
    (h : ∀ line ∈ ls, ∀ c ∈ line, isLineEnd c = false) :
    dropEnd isLineEnd (join ['\n'] (ls.filter keep))
      = dropEnd isLineEnd
        ((ended ls).filter (fun line => keep (dropEnd isLineEnd line))).flatten := by
  induction ls with
  | nil =>
      rfl
  | cons line rest ih =>
      have hline := h line List.mem_cons_self
      have ih := ih (fun other hother => h other (List.mem_cons_of_mem line hother))
      have hself : dropEnd isLineEnd line = line :=
        dropEnd_eq_self (fun c hc => hline c (List.mem_of_getLast? hc))
      cases rest with
      | nil =>
          -- The last line has no line end, and is no line of the file if it is empty.
          by_cases hnil : line = []
          · subst hnil
            by_cases hkeep : keep [] = true
            · rw [List.filter_cons_of_pos hkeep]
              rfl
            · rw [List.filter_cons_of_neg hkeep]
              rfl
          · rw [ended, if_neg hnil]
            by_cases hkeep : keep line = true
            · rw [List.filter_cons_of_pos hkeep, List.filter_cons_of_pos (by rwa [hself])]
              simp
            · rw [List.filter_cons_of_neg hkeep, List.filter_cons_of_neg (by rwa [hself])]
              rfl
      | cons next rest =>
          have hended : ended (line :: next :: rest) = (line ++ ['\n']) :: ended (next :: rest) :=
            rfl
          have hfeed : dropEnd isLineEnd (line ++ ['\n']) = line := by
            rw [dropEnd_append_lineFeed, hself]
          rw [hended]
          generalize next :: rest = others at ih ⊢
          by_cases hkeep : keep line = true
          · rw [List.filter_cons_of_pos hkeep, List.filter_cons_of_pos (by rwa [hfeed]),
              dropEnd_join_cons, List.flatten_cons]
            exact dropEnd_append_congr ih (line ++ ['\n'])
          · rw [List.filter_cons_of_neg hkeep, List.filter_cons_of_neg (by rwa [hfeed]), ih]

end Lines

end Text
end SchemaSpec
