import SchemaSpec.Proofs.Text.Cuts
import SchemaSpec.Proofs.Enumeration.Written
import SchemaSpec.Proofs.Enumeration.Pairing

/-!
# Lists over several lines

The lines of a list in brackets are put together without their comments, and the list is found
between its brackets, whatever follows it.

* `stripComment_trim`: what is left of a line without its comment.
* `IsToken`: what may stand in a list: nothing that opens or closes.
* `exists_continuation`: what the lines behind the first one add.
* `exists_gather`: between the first two brackets that match stand the tokens of the list.
-/

namespace SchemaSpec
namespace EnumDecl

open Text Options

/-! ## Comments -/

/-- Whether a character neither starts a string nor a comment. -/
def isUncommented (c : Char) : Bool :=
  !isQuote c && c != '#'

section Comments

variable {code comment : Text}

theorem beforeComment?_append_eq
    (s : Lexical)
    (t u : Text) :
    beforeComment? s (t ++ u)
      = (beforeComment? s t).or ((beforeComment? (t.foldl Lexical.next s) u).map (t ++ ·)) := by
  induction t generalizing s with
  | nil =>
      simp [beforeComment?]
  | cons c t ih =>
      rw [List.cons_append, beforeComment?, beforeComment?]
      split
      · rfl
      · rw [ih, List.foldl_cons]
        cases beforeComment? (s.next c) t with
        | some before =>
            rfl
        | none =>
            simp only [Option.none_or, Option.map_none, Option.map_map]
            rfl

/-- Code without quotes and comment signs leaves a line where it is. -/
theorem beforeComment?_uncommented
    (hcode : ∀ c ∈ code, isUncommented c = true) :
    beforeComment? .code code = none ∧ code.foldl Lexical.next .code = .code := by
  induction code with
  | nil =>
      exact ⟨rfl, rfl⟩
  | cons c code ih =>
      obtain ⟨hc, hrest⟩ := List.forall_mem_cons.1 hcode
      simp only [isUncommented, Bool.and_eq_true, Bool.not_eq_true', bne_iff_ne] at hc
      have hnext : Lexical.code.next c = .code := by
        simp [Lexical.next, hc.1]
      rw [beforeComment?, if_neg (fun h => hc.2 h.2), List.foldl_cons, hnext, (ih hrest).1]
      exact ⟨rfl, (ih hrest).2⟩

theorem beforeComment?_append
    (hcode : ∀ c ∈ code, isUncommented c = true)
    (t : Text) :
    beforeComment? .code (code ++ t) = (beforeComment? .code t).map (code ++ ·) := by
  obtain ⟨hnone, hplace⟩ := beforeComment?_uncommented hcode
  rw [beforeComment?_append_eq, hnone, hplace, Option.none_or]

theorem trimEnd_append_cons
    {c : Char}
    (hc : isBlank c = false)
    (t u : Text) :
    trimEnd (t ++ c :: u) = t ++ c :: trimEnd u := by
  have hlast : ∀ d, (t ++ [c]).getLast? = some d → isBlank d = false := by
    intro d hd
    rw [List.getLast?_concat] at hd
    rwa [← Option.some.inj hd]
  have hend := dropEnd_append_of_last hlast u
  unfold trimEnd
  simpa using hend

theorem trim_append_cons
    {c : Char}
    (hc : isBlank c = false)
    (t u : Text) :
    trim (t ++ c :: u) = trimStart t ++ c :: trimEnd u := by
  have hstart : trimStart (t ++ c :: u) = trimStart t ++ c :: u := by
    unfold trimStart
    rw [List.dropWhile_append]
    split
    · rename_i hnil
      rw [List.isEmpty_iff.1 hnil]
      simp [hc]
    · rfl
  rw [trim, hstart, trimEnd_append_cons hc]

/-- Of a line, what stands before its comment is left, without the blanks at its ends. -/
theorem stripComment_trim
    (hcode : ∀ c ∈ code, isUncommented c = true)
    (hcomment : IsComment comment) :
    stripComment (trim (code ++ comment)) = trim code := by
  unfold stripComment
  cases comment with
  | nil =>
      have hnone := beforeComment?_append (fun c hc => hcode c (trim_subset code hc)) []
      rw [List.append_nil] at hnone ⊢
      rw [hnone]
      rfl
  | cons d t =>
      rw [hcomment d rfl, trim_append_cons (by decide),
        beforeComment?_append (fun c hc => hcode c (trimStart_subset code hc))]
      simp [beforeComment?, trim]

/-- Behind code that ends without a blank, only the rest loses its comment. -/
theorem stripComment_append_cons
    {c : Char}
    (hc : isBlank c = false)
    (hcode : ∀ d ∈ code ++ [c], isUncommented d = true)
    (t : Text) :
    stripComment (code ++ c :: t) = code ++ c :: stripComment t := by
  have hsplit : ∀ u : Text, code ++ c :: u = (code ++ [c]) ++ u := by
    intro u
    simp
  unfold stripComment
  rw [hsplit t, beforeComment?_append hcode]
  cases beforeComment? .code t with
  | none =>
      exact (hsplit t).symm
  | some before =>
      have htrim : trimEnd (code ++ [c] ++ before) = code ++ c :: trimEnd before := by
        rw [← hsplit, trimEnd_append_cons hc]
      exact htrim

end Comments

/-! ## Lines put together -/

section Gathering

variable {c : Char} {t : Text} {form : ListForm}

theorem isInert_of_isBlank
    (h : isBlank c = true) :
    isInert c = true := by
  have hne : c ≠ '#' := by
    rintro rfl
    exact absurd h (by decide)
  simp [isInert, isPlain_of_isBlank h, hne]

theorem isInert_of_isWord
    (h : isWord c = true) :
    isInert c = true := by
  have hne : c ≠ '#' := ne_of_isWord h (by decide)
  simp [isInert, isPlain_of_isWord h, hne]

theorem allInert_of_allBlank
    (ht : AllBlank t) :
    AllInert t :=
  fun c hc => isInert_of_isBlank (ht c hc)

theorem allInert_of_isWordRun
    (ht : IsWordRun t) :
    AllInert t :=
  fun c hc => isInert_of_isWord (ht.2 c hc)

theorem AllInert.append
    {u : Text}
    (ht : AllInert t)
    (hu : AllInert u) :
    AllInert (t ++ u) := by
  intro c hc
  rcases List.mem_append.1 hc with hc | hc
  · exact ht c hc
  · exact hu c hc

theorem isUncommented_of_isInert
    (h : isInert c = true) :
    isUncommented c = true := by
  simp only [isInert, isPlain, Bool.and_eq_true, Bool.not_eq_true', Bool.or_eq_false_iff] at h
  simp [isUncommented, h.1.1.1, bne_iff_ne.1 h.2]

/-- The brackets of a form are a pair. -/
theorem ListForm.brackets_mem
    (form : ListForm) :
    (form.opener, form.closer) ∈ [('\x7b', '\x7d'), ('[', ']'), ('(', ')')] := by
  cases form with
  | hash =>
      simp [opener, closer]
  | array =>
      simp [opener, closer]
  | words kind hkind round =>
      cases round <;> simp [opener, closer]

theorem ListForm.opener_facts
    (form : ListForm) :
    isInert form.opener = false ∧ isBlank form.opener = false
      ∧ isUncommented form.opener = true := by
  have h : ∀ p ∈ [('\x7b', '\x7d'), ('[', ']'), ('(', ')')], isInert p.1 = false
      ∧ isBlank p.1 = false ∧ isUncommented p.1 = true := by
    decide
  exact h _ form.brackets_mem

theorem ListForm.closer_facts
    (form : ListForm) :
    isInert form.closer = false ∧ isBlank form.closer = false
      ∧ isUncommented form.closer = true ∧ form.closer ≠ form.opener := by
  have h : ∀ p ∈ [('\x7b', '\x7d'), ('[', ']'), ('(', ')')], isInert p.2 = false
      ∧ isBlank p.2 = false ∧ isUncommented p.2 = true ∧ p.2 ≠ p.1 := by
    decide
  exact h _ form.brackets_mem

/-- Up to the bracket that closes a list, its line has no comment. -/
theorem isUncommented_of_closed
    (form : ListForm)
    {code : Text}
    (hcode : AllInert code) :
    ∀ c ∈ code ++ [form.closer], isUncommented c = true := by
  intro c hc
  rcases List.mem_append.1 hc with hc | hc
  · exact isUncommented_of_isInert (hcode c hc)
  · rw [List.mem_singleton.1 hc]
    exact form.closer_facts.2.2.1

/-- What is left of a line that closes a list. -/
theorem stripComment_closed
    (form : ListForm)
    {code : Text}
    (hcode : AllInert code)
    (tail : Text) :
    stripComment (trim (code ++ form.closer :: tail))
      = trimStart code ++ form.closer :: stripComment (trimEnd tail) := by
  have hblank := form.closer_facts.2.1
  have hstart : AllInert (trimStart code) := fun c hc => hcode c (trimStart_subset code hc)
  rw [trim_append_cons hblank,
    stripComment_append_cons hblank (isUncommented_of_closed form hstart)]

theorem not_mem_of_not_isInert
    (hc : isInert c = false)
    (ht : AllInert t) :
    c ∉ t := by
  intro hmem
  rw [ht c hmem] at hc
  cases hc

/-- A token of a list: it has no blanks at its ends, and no quotes, brackets or comment signs. -/
def IsToken (w : Text) : Prop :=
  IsTrimmed w ∧ AllInert w

theorem Spaced.allInert
    {apart : Bool}
    {ws : List Text}
    (hws : ∀ w ∈ ws, IsToken w)
    (h : Spaced apart ws t) :
    AllInert t := by
  intro c hc
  rcases h.mem hc with hblank | ⟨w, hw, hmem⟩
  · exact isInert_of_isBlank hblank
  · exact (hws w hw).2 c hmem

theorem balance_of_isInert
    (form : ListForm)
    (ht : AllInert t) :
    balance form.opener form.closer t = 0 := by
  have hopen := not_mem_of_not_isInert form.opener_facts.1 ht
  have hclose := not_mem_of_not_isInert form.closer_facts.1 ht
  rw [balance, List.count_eq_zero_of_not_mem hopen, List.count_eq_zero_of_not_mem hclose]
  rfl

/-- A list that is open goes on with the code of the next line. -/
theorem exists_continuation_cons
    (opener closer : Char)
    {depth : Int}
    (h : 0 < depth)
    (line : Text)
    (ls : List Text) :
    ∃ more, continuation opener closer depth (line :: ls)
      = ' ' :: stripComment (trim line) ++ more := by
  rw [continuation, if_neg (by omega)]
  exact ⟨_, rfl⟩

/-- What stands in front of the closing bracket on the lines of a list are its tokens, whatever
stands behind it. -/
theorem exists_continuation
    {behind : Text}
    {tokens lines : List Text}
    (htokens : ∀ w ∈ tokens, IsToken w)
    (h : IsListed form behind tokens lines)
    (after : List Text) :
    ∃ inner rest, continuation form.opener form.closer 1 (lines ++ after)
        = inner ++ form.closer :: rest
      ∧ Spaced form.apart tokens inner ∧ StartsBlank inner := by
  have hspace : ∀ t : Text, StartsBlank (' ' :: t) := by
    intro t c hc
    rw [← Option.some.inj hc]
    decide
  induction h with
  | @last ws code comment hcode hcomment =>
      obtain ⟨more, hmore⟩ := exists_continuation_cons form.opener form.closer
        (by decide : (0 : Int) < 1) (code ++ form.closer :: (behind ++ comment)) after
      refine ⟨' ' :: trimStart code, stripComment (trimEnd (behind ++ comment)) ++ more, ?_, ?_,
        hspace _⟩
      · have hline : code ++ form.closer :: behind ++ comment
            = code ++ form.closer :: (behind ++ comment) := by
          simp
        rw [hline, List.cons_append, List.nil_append, hmore,
          stripComment_closed form (hcode.allInert htokens)]
        simp
      · exact (hcode.trimStart (fun w hw => (htokens w hw).1)).blank_append allBlank_space
  | @line ws us code comment lines hcode hcomment hlines ih =>
      obtain ⟨hws, hus⟩ := List.forall_mem_append.1 htokens
      obtain ⟨inner, rest, hrest, hspaced, hstart⟩ := ih hus
      have hinert := hcode.allInert hws
      have hread : stripComment (trim (code ++ comment)) = trim code :=
        stripComment_trim (fun c hc => isUncommented_of_isInert (hinert c hc)) hcomment
      have htrim : AllInert (trim code) := fun c hc => hinert c (trim_subset code hc)
      have hpart : hasPart (form.closer :: " do".toList) (trim code) = false := by
        rw [hasPart, cutAt?_eq_none (not_mem_of_not_isInert form.closer_facts.1 htrim)]
        rfl
      refine ⟨' ' :: trim code ++ inner, rest, ?_, ?_, hspace _⟩
      · rw [List.cons_append, continuation, if_neg (by decide)]
        dsimp only
        rw [hread, hpart, balance_of_isInert form htrim, if_neg (by decide), Int.add_zero, hrest]
        simp
      · have hfirst := hcode.trim (fun w hw => (hws w hw).1)
        exact (hfirst.blank_append allBlank_space).append hspaced hstart

/-- Between an opening bracket and the next closing one stands what is between them. -/
theorem inner?_append
    (form : ListForm)
    (ht : AllInert t)
    (u : Text) :
    inner? form.opener form.closer (form.opener :: (t ++ form.closer :: u)) = some t :=
  inner?_paired form.closer_facts.2.2.2
    (openAfter?_of_not_mem (not_mem_of_not_isInert form.opener_facts.1 ht)
      (not_mem_of_not_isInert form.closer_facts.1 ht) 0) u

theorem wordListKind_cases
    (h : isWordListKind c = true) :
    c = 'i' ∨ c = 'w' ∨ c = 'I' ∨ c = 'W' := by
  simpa [isWordListKind, or_assoc] using h

theorem ListForm.lead_facts
    (form : ListForm) :
    (∀ c ∈ form.lead, isUncommented c = true) ∧ trimStart form.lead = form.lead := by
  cases form with
  | hash =>
      simp [lead, trimStart]
  | array =>
      simp [lead, trimStart]
  | words kind hkind round =>
      have hletter : isUncommented kind = true := by
        rcases wordListKind_cases hkind with rfl | rfl | rfl | rfl <;> decide
      refine ⟨fun c hc => ?_, trimStart_eq_self (fun c hc => ?_)⟩
      · rcases List.mem_cons.1 hc with rfl | hc
        · decide
        · rw [List.mem_singleton.1 hc]
          exact hletter
      · rw [← Option.some.inj hc]
        decide

theorem ListForm.isUncommented_lead
    (form : ListForm) :
    ∀ c ∈ form.lead ++ [form.opener], isUncommented c = true := by
  intro c hc
  rcases List.mem_append.1 hc with hc | hc
  · exact form.lead_facts.1 c hc
  · rw [List.mem_singleton.1 hc]
    exact form.opener_facts.2.2

/-- What is left of the first line of a list. -/
theorem stripComment_first
    (form : ListForm)
    (t : Text) :
    stripComment (trim (form.lead ++ form.opener :: t))
      = form.lead ++ form.opener :: stripComment (trimEnd t) := by
  have hblank := form.opener_facts.2.1
  rw [trim_append_cons hblank, form.lead_facts.2,
    stripComment_append_cons hblank form.isUncommented_lead]

/-- What is left of the first line of a list that goes on. -/
theorem stripComment_trimEnd
    {code comment : Text}
    (hcode : AllInert code)
    (hcomment : IsComment comment) :
    stripComment (trimEnd (code ++ comment)) = trimEnd code := by
  have hunc : ∀ c ∈ code, isUncommented c = true := fun c hc => isUncommented_of_isInert (hcode c hc)
  unfold stripComment
  cases comment with
  | nil =>
      have hnone := beforeComment?_append (fun c hc => hunc c (trimEnd_subset code hc)) []
      rw [List.append_nil] at hnone ⊢
      rw [hnone]
      rfl
  | cons d t =>
      rw [hcomment d rfl, trimEnd_append_cons (by decide), beforeComment?_append hunc]
      simp [beforeComment?]

theorem not_isOpener_of_isInert
    (h : isInert c = true) :
    isOpener c = false := by
  simp only [isInert, isPlain, Bool.and_eq_true, Bool.not_eq_true', Bool.or_eq_false_iff] at h
  exact h.1.1.2

/-- What is left of a list that stands on one line. -/
theorem stripComment_whole
    (form : ListForm)
    {code : Text}
    (hcode : AllInert code)
    (tail : Text) :
    stripComment (trim (form.lead ++ form.opener :: (code ++ form.closer :: tail)))
      = form.lead ++ form.opener :: (code ++ form.closer :: stripComment (trimEnd tail)) := by
  have hblank := form.closer_facts.2.1
  rw [stripComment_first, trimEnd_append_cons hblank,
    stripComment_append_cons hblank (isUncommented_of_closed form hcode)]

/-- The lines of a list in brackets, put together, have its tokens between the first two brackets
that match; and on its first line no other bracket is opened, if none is opened behind the list. -/
theorem exists_gather
    {behind line : Text}
    {tokens lines : List Text}
    (hbehind : lines = [] → AllInert behind)
    (htokens : ∀ w ∈ tokens, IsToken w)
    (h : IsListed form behind tokens (line :: lines))
    (after : List Text) :
    ∃ first, stripComment (trim (form.lead ++ form.opener :: line))
        = form.lead ++ form.opener :: first
      ∧ (∀ c ∈ first, isOpener c = false)
      ∧ ∃ inner, inner? form.opener form.closer
          (gather form.opener form.closer (form.opener :: first) (lines ++ after)) = some inner
        ∧ Spaced form.apart tokens inner := by
  obtain ⟨-, hblank, -, hne⟩ := form.closer_facts
  cases h with
  | @last _ code comment hcode hcomment =>
      have hinert := hcode.allInert htokens
      have hbehind := hbehind rfl
      have hend : AllInert (trimEnd behind) := fun c hc =>
        hbehind c (trimEnd_subset behind hc)
      refine ⟨code ++ form.closer :: trimEnd behind, ?_, ?_, code, ?_, hcode⟩
      · rw [List.append_assoc, List.cons_append, stripComment_whole form hinert,
          stripComment_trimEnd hbehind hcomment]
      · have hcloser : isOpener form.closer = false := by
          have h : ∀ p ∈ [('\x7b', '\x7d'), ('[', ']'), ('(', ')')], isOpener p.2 = false := by
            decide
          exact h _ form.brackets_mem
        intro c hc
        rcases List.mem_append.1 hc with hc | hc
        · exact not_isOpener_of_isInert (hinert c hc)
        rcases List.mem_cons.1 hc with rfl | hc
        · exact hcloser
        · exact not_isOpener_of_isInert (hend c hc)
      · rw [gather, List.cons_append, List.append_assoc, List.cons_append]
        exact inner?_append form hinert _
  | @line ws us code comment _ hcode hcomment hlines =>
      obtain ⟨hws, hus⟩ := List.forall_mem_append.1 htokens
      obtain ⟨inner, rest, hrest, hspaced, hstart⟩ := exists_continuation hus hlines after
      have hinert := hcode.allInert hws
      have hend : AllInert (trimEnd code) := fun c hc =>
        hinert c (trimEnd_subset code hc)
      have hall := (hcode.trimEnd (fun w hw => (hws w hw).1)).append hspaced hstart
      have hopen : balance form.opener form.closer (form.opener :: trimEnd code)
          = 1 + balance form.opener form.closer (trimEnd code) := by
        unfold balance
        rw [List.count_cons_self, List.count_cons_of_ne (Ne.symm hne)]
        push_cast
        omega
      refine ⟨trimEnd code, ?_, fun c hc => not_isOpener_of_isInert (hend c hc),
        trimEnd code ++ inner, ?_, hall⟩
      · rw [stripComment_first, stripComment_trimEnd hinert hcomment]
      · have hjoined := inner?_append form (hall.allInert htokens) rest
        rw [List.append_assoc] at hjoined
        rw [gather, hopen, balance_of_isInert form hend, Int.add_zero, hrest, List.cons_append]
        exact hjoined

end Gathering

end EnumDecl
end SchemaSpec
