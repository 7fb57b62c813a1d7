import SchemaSpec.Proofs.Text.Ends
import SchemaSpec.Document.Declared

/-!
# What a text declares

A name is found in a text exactly if the text holds a declaration of it: a keyword at the start of a
word, blanks, the name, blanks or nothing, and an opening brace.

* `mem_declaredFrom_iff`: the names found are those declared.
* `declares_append_cons`, `declares_append_brace`: a declaration does not reach over a character
  that cannot stand in it, nor beyond its brace, so texts can be looked at piece by piece.
* `declares_append_of_brace_not_mem`, `declares_of_blank_append`: nothing is declared by what stands
  behind a text and has no brace, nor by blanks before a text.
-/

namespace SchemaSpec
namespace Document

open Text

/-- Characters of names: no blanks and no opening brace. -/
structure NameClass (p : Char → Bool) : Prop where
  not_isBlank : ∀ c, p c = true → isBlank c = false
  not_brace : p '\x7b' = false

/-- Whether a word character stands before a place behind a text; `inWord` says so of what stands
before the text. -/
def endsInWord (inWord : Bool) (t : Text) : Bool :=
  (t.getLast?.map isWord).getD inWord

/-- A declaration: a keyword, blanks, a name, blanks or nothing, and an opening brace. -/
def IsDeclaration (keyword : Text) (p : Char → Bool) (name code : Text) : Prop :=
  ∃ gap space, (AllBlank gap ∧ gap ≠ []) ∧ (name ≠ [] ∧ ∀ c ∈ name, p c = true)
    ∧ AllBlank space ∧ code = keyword ++ gap ++ name ++ space ++ ['\x7b']

/-- A text holds a declaration of a name at the start of a word. -/
def Declares (keyword : Text) (p : Char → Bool) (inWord : Bool) (name t : Text) : Prop :=
  ∃ before code after, t = before ++ code ++ after ∧ endsInWord inWord before = false
    ∧ IsDeclaration keyword p name code

section EndsInWord

variable {inWord : Bool} {c : Char} {t u : Text}

@[simp] theorem endsInWord_nil :
    endsInWord inWord [] = inWord := rfl

@[simp] theorem endsInWord_concat :
    endsInWord inWord (t ++ [c]) = isWord c := by
  simp [endsInWord]

theorem endsInWord_append :
    endsInWord inWord (t ++ u) = endsInWord (endsInWord inWord t) u := by
  rcases List.eq_nil_or_concat u with rfl | ⟨u, c, rfl⟩
  · rw [List.append_nil, endsInWord_nil]
  · rw [List.concat_eq_append, ← List.append_assoc, endsInWord_concat, endsInWord_concat]

theorem endsInWord_cons :
    endsInWord inWord (c :: t) = endsInWord (isWord c) t := by
  have h : endsInWord inWord ([c] ++ t) = endsInWord (endsInWord inWord [c]) t := endsInWord_append
  simpa [endsInWord] using h

/-- Texts that are each followed by a separator end in no word, if the separator ends in none. -/
theorem endsInWord_flatMap
    {sep : Text}
    (hsep : ∀ inWord, endsInWord inWord sep = false)
    (ts : List Text) :
    endsInWord false (ts.flatMap (fun u => u ++ sep)) = false := by
  induction ts with
  | nil =>
      rfl
  | cons t ts ih =>
      rw [List.flatMap_cons, endsInWord_append, endsInWord_append, hsep]
      exact ih

end EndsInWord

section Here

variable {keyword name t : Text} {p : Char → Bool}

/-- What is found at a place stands there. -/
theorem exists_of_declaredHere?
    (h : declaredHere? keyword p t = some name) :
    ∃ code after, t = code ++ after ∧ IsDeclaration keyword p name code := by
  unfold declaredHere? at h
  split at h
  · rename_i c r hafter
    dsimp only at h
    split_ifs at h with hblank hname
    obtain rfl := Option.some.inj h
    rw [Bool.and_eq_true, Bool.not_eq_true', List.isEmpty_eq_false_iff, beq_iff_eq] at hname
    obtain ⟨after, hbrace⟩ := List.head?_eq_some_iff.1 hname.2
    have hgap : r = r.takeWhile isBlank ++ trimStart r :=
      (List.takeWhile_append_dropWhile).symm
    have hrun : trimStart r = (trimStart r).takeWhile p ++ (trimStart r).dropWhile p :=
      (List.takeWhile_append_dropWhile).symm
    have hspace : (trimStart r).dropWhile p
        = ((trimStart r).dropWhile p).takeWhile isBlank ++ '\x7b' :: after := by
      rw [← hbrace]
      exact (List.takeWhile_append_dropWhile).symm
    refine ⟨_, after, ?_, c :: r.takeWhile isBlank,
      ((trimStart r).dropWhile p).takeWhile isBlank, ⟨?_, List.cons_ne_nil _ _⟩,
      ⟨hname.1, fun d hd => List.mem_takeWhile_imp hd⟩,
      fun d hd => List.mem_takeWhile_imp hd, rfl⟩
    · rw [after?_eq_some_iff.1 hafter]
      simp only [List.append_assoc, List.cons_append, List.nil_append]
      rw [← hspace, ← hrun, ← hgap]
    · intro d hd
      rcases List.mem_cons.1 hd with rfl | hd
      · exact hblank
      · exact List.mem_takeWhile_imp hd
  · cases h

/-- A name ends where blanks and a brace begin. -/
theorem stop_of_allBlank
    (hclass : NameClass p)
    {space : Text}
    (hspace : AllBlank space)
    (after : Text) :
    ∀ d, (space ++ '\x7b' :: after).head? = some d → p d = false := by
  intro d hd
  cases space with
  | nil =>
      have hbrace : d = '\x7b' := by simpa [eq_comm] using hd
      rw [hbrace]
      exact hclass.not_brace
  | cons b space =>
      have hfirst : d = b := by simpa [eq_comm] using hd
      have hblank : isBlank d = true := hfirst ▸ hspace b List.mem_cons_self
      by_contra hp
      rw [Bool.not_eq_false] at hp
      rw [hclass.not_isBlank d hp] at hblank
      cases hblank

/-- A declaration that stands at a place is found there. -/
theorem declaredHere?_of_isDeclaration
    (hclass : NameClass p)
    {code : Text}
    (hcode : IsDeclaration keyword p name code)
    (after : Text) :
    declaredHere? keyword p (code ++ after) = some name := by
  obtain ⟨gap, space, ⟨hgap, hne⟩, hname, hspace, rfl⟩ := hcode
  obtain ⟨c, gap, rfl⟩ := List.exists_cons_of_ne_nil hne
  obtain ⟨hc, hgap⟩ := List.forall_mem_cons.1 hgap
  have hafter : after? keyword (keyword ++ c :: gap ++ name ++ space ++ ['\x7b'] ++ after)
      = some (c :: (gap ++ (name ++ (space ++ '\x7b' :: after)))) :=
    after?_eq_some_iff.2 (by simp)
  have hfirst : ∀ d, (name ++ (space ++ '\x7b' :: after)).head? = some d → isBlank d = false := by
    intro d hd
    rw [List.head?_append_of_ne_nil _ hname.1] at hd
    exact hclass.not_isBlank d (hname.2 d (List.mem_of_mem_head? hd))
  have hrest : trimStart (gap ++ (name ++ (space ++ '\x7b' :: after)))
      = name ++ (space ++ '\x7b' :: after) := by
    rw [trimStart_append_of_blank hgap, trimStart_eq_self hfirst]
  have hbrace : trimStart (space ++ '\x7b' :: after) = '\x7b' :: after := by
    rw [trimStart_append_of_blank hspace]
    refine trimStart_eq_self (fun d hd => ?_)
    rw [← Option.some.inj hd]
    decide
  have hstop := stop_of_allBlank hclass hspace after
  unfold declaredHere?
  rw [hafter]
  simp only [hc, if_true, hrest, takeWhile_append_of_stop hname.2 hstop,
    dropWhile_append_of_stop hname.2 hstop, hbrace, List.head?_cons, beq_self_eq_true,
    Bool.and_true, Bool.not_eq_true', List.isEmpty_eq_false_iff]
  exact if_pos hname.1

/-- What is found at a place is the declaration that stands there. -/
theorem declaredHere?_eq_some_iff
    (hclass : NameClass p) :
    declaredHere? keyword p t = some name ↔
      ∃ code after, t = code ++ after ∧ IsDeclaration keyword p name code := by
  constructor
  · exact exists_of_declaredHere?
  · rintro ⟨code, after, rfl, hcode⟩
    exact declaredHere?_of_isDeclaration hclass hcode after

end Here

section Found

variable {keyword name : Text} {p : Char → Bool}

theorem IsDeclaration.ne_nil
    {code : Text}
    (h : IsDeclaration keyword p name code) :
    code ≠ [] := by
  obtain ⟨gap, space, -, -, -, rfl⟩ := h
  simp

/-- A declaration in a longer text stands at its start or behind its first character. -/
theorem declares_cons
    {inWord : Bool}
    {c : Char}
    {t : Text} :
    Declares keyword p inWord name (c :: t) ↔
      (inWord = false ∧ ∃ code after, c :: t = code ++ after ∧ IsDeclaration keyword p name code)
        ∨ Declares keyword p (isWord c) name t := by
  constructor
  · rintro ⟨before, code, after, htext, hstart, hcode⟩
    cases before with
    | nil =>
        exact Or.inl ⟨hstart, code, after, htext, hcode⟩
    | cons b before =>
        obtain ⟨rfl, rfl⟩ := List.cons_eq_cons.1 htext
        rw [endsInWord_cons] at hstart
        exact Or.inr ⟨before, code, after, rfl, hstart, hcode⟩
  · rintro (⟨hstart, code, after, htext, hcode⟩ | ⟨before, code, after, rfl, hstart, hcode⟩)
    · exact ⟨[], code, after, htext, hstart, hcode⟩
    · exact ⟨c :: before, code, after, rfl, by rwa [endsInWord_cons], hcode⟩

/-- The names found in a text are those that it declares. -/
theorem mem_declaredFrom_iff
    (hclass : NameClass p)
    {inWord : Bool}
    {t : Text} :
    name ∈ declaredFrom keyword p inWord t ↔ Declares keyword p inWord name t := by
  induction t generalizing inWord with
  | nil =>
      constructor
      · intro h
        cases h
      · rintro ⟨before, code, after, htext, -, hcode⟩
        have hnil := List.append_eq_nil_iff.1 (List.append_eq_nil_iff.1 htext.symm).1
        exact absurd hnil.2 hcode.ne_nil
  | cons c t ih =>
      rw [declaredFrom, List.mem_append, ih, declares_cons, Option.mem_toList]
      refine or_congr ?_ Iff.rfl
      cases inWord with
      | true =>
          simp
      | false =>
          simp only [Bool.false_eq_true, if_false, true_and]
          exact declaredHere?_eq_some_iff hclass

/-- A piece of a text that is cut in two lies in the first part, lies in the second, or is cut
itself. -/
theorem cut_cases
    {before code after a b : Text}
    (h : before ++ code ++ after = a ++ b) :
    (∃ x, a = before ++ code ++ x)
      ∨ (∃ x, before = a ++ x ∧ b = x ++ code ++ after)
      ∨ ∃ left right, left ≠ [] ∧ right ≠ [] ∧ code = left ++ right ∧ a = before ++ left
        ∧ b = right ++ after := by
  rcases List.append_eq_append_iff.1 h with ⟨x, ha, -⟩ | ⟨x, hcode, hb⟩
  · exact Or.inl ⟨x, ha⟩
  rcases List.append_eq_append_iff.1 hcode with ⟨left, ha, hcode⟩ | ⟨y, hbefore, hx⟩
  · by_cases hleft : left = []
    · subst hleft
      exact Or.inr (Or.inl ⟨[], by simpa using ha.symm, by simpa [hcode] using hb⟩)
    by_cases hright : x = []
    · subst hright
      exact Or.inl ⟨[], by simpa [hcode] using ha⟩
    · exact Or.inr (Or.inr ⟨left, x, hleft, hright, hcode, ha, hb⟩)
  · exact Or.inr (Or.inl ⟨y, hbefore, by rw [hb, hx]⟩)

variable {inWord : Bool} {t u : Text}

/-- The brace of a declaration is its last character. -/
theorem IsDeclaration.getLast?
    {code : Text}
    (h : IsDeclaration keyword p name code) :
    code.getLast? = some '\x7b' := by
  obtain ⟨gap, space, -, -, -, rfl⟩ := h
  exact List.getLast?_concat

/-- A declaration stays one when the text goes on. -/
theorem Declares.append_right
    (h : Declares keyword p inWord name t)
    (u : Text) :
    Declares keyword p inWord name (t ++ u) := by
  obtain ⟨before, code, after, rfl, hstart, hcode⟩ := h
  exact ⟨before, code, after ++ u, by simp, hstart, hcode⟩

/-- A declaration stays one behind a text that leaves the start of a word where it was. -/
theorem Declares.append_left
    (h : Declares keyword p (endsInWord inWord u) name t) :
    Declares keyword p inWord name (u ++ t) := by
  obtain ⟨before, code, after, rfl, hstart, hcode⟩ := h
  refine ⟨u ++ before, code, after, by simp, ?_, hcode⟩
  rw [endsInWord_append]
  exact hstart

/-- No declaration ends in a text without an opening brace. -/
theorem Declares.of_append
    (h : Declares keyword p inWord name (t ++ u))
    (hu : '\x7b' ∉ u) :
    Declares keyword p inWord name t := by
  obtain ⟨before, code, after, htext, hstart, hcode⟩ := h
  rcases cut_cases htext.symm with ⟨x, rfl⟩ | ⟨x, -, rfl⟩ | ⟨left, right, -, hr, hsplit, -, rfl⟩
  · exact ⟨before, code, x, rfl, hstart, hcode⟩
  · have hmem := List.mem_of_getLast? hcode.getLast?
    exact absurd (by simp [hmem]) hu
  · have hlast := hcode.getLast?
    rw [hsplit, List.getLast?_append_of_ne_nil _ hr] at hlast
    exact absurd (List.mem_append_left _ (List.mem_of_getLast? hlast)) hu

end Found

/-! ## Models -/

/-- A text declares a model. -/
def DeclaresModel (name t : Text) : Prop :=
  Declares "model".toList isWord false name t

/-- A character at which a declaration of a model breaks off. -/
def isStop (c : Char) : Bool :=
  !isWord c && !isBlank c && c != '\x7b'

section Models

variable {name t u a b : Text} {c : Char}

theorem nameClass_isWord :
    NameClass isWord where
  not_isBlank := fun _ => not_isBlank_of_isWord
  not_brace := by decide

theorem mem_modelNames_iff :
    name ∈ modelNames t ↔ DeclaresModel name t :=
  mem_declaredFrom_iff nameClass_isWord

/-- The declared names are words. -/
theorem DeclaresModel.isWordRun
    (h : DeclaresModel name t) :
    IsWordRun name := by
  obtain ⟨_, _, _, _, _, _, _, _, hname, _⟩ := h
  exact hname

/-- The brace of a declaration is its last character, and no other character of it ends it. -/
theorem exists_core
    {code : Text}
    (h : IsDeclaration "model".toList isWord name code) :
    ∃ core, code = core ++ ['\x7b'] ∧ core.head? = some 'm'
      ∧ ∀ c ∈ core, isWord c = true ∨ isBlank c = true := by
  obtain ⟨gap, space, ⟨hgap, -⟩, hname, hspace, rfl⟩ := h
  refine ⟨_, rfl, rfl, fun c hc => ?_⟩
  simp only [List.mem_append] at hc
  rcases hc with ((hc | hc) | hc) | hc
  · exact Or.inl ((by decide : IsWordRun "model".toList).2 c hc)
  · exact Or.inr (hgap c hc)
  · exact Or.inl (hname.2 c hc)
  · exact Or.inr (hspace c hc)

theorem not_mem_of_isStop
    {code : Text}
    (h : IsDeclaration "model".toList isWord name code)
    (hc : isStop c = true) :
    c ∉ code := by
  obtain ⟨core, rfl, -, hcore⟩ := exists_core h
  simp only [isStop, Bool.and_eq_true, Bool.not_eq_true', bne_iff_ne] at hc
  intro hmem
  rcases List.mem_append.1 hmem with hmem | hmem
  · rcases hcore c hmem with hword | hblank
    · rw [hc.1.1] at hword
      cases hword
    · rw [hc.1.2] at hblank
      cases hblank
  · exact hc.2 (List.mem_singleton.1 hmem)

/-- A declaration stays one when the text goes on. -/
theorem DeclaresModel.append_right
    (h : DeclaresModel name t)
    (u : Text) :
    DeclaresModel name (t ++ u) :=
  Declares.append_right h u

/-- A declaration stays one behind a text that ends in no word. -/
theorem DeclaresModel.append_left
    (h : DeclaresModel name t)
    (hu : endsInWord false u = false) :
    DeclaresModel name (u ++ t) := by
  refine Declares.append_left ?_
  rw [hu]
  exact h

/-- No declaration reaches over a character that breaks it off. -/
theorem declares_append_cons
    (hc : isStop c = true) :
    DeclaresModel name (a ++ c :: b) ↔ DeclaresModel name a ∨ DeclaresModel name b := by
  have hword : isWord c = false := by
    simp only [isStop, Bool.and_eq_true, Bool.not_eq_true'] at hc
    exact hc.1.1
  constructor
  · rintro ⟨before, code, after, htext, hstart, hcode⟩
    have hout := not_mem_of_isStop hcode hc
    rcases cut_cases htext.symm with ⟨x, rfl⟩ | ⟨x, rfl, hb⟩ | ⟨left, right, -, hne, rfl, -, hb⟩
    · exact Or.inl ⟨before, code, x, rfl, hstart, hcode⟩
    · cases x with
      | nil =>
          obtain ⟨d, r, rfl⟩ := List.exists_cons_of_ne_nil hcode.ne_nil
          have hd : c = d := (List.cons_eq_cons.1 hb).1
          exact absurd (hd ▸ List.mem_cons_self) hout
      | cons d x =>
          obtain ⟨rfl, rfl⟩ := List.cons_eq_cons.1 hb
          rw [endsInWord_append, endsInWord_cons, hword] at hstart
          exact Or.inr ⟨x, code, after, rfl, hstart, hcode⟩
    · obtain ⟨d, r, rfl⟩ := List.exists_cons_of_ne_nil hne
      have hd : c = d := (List.cons_eq_cons.1 hb).1
      exact absurd (hd ▸ List.mem_append_right _ List.mem_cons_self) hout
  · rintro (h | h)
    · exact h.append_right _
    · have hone : endsInWord false (a ++ [c]) = false := by
        rw [endsInWord_concat, hword]
      simpa using h.append_left hone

/-- No declaration reaches beyond a brace. -/
theorem declares_append_brace :
    DeclaresModel name (a ++ '\x7b' :: b)
      ↔ DeclaresModel name (a ++ ['\x7b']) ∨ DeclaresModel name b := by
  have hsplit : a ++ '\x7b' :: b = (a ++ ['\x7b']) ++ b := by simp
  have hword : isWord '\x7b' = false := by decide
  rw [hsplit]
  constructor
  · rintro ⟨before, code, after, htext, hstart, hcode⟩
    rcases cut_cases htext.symm with ⟨x, hx⟩ | ⟨x, rfl, rfl⟩ | ⟨left, right, hl, hr, rfl, ha, -⟩
    · exact Or.inl ⟨before, code, x, hx, hstart, hcode⟩
    · rw [endsInWord_append, endsInWord_concat, hword] at hstart
      exact Or.inr ⟨x, code, after, rfl, hstart, hcode⟩
    · -- The brace would stand inside the declaration.
      obtain ⟨core, hcore, -, hchars⟩ := exists_core hcode
      have hlast : left.getLast? = some '\x7b' := by
        have h := congrArg List.getLast? ha
        rw [List.getLast?_concat, List.getLast?_append_of_ne_nil _ hl] at h
        exact h.symm
      have hmem : '\x7b' ∈ core := by
        rcases List.eq_nil_or_concat right with rfl | ⟨r, d, rfl⟩
        · exact absurd rfl hr
        · have h := congrArg List.dropLast hcore
          rw [List.concat_eq_append, ← List.append_assoc, List.dropLast_concat,
            List.dropLast_concat] at h
          rw [← h]
          exact List.mem_append_left _ (List.mem_of_getLast? hlast)
      have hbrace := hchars _ hmem
      exact absurd hbrace (by decide)
  · rintro (h | h)
    · exact h.append_right _
    · exact h.append_left (by rw [endsInWord_concat, hword])

/-- What stands behind a text and has no brace declares nothing. -/
theorem declares_append_of_brace_not_mem
    (hu : '\x7b' ∉ u) :
    DeclaresModel name (t ++ u) ↔ DeclaresModel name t :=
  ⟨fun h => Declares.of_append h hu, fun h => h.append_right u⟩

/-- A text without a brace declares nothing. -/
theorem not_declares_of_brace_not_mem
    (ht : '\x7b' ∉ t) :
    ¬ DeclaresModel name t := by
  rintro ⟨before, code, after, rfl, -, hcode⟩
  obtain ⟨core, rfl, -, -⟩ := exists_core hcode
  exact ht (by simp)

/-- Blanks before a text declare nothing. -/
theorem declares_of_blank_append
    (hu : AllBlank u) :
    DeclaresModel name (u ++ t) ↔ DeclaresModel name t := by
  have hend : endsInWord false u = false := by
    rcases List.eq_nil_or_concat u with rfl | ⟨r, c, rfl⟩
    · rfl
    · rw [List.concat_eq_append, endsInWord_concat]
      exact not_isWord_of_isBlank (hu c (by simp))
  refine ⟨?_, fun h => h.append_left hend⟩
  rintro ⟨before, code, after, htext, hstart, hcode⟩
  obtain ⟨core, hcore, hhead, -⟩ := exists_core hcode
  have hblank : isBlank 'm' = false := by decide
  have hm : 'm' ∉ u := fun hmem => by
    rw [hu _ hmem] at hblank
    cases hblank
  have hfirst : code.head? = some 'm' := by
    rw [hcore, List.head?_append, hhead]
    rfl
  rcases cut_cases htext.symm with ⟨x, rfl⟩ | ⟨x, rfl, rfl⟩ | ⟨left, right, hl, -, rfl, rfl, -⟩
  · have hcode := List.mem_of_mem_head? hfirst
    exact absurd (List.mem_append_left _ (List.mem_append_right _ hcode)) hm
  · rw [endsInWord_append, hend] at hstart
    exact ⟨x, code, after, rfl, hstart, hcode⟩
  · rw [List.head?_append_of_ne_nil _ hl] at hfirst
    exact absurd (List.mem_append_right _ (List.mem_of_mem_head? hfirst)) hm

/-- A word is fixed by a text that it ends, with a blank before it. -/
theorem word_unique
    {v w gap : Text}
    (hv : IsWordRun v)
    (hw : IsWordRun w)
    (hgap : AllBlank gap ∧ gap ≠ [])
    (hc : isBlank c = true)
    (h : t ++ gap ++ v = u ++ [c] ++ w) :
    v = w := by
  have hleft : ((t ++ gap ++ v).reverse).takeWhile isWord = v.reverse := by
    rw [List.reverse_append]
    refine takeWhile_append_of_stop (fun d hd => hv.2 d (List.mem_reverse.1 hd)) (fun d hd => ?_)
    rw [List.head?_reverse, List.getLast?_append_of_ne_nil _ hgap.2] at hd
    exact not_isWord_of_isBlank (hgap.1 d (List.mem_of_getLast? hd))
  have hright : ((u ++ [c] ++ w).reverse).takeWhile isWord = w.reverse := by
    rw [List.reverse_append]
    refine takeWhile_append_of_stop (fun d hd => hw.2 d (List.mem_reverse.1 hd)) (fun d hd => ?_)
    rw [List.head?_reverse, List.getLast?_concat] at hd
    have hd : c = d := Option.some.inj hd
    exact hd ▸ not_isWord_of_isBlank hc
  rw [h, hright] at hleft
  exact (List.reverse_inj.1 hleft).symm

/-- Of a word and blanks at the end of a text, the blanks are dropped. -/
theorem dropEnd_word
    {w space : Text}
    (hw : IsWordRun w)
    (hspace : AllBlank space) :
    dropEnd isBlank (t ++ w ++ space) = t ++ w := by
  rw [dropEnd_append_of_all hspace]
  refine dropEnd_eq_self (fun d hd => ?_)
  rw [List.getLast?_append_of_ne_nil _ hw.1] at hd
  exact not_isBlank_of_isWord (hw.2 d (List.mem_of_getLast? hd))

/-- A header declares its own name only. -/
theorem declares_header_iff
    {w : Text}
    (hw : IsWordRun w) :
    DeclaresModel name ("model ".toList ++ w ++ " \x7b".toList) ↔ name = w := by
  have hsplit : "model ".toList = "model".toList ++ [' '] := by decide
  have hend : " \x7b".toList = [' '] ++ ['\x7b'] := by decide
  constructor
  · rintro ⟨before, code, after, htext, -, gap, space, hgap, hname, hspace, rfl⟩
    have hout : '\x7b' ∉ "model ".toList ++ w ++ [' '] := by
      simp [hw.not_mem (by decide : isWord '\x7b' = false)]
    -- The brace is the last character on both sides, so what stands before it is the same.
    have hsame : ("model ".toList ++ w ++ [' ']) ++ '\x7b' :: []
        = (before ++ ("model".toList ++ gap ++ name ++ space)) ++ '\x7b' :: after := by
      simpa using htext
    have hbefore := ((List.append_cons_inj_of_notMem hout List.not_mem_nil).1 hsame).1
    have hword : dropEnd isBlank ("model ".toList ++ w ++ [' ']) = "model ".toList ++ w :=
      dropEnd_word hw allBlank_space
    have hfound : dropEnd isBlank (before ++ "model".toList ++ gap ++ name ++ space)
        = before ++ "model".toList ++ gap ++ name :=
      dropEnd_word hname hspace
    simp only [← List.append_assoc] at hbefore
    rw [hbefore, hfound, hsplit] at hword
    exact word_unique hname hw hgap (by decide) hword
  · rintro rfl
    refine ⟨[], "model".toList ++ [' '] ++ name ++ [' '] ++ ['\x7b'], [], ?_, rfl, [' '], [' '],
      ⟨allBlank_space, List.cons_ne_nil _ _⟩, hw, allBlank_space, rfl⟩
    rw [hsplit, hend, List.nil_append, List.append_nil, ← List.append_assoc]

end Models

end Document
end SchemaSpec
