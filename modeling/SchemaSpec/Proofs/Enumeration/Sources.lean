import SchemaSpec.Proofs.Enumeration.Reading

/-!
# Enums of model files

A written declaration contributes its enum to the enums of a model file, whatever lines stand before
it and behind it: its first line is known by its marker, and none of the others has one.

* `marker?_append`: what is read of the first line of a declaration.
* `marker?_line`: no other line of a declaration has a marker.
* `contribution`: the enums of some lines that others follow.
* `contribution_of_isWritten`: a written declaration contributes its enum.
* `ofSource_of_isWritten`: the enums of a model file with a written declaration.
-/

namespace SchemaSpec
namespace EnumDecl

open Text Options

/-! ## Markers -/

section Markers

variable {fieldName marker indent t u v : Text}

theorem trimStart_cons_of_not_isBlank
    {c : Char}
    (hc : isBlank c = false)
    (t : Text) :
    trimStart (c :: t) = c :: t := by
  simp [trimStart, hc]

theorem trimStart_trimEnd
    (t : Text) :
    trimStart (trimEnd t) = trim t := by
  induction t with
  | nil =>
      rfl
  | cons c t ih =>
      cases hc : isBlank c with
      | false =>
          have hend : trimEnd (c :: t) = c :: trimEnd t := trimEnd_append_cons hc [] t
          rw [trim, trimStart_cons_of_not_isBlank hc, hend, trimStart_cons_of_not_isBlank hc]
      | true =>
          have hstart : ∀ r, trimStart (c :: r) = trimStart r := by
            intro r
            simp [trimStart, hc]
          have htrim : trim (c :: t) = trim t := by
            rw [trim, hstart, trim]
          rw [htrim, ← ih, trimEnd, dropEnd, trimEnd]
          cases dropEnd isBlank t with
          | nil =>
              rw [if_pos hc]
          | cons d s =>
              exact hstart (d :: s)

theorem trim_blank_append
    {gap : Text}
    (hgap : AllBlank gap)
    (t : Text) :
    trim (gap ++ t) = trim t := by
  rw [trim, trimStart_append_of_blank hgap, ← trim]

theorem wordEnds_of_head
    (h : ∀ c, t.head? = some c → isWord c = false) :
    wordEnds t = true := by
  cases t with
  | nil =>
      rfl
  | cons c t =>
      simp [wordEnds, h c rfl]

theorem skipParenthesis_eq
    (h : ∀ c, (trimStart t).head? = some c → c ≠ '(') :
    skipParenthesis t = trimStart t := by
  unfold skipParenthesis
  split
  · rename_i r hr
    exact absurd rfl (h '(' (by rw [hr]; rfl))
  · rfl

theorem skipParenthesis_gap
    {gap : Text}
    {c : Char}
    (hgap : AllBlank gap)
    (hc : isBlank c = false)
    (hparen : c ≠ '(')
    (t : Text) :
    skipParenthesis (gap ++ c :: t) = c :: t := by
  have hstart : trimStart (gap ++ c :: t) = c :: t := by
    rw [trimStart_append_of_blank hgap, trimStart_cons_of_not_isBlank hc]
  rw [skipParenthesis_eq, hstart]
  intro d hd
  rw [hstart] at hd
  rwa [← Option.some.inj hd]

theorem wordEnds_blank_append
    {gap : Text}
    (hgap : AllBlank gap)
    (hu : wordEnds u = true) :
    wordEnds (gap ++ u) = true := by
  cases gap with
  | nil =>
      exact hu
  | cons c gap =>
      simp [wordEnds, not_isWord_of_isBlank (hgap c List.mem_cons_self)]

theorem symbolWord?_of_word
    (hv : IsWordRun v)
    (u : Text) :
    symbolWord? (v ++ u) = none := by
  obtain ⟨c, r, rfl⟩ := List.exists_cons_of_ne_nil hv.1
  unfold symbolWord?
  split
  · rename_i heq
    have hcolon : c = ':' := (List.cons_eq_cons.1 heq).1
    exact absurd (hv.2 c List.mem_cons_self) (by rw [hcolon]; decide)
  · rfl

theorem markedField?_symbol
    (hfield : IsWordRun fieldName)
    {left : Text}
    (hleft : AllBlank left)
    (t : Text) :
    markedField? (':' :: (fieldName ++ (left ++ ',' :: t))) = some (fieldName, trimStart t) := by
  have hword : symbolWord? (':' :: (fieldName ++ (left ++ ',' :: t)))
      = some (fieldName, left ++ ',' :: t) :=
    word?_append hfield (wordEnds_blank_append hleft rfl)
  have hcomma : trimStart (left ++ ',' :: t) = ',' :: t := by
    rw [trimStart_append_of_blank hleft, trimStart_cons_of_not_isBlank (by decide)]
  unfold markedField?
  rw [hword]
  dsimp only
  rw [hcomma]
  rfl

theorem markedField?_key
    (hfield : IsWordRun fieldName)
    (t : Text) :
    markedField? (fieldName ++ ':' :: t) = some (fieldName, trimStart t) := by
  unfold markedField?
  rw [symbolWord?_of_word hfield, word?_append hfield rfl]
  rfl

/-- Of the first line of a declaration, the field name and what stands behind the marker are read. -/
theorem marker?_append
    (hfield : IsWordRun fieldName)
    (hmarker : IsMarker fieldName marker)
    (hindent : AllBlank indent)
    (t : Text) :
    marker? (trim (indent ++ marker ++ t)) = some (fieldName, trim t) := by
  obtain ⟨gap, right, ⟨hgap, hne⟩, hright, hform⟩ := hmarker
  have henum : trim "enum".toList = "enum".toList := by decide
  have hbehind : trimStart (trimEnd (right ++ t)) = trim t := by
    rw [trimStart_trimEnd, trim_blank_append hright]
  have hread : ∀ z, marker? (trim (indent ++ ("enum".toList ++ gap ++ z)))
      = markedField? (skipParenthesis (trimEnd (gap ++ z))) := by
    intro z
    have hends : wordEnds (trimEnd (gap ++ z)) = true := by
      obtain ⟨c, gap, rfl⟩ := List.exists_cons_of_ne_nil hne
      refine wordEnds_trimEnd ?_
      simp [wordEnds, not_isWord_of_isBlank (hgap c List.mem_cons_self)]
    have hline : trim (indent ++ ("enum".toList ++ gap ++ z))
        = "enum".toList ++ trimEnd (gap ++ z) := by
      rw [trim_blank_append hindent, List.append_assoc,
        trim_append_of_trimmed_left henum (by decide)]
    unfold marker?
    rw [hline, after?_eq_some_iff.2 rfl]
    exact if_pos hends
  rcases hform with ⟨left, hleft, rfl⟩ | rfl
  · have hline := hread (':' :: fieldName ++ left ++ ',' :: right ++ t)
    have hend := trimEnd_append_cons (by decide : isBlank ',' = false)
      (gap ++ ':' :: fieldName ++ left) (right ++ t)
    have hskip := skipParenthesis_gap hgap (by decide : isBlank ':' = false) (by decide)
      (fieldName ++ (left ++ ',' :: trimEnd (right ++ t)))
    have hmarked := markedField?_symbol hfield hleft (trimEnd (right ++ t))
    rw [hbehind] at hmarked
    simp only [List.append_assoc, List.cons_append] at hline hend hskip ⊢
    rw [hline, hend, hskip, hmarked]
  · have hline := hread (fieldName ++ ':' :: right ++ t)
    have hend := trimEnd_append_cons (by decide : isBlank ':' = false) (gap ++ fieldName) (right ++ t)
    have hmarked := markedField?_key hfield (trimEnd (right ++ t))
    rw [hbehind] at hmarked
    obtain ⟨c, r, rfl⟩ := List.exists_cons_of_ne_nil hfield.1
    have hc := hfield.2 c List.mem_cons_self
    have hskip := skipParenthesis_gap hgap (not_isBlank_of_isWord hc)
      (ne_of_isWord hc (by decide)) (r ++ ':' :: trimEnd (right ++ t))
    simp only [List.append_assoc, List.cons_append] at hline hend hskip hmarked ⊢
    rw [hline, hend, hskip, hmarked]

end Markers

/-! ## Other lines -/

/-- A text with which neither a blank nor a word starts, nor what belongs to a marker. -/
def IsBreak (t : Text) : Prop :=
  ∀ c, t.head? = some c → isBlank c = false ∧ isWord c = false ∧ c ≠ ':' ∧ c ≠ '('

section OtherLines

variable {form : ListForm} {code t u v : Text} {ws : List Text}

theorem marker?_of_head
    (h : ∀ c, t.head? = some c → isWord c = false) :
    marker? t = none := by
  unfold marker?
  cases hafter : after? "enum".toList t with
  | none =>
      rfl
  | some rest =>
      have hfirst := h 'e' (by rw [after?_eq_some_iff.1 hafter]; rfl)
      exact absurd hfirst (by decide)

theorem markedField?_of_head
    (h : ∀ c, t.head? = some c → isWord c = false ∧ c ≠ ':') :
    markedField? t = none := by
  have hsymbol : symbolWord? t = none := by
    unfold symbolWord?
    split
    · exact absurd rfl (h ':' rfl).2
    · rfl
  have hword : word? t = none := by
    cases t with
    | nil =>
        rfl
    | cons c t =>
        simp [word?, (h c rfl).1]
  unfold markedField?
  rw [hsymbol, hword]

/-- A colon makes a field only with a word right behind it. -/
theorem markedField?_of_colon
    {c : Char}
    (hc : isWord c = false)
    (t : Text) :
    markedField? (':' :: c :: t) = none := by
  have hsymbol : symbolWord? (':' :: c :: t) = none := by
    simp [symbolWord?, word?, hc]
  have hword : word? (':' :: c :: t) = none := by
    have hcolon : isWord ':' = false := by decide
    simp [word?, hcolon]
  unfold markedField?
  rw [hsymbol, hword]

/-- A word makes a field only with a colon behind it. -/
theorem markedField?_of_word
    (hv : IsWordRun v)
    (hu : ∀ c, u.head? = some c → isWord c = false ∧ c ≠ ':') :
    markedField? (v ++ u) = none := by
  unfold markedField?
  rw [symbolWord?_of_word hv, word?_append hv (wordEnds_of_head (fun c hc => (hu c hc).1))]
  dsimp only
  split
  · rename_i heq
    obtain ⟨-, hcolon⟩ := Prod.mk.inj (Option.some.inj heq)
    exact absurd rfl (hu ':' (by rw [hcolon]; rfl)).2
  · rfl

/-- A word makes a marker only if it is the keyword, with a field behind it. -/
theorem marker?_of_word
    (hv : IsWordRun v)
    (hu : wordEnds u = true)
    (hfield : markedField? (skipParenthesis u) = none) :
    marker? (v ++ u) = none := by
  have hkeyword : IsWordRun "enum".toList := by decide
  unfold marker?
  cases hafter : after? "enum".toList (v ++ u) with
  | none =>
      rfl
  | some rest =>
      dsimp only
      rcases List.append_eq_append_iff.1 (after?_eq_some_iff.1 hafter) with
        ⟨x, hx, rfl⟩ | ⟨x, rfl, rfl⟩
      · cases x with
        | nil =>
            rw [List.nil_append] at hfield
            rw [hfield, ite_self]
        | cons c x =>
            have hc := hkeyword.2 c (hx ▸ List.mem_append_right v List.mem_cons_self)
            simp [wordEnds, hc] at hu
      · cases x with
        | nil =>
            rw [List.nil_append, hfield, ite_self]
        | cons c x =>
            have hc := hv.2 c (List.mem_append_right _ List.mem_cons_self)
            have hends : wordEnds (c :: x ++ u) = false := by simp [wordEnds, hc]
            rw [hends, if_neg Bool.false_ne_true]

theorem head?_trimEnd
    {c : Char}
    (h : (trimEnd t).head? = some c) :
    t.head? = some c := by
  obtain ⟨u, hu, -⟩ := exists_dropEnd_append isBlank t
  unfold trimEnd at h
  rw [hu, List.head?_append, h]
  rfl

theorem trim_of_isBreak
    (ht : IsBreak t) :
    trim t = trimEnd t := by
  rw [trim, trimStart_eq_self (fun c hc => (ht c hc).1)]

/-- Behind a word of a word list stands a blank, or what breaks the list off. -/
theorem head?_behind_word
    {c : Char}
    (hcode : StartsBlank code)
    (ht : IsBreak t)
    (h : (trimEnd (code ++ t)).head? = some c) :
    isWord c = false ∧ c ≠ ':' := by
  have hhead := head?_trimEnd h
  cases code with
  | nil =>
      obtain ⟨-, hword, hcolon, -⟩ := ht c hhead
      exact ⟨hword, hcolon⟩
  | cons d code =>
      have hblank := hcode c hhead
      refine ⟨not_isWord_of_isBlank hblank, ?_⟩
      rintro rfl
      exact absurd hblank (by decide)

/-- Behind a word of a word list stands no field. -/
theorem markedField?_behind_word
    (hws : ∀ w ∈ ws, w = [','] ∨ IsWordRun w)
    (hcode : Spaced true ws code)
    (ht : IsBreak t) :
    markedField? (skipParenthesis (trimEnd (code ++ t))) = none := by
  have htrim := trimStart_trimEnd (code ++ t)
  cases ws with
  | nil =>
      rw [trim_blank_append hcode, trim_of_isBreak ht] at htrim
      have hhead : ∀ c, (trimEnd t).head? = some c → isWord c = false ∧ c ≠ ':' ∧ c ≠ '(' :=
        fun c hc => (ht c (head?_trimEnd hc)).2
      rw [skipParenthesis_eq (htrim ▸ fun c hc => (hhead c hc).2.2), htrim]
      exact markedField?_of_head (fun c hc => ⟨(hhead c hc).1, (hhead c hc).2.1⟩)
  | cons w ws =>
      obtain ⟨gap, rest, rfl, hgap, hstart, -⟩ := hcode
      have hbehind : ∀ c, (trimEnd (rest ++ t)).head? = some c → isWord c = false ∧ c ≠ ':' :=
        fun c hc => head?_behind_word (hstart rfl) ht hc
      rw [List.append_assoc, List.append_assoc, trim_blank_append hgap] at htrim
      rw [List.append_assoc, List.append_assoc]
      rcases hws w List.mem_cons_self with rfl | hw
      · rw [trim_append_of_trimmed_left (by decide) (List.cons_ne_nil _ _)] at htrim
        rw [skipParenthesis_eq (htrim ▸ fun c hc => by rw [← Option.some.inj hc]; decide), htrim]
        refine markedField?_of_head (fun c hc => ?_)
        rw [← Option.some.inj hc]
        decide
      · rw [trim_append_of_trimmed_left hw.trim_eq hw.1] at htrim
        have hparen : ∀ c, (w ++ trimEnd (rest ++ t)).head? = some c → c ≠ '(' := by
          intro c hc
          rw [List.head?_append_of_ne_nil _ hw.1] at hc
          exact ne_of_isWord (hw.2 c (List.mem_of_mem_head? hc)) (by decide)
        rw [skipParenthesis_eq (htrim ▸ hparen), htrim]
        exact markedField?_of_word hw hbehind

/-- No line of a list has a marker behind the first one. -/
theorem marker?_line
    (hws : ∀ w ∈ ws, w = [','] ∨ ∃ v, IsWordRun v ∧ form.IsEntry v w)
    (hcode : Spaced form.apart ws code)
    (ht : IsBreak t) :
    marker? (trim (code ++ t)) = none := by
  cases ws with
  | nil =>
      rw [trim_blank_append hcode, trim_of_isBreak ht]
      exact marker?_of_head (fun c hc => (ht c (head?_trimEnd hc)).2.1)
  | cons w ws =>
      obtain ⟨hw, hws⟩ := List.forall_mem_cons.1 hws
      obtain ⟨gap, rest, rfl, hgap, hstart, hrest⟩ := hcode
      rw [List.append_assoc, List.append_assoc, trim_blank_append hgap]
      rcases hw with rfl | ⟨v, hv, hentry⟩
      · rw [trim_append_of_trimmed_left (by decide) (List.cons_ne_nil _ _)]
        refine marker?_of_head (fun c hc => ?_)
        rw [← Option.some.inj hc]
        decide
      · rw [trim_append_of_trimmed_left (hentry.isToken hv).1.2 (hentry.isToken hv).1.1]
        cases form with
        | hash =>
            obtain ⟨blanks, n, ⟨hblanks, hne⟩, -, rfl⟩ := hentry
            obtain ⟨b, blanks, rfl⟩ := List.exists_cons_of_ne_nil hne
            have hb := not_isWord_of_isBlank (hblanks b List.mem_cons_self)
            rw [List.append_assoc, List.append_assoc]
            refine marker?_of_word hv rfl ?_
            have hskip := skipParenthesis_gap allBlank_nil (by decide : isBlank ':' = false)
              (by decide) (b :: blanks ++ (n ++ trimEnd (rest ++ t)))
            rw [List.nil_append] at hskip
            rw [List.cons_append, hskip]
            exact markedField?_of_colon hb _
        | array =>
            rw [show w = ':' :: v from hentry]
            refine marker?_of_head (fun c hc => ?_)
            rw [← Option.some.inj hc]
            decide
        | words kind hkind round =>
            rw [show w = v from hentry]
            refine marker?_of_word hv (wordEnds_of_head
              (fun c hc => (head?_behind_word (hstart rfl) ht hc).1)) ?_
            refine markedField?_behind_word (fun u hu => ?_) hrest ht
            rcases hws u hu with rfl | ⟨x, hx, hux⟩
            · exact Or.inl rfl
            · rw [show u = x from hux]
              exact Or.inr hx

end OtherLines

/-! ## Contributions -/

/-- The enums that some lines declare when others follow them. -/
def contribution (modelName : Text) (following : List Text) : List Text → List EnumDecl
  | [] => []
  | line :: rest =>
      (ofLine? modelName line (rest ++ following)).toList ++ contribution modelName following rest

section Contributions

variable {modelName fieldName : Text} {values ls : List Text} {form : ListForm}

theorem ofLines_append
    (modelName : Text)
    (ls following : List Text) :
    ofLines modelName (ls ++ following)
      = contribution modelName following ls ++ ofLines modelName following := by
  induction ls with
  | nil =>
      rfl
  | cons line ls ih =>
      rw [List.cons_append, ofLines, ih, contribution, List.append_assoc]

theorem ofLines_cons_eq_iff
    {line : Text}
    {following : List Text}
    {e : EnumDecl} :
    ofLines modelName (line :: following) = e :: ofLines modelName following
      ↔ ofLine? modelName line following = some e := by
  rw [ofLines]
  cases ofLine? modelName line following <;> simp

theorem isBreak_closer
    (form : ListForm)
    (t : Text) :
    IsBreak (form.closer :: t) := by
  have h : ∀ p ∈ [('\x7b', '\x7d'), ('[', ']'), ('(', ')')], isBlank p.2 = false
      ∧ isWord p.2 = false ∧ p.2 ≠ ':' ∧ p.2 ≠ '(' := by
    decide
  intro c hc
  rw [← Option.some.inj hc]
  exact h _ form.brackets_mem

theorem isBreak_of_isComment
    {t : Text}
    (h : IsComment t) :
    IsBreak t := by
  intro c hc
  rw [h c hc]
  decide

/-- The lines of a list behind its first one declare nothing, whatever follows. -/
theorem contribution_of_isListed
    {behind : Text}
    {tokens lines : List Text}
    (htokens : ∀ w ∈ tokens, w = [','] ∨ ∃ v, IsWordRun v ∧ form.IsEntry v w)
    (h : IsListed form behind tokens lines)
    (modelName : Text)
    (following : List Text) :
    contribution modelName following lines = [] := by
  induction h with
  | @last ws code comment hcode hcomment =>
      have hnone := marker?_line htokens hcode (isBreak_closer form (behind ++ comment))
      rw [contribution, contribution, ofLine?, List.append_assoc, List.cons_append, hnone]
      rfl
  | @line ws us code comment lines hcode hcomment hlines ih =>
      obtain ⟨hws, hus⟩ := List.forall_mem_append.1 htokens
      have hnone := marker?_line hws hcode (isBreak_of_isComment hcomment)
      rw [contribution, ih hus, ofLine?, hnone]
      rfl

/-- A line with a marker declares the enum of the values read behind it. -/
theorem ofLine?_marked_iff
    {line t : Text}
    (hne : values ≠ [])
    (hmarker : marker? (trim line) = some (fieldName, t))
    (modelName : Text)
    (following : List Text) :
    ofLine? modelName line following = some ⟨fieldName, modelName, values⟩
      ↔ readValues (stripComment t) following = values := by
  rw [ofLine?, hmarker]
  dsimp only
  cases hread : readValues (stripComment t) following with
  | nil =>
      simp [hne.symm]
  | cons v vs =>
      simp

/-- The lines of a list declare the enum of the values that are read on its first line, and nothing
else. -/
theorem contribution_listed_iff
    {indent marker behind line : Text}
    {entries tokens lines : List Text}
    (hfield : IsWordRun fieldName)
    (hne : values ≠ [])
    (hwords : ∀ v ∈ values, IsWordRun v)
    (hindent : AllBlank indent)
    (hmarker : IsMarker fieldName marker)
    (hentries : List.Forall₂ form.IsEntry values entries)
    (htokens : form.IsTokens entries tokens)
    (h : IsListed form behind tokens (line :: lines))
    (modelName : Text)
    (following : List Text) :
    contribution modelName following ((indent ++ marker ++ form.lead ++ form.opener :: line) :: lines)
        = [⟨fieldName, modelName, values⟩]
      ↔ readValues (stripComment (trim (form.lead ++ form.opener :: line))) (lines ++ following)
        = values := by
  have hmarked := marker?_append hfield hmarker hindent (form.lead ++ form.opener :: line)
  rw [← List.append_assoc] at hmarked
  have hothers : contribution modelName following lines = [] := by
    have htoken : ∀ w ∈ tokens, w = [','] ∨ ∃ v, IsWordRun v ∧ form.IsEntry v w :=
      fun w hw => (htokens.mem hentries hw).imp_right
        (fun ⟨v, hv, hvw⟩ => ⟨v, hwords v hv, hvw⟩)
    cases h with
    | last =>
        rfl
    | line _ _ hlines =>
        exact contribution_of_isListed (fun w hw => htoken w (List.mem_append_right _ hw))
          hlines modelName following
  rw [contribution, hothers, List.append_nil, ← ofLine?_marked_iff hne hmarked modelName]
  cases ofLine? modelName (indent ++ marker ++ form.lead ++ form.opener :: line)
    (lines ++ following) <;> simp

/-- A written declaration declares its enum and nothing else, whatever follows it. -/
theorem contribution_of_isWritten
    (hfield : IsWordRun fieldName)
    (hne : values ≠ [])
    (hnodup : values.Nodup)
    (hwords : ∀ v ∈ values, IsWordRun v)
    (h : IsWritten fieldName values ls)
    (modelName : Text)
    (following : List Text) :
    contribution modelName following ls = [⟨fieldName, modelName, values⟩] := by
  cases h with
  | @listed form indent marker behind entries tokens lines line hindent hmarker hentries htokens
      hbehind hlines =>
      rw [contribution_listed_iff hfield hne hwords hindent hmarker hentries htokens hlines]
      exact readValues_listed hnodup hwords hentries htokens (fun _ => hbehind) hlines following
  | @bare indent marker code comment entries hindent hmarker hentries hfirst hcode hcomment =>
      have hmarked := marker?_append hfield hmarker hindent (code ++ comment)
      rw [← List.append_assoc] at hmarked
      have htokens : ListForm.hash.IsTokens entries (commaTokens false entries) := ⟨false, rfl⟩
      have hinert := hcode.allInert (htokens.isToken hwords hentries)
      have hstrip : stripComment (trim (code ++ comment)) = trim code :=
        stripComment_trim (fun c hc => isUncommented_of_isInert (hinert c hc)) hcomment
      have hread := readValues_bare hnodup hwords hfirst hentries hcode following
      rw [← hstrip] at hread
      rw [contribution, List.nil_append, (ofLine?_marked_iff hne hmarked _ _).2 hread]
      rfl

theorem ne_nil_of_isWritten
    (h : IsWritten fieldName values ls) :
    ls ≠ [] := by
  cases h with
  | listed => exact List.cons_ne_nil _ _
  | bare => exact List.cons_ne_nil _ _

/-- A written declaration contributes one enum to the enums of a model file, with its field and its
values, whatever its form and its layout, and whatever lines stand before it and behind it. -/
theorem ofSource_of_isWritten
    (hfield : IsWordRun fieldName)
    (hne : values ≠ [])
    (hnodup : values.Nodup)
    (hwords : ∀ v ∈ values, IsWordRun v)
    (h : IsWritten fieldName values ls)
    (modelName : Text)
    (before after : List Text)
    (hlines : ∀ line ∈ before ++ (ls ++ after), '\n' ∉ line) :
    ofSource modelName (join ['\n'] (before ++ (ls ++ after)))
      = contribution modelName (ls ++ after) before ++ ⟨fieldName, modelName, values⟩
        :: ofLines modelName after := by
  have hsome : before ++ (ls ++ after) ≠ [] := by
    simp [ne_nil_of_isWritten h]
  rw [ofSource, lines_join hsome hlines, ofLines_append, ofLines_append,
    contribution_of_isWritten hfield hne hnodup hwords h modelName after]
  rfl

/-- An enum over several lines, with comments and a block behind it. -/
def statusLines : List Text :=
  ["  enum :status, \x7b # \x7b all of [them".toList, [], "    open: 0, # isn't \x7d".toList,
    "    sent: 1,".toList, "  \x7d do".toList]

/-- An enum with a word list over two lines. -/
def kindLines : List Text :=
  ["  enum kind: %w[web".toList, "    store ]".toList]

/-- An enum with bare keyword arguments. -/
def sizeLine : Text := "  enum :size, small: 0, large: 1".toList

theorem isWritten_statusLines :
    IsWritten "status".toList ["open".toList, "sent".toList] statusLines := by
  have hmarker : IsMarker "status".toList "enum :status, ".toList :=
    ⟨[' '], [' '], by decide, by decide, Or.inl ⟨[], by decide, by decide⟩⟩
  have hentries : List.Forall₂ ListForm.hash.IsEntry ["open".toList, "sent".toList]
      ["open: 0".toList, "sent: 1".toList] :=
    .cons ⟨[' '], ['0'], by decide, by decide, by decide⟩
      (.cons ⟨[' '], ['1'], by decide, by decide, by decide⟩ .nil)
  have hlines : statusLines
      = ("  ".toList ++ "enum :status, ".toList ++ ListForm.hash.lead
          ++ ListForm.hash.opener :: ([' '] ++ "# \x7b all of [them".toList))
        :: [[] ++ [], "    open: 0, ".toList ++ "# isn't \x7d".toList, "    sent: 1,".toList ++ [],
          "  ".toList ++ ListForm.hash.closer :: " do".toList ++ []] := by
    decide
  have hblank : ∀ t : Text, AllBlank t → Spaced false [] t := fun t ht => ht
  have hopen : Spaced false ["open: 0".toList, [',']] "    open: 0, ".toList :=
    ⟨"    ".toList, ", ".toList, by decide, by decide, by simp,
      [], [' '], by decide, by decide, by simp, allBlank_space⟩
  have hsent : Spaced false ["sent: 1".toList, [',']] "    sent: 1,".toList :=
    ⟨"    ".toList, [','], by decide, by decide, by simp,
      [], [], by decide, by decide, by simp, allBlank_nil⟩
  have hnone : IsComment [] := by simp [IsComment]
  have hsign : ∀ t, IsComment ('#' :: t) := fun t c hc => (Option.some.inj hc).symm
  have hlisted : IsListed .hash " do".toList
      ([] ++ ([] ++ (["open: 0".toList, [',']] ++ (["sent: 1".toList, [',']] ++ [])))) _ :=
    .line (hblank [' '] allBlank_space) (hsign " \x7b all of [them".toList)
      (.line (hblank [] allBlank_nil) hnone
        (.line hopen (hsign " isn't \x7d".toList)
          (.line hsent hnone (.last (hblank "  ".toList (by decide)) hnone))))
  rw [hlines]
  exact .listed .hash (by decide) hmarker hentries ⟨true, by decide⟩ (by decide) hlisted

theorem isWritten_kindLines :
    IsWritten "kind".toList ["web".toList, "store".toList] kindLines := by
  have hmarker : IsMarker "kind".toList "enum kind: ".toList :=
    ⟨[' '], [' '], by decide, by decide, Or.inr (by decide)⟩
  have hentries : List.Forall₂ (ListForm.words 'w' rfl false).IsEntry
      ["web".toList, "store".toList] ["web".toList, "store".toList] :=
    .cons rfl (.cons rfl .nil)
  have hlines : kindLines
      = ("  ".toList ++ "enum kind: ".toList ++ (ListForm.words 'w' rfl false).lead
          ++ (ListForm.words 'w' rfl false).opener :: ("web".toList ++ []))
        :: ["    store ".toList ++ (ListForm.words 'w' rfl false).closer :: [] ++ []] := by
    decide
  have hweb : Spaced true ["web".toList] "web".toList :=
    ⟨[], [], by decide, by decide, by simp [StartsBlank], allBlank_nil⟩
  have hstore : Spaced true ["store".toList] "    store ".toList :=
    ⟨"    ".toList, [' '], by decide, by decide,
      fun _ c hc => allBlank_space c (List.mem_of_mem_head? hc), allBlank_space⟩
  have hnone : IsComment [] := by simp [IsComment]
  have hlisted : IsListed (.words 'w' rfl false) [] (["web".toList] ++ ["store".toList]) _ :=
    .line hweb hnone (.last hstore hnone)
  rw [hlines]
  exact .listed (.words 'w' rfl false) (by decide) hmarker hentries rfl (by decide) hlisted

theorem isWritten_sizeLine :
    IsWritten "size".toList ["small".toList, "large".toList] [sizeLine] := by
  have hmarker : IsMarker "size".toList "enum :size, ".toList :=
    ⟨[' '], [' '], by decide, by decide, Or.inl ⟨[], by decide, by decide⟩⟩
  have hentries : List.Forall₂ ListForm.hash.IsEntry ["small".toList, "large".toList]
      ["small: 0".toList, "large: 1".toList] :=
    .cons ⟨[' '], ['0'], by decide, by decide, by decide⟩
      (.cons ⟨[' '], ['1'], by decide, by decide, by decide⟩ .nil)
  have hline : sizeLine = "  ".toList ++ "enum :size, ".toList ++ "small: 0, large: 1".toList ++ [] := by
    decide
  have hcode : Spaced false (commaTokens false ["small: 0".toList, "large: 1".toList])
      "small: 0, large: 1".toList :=
    ⟨[], ", large: 1".toList, by decide, by decide, by simp,
      [], " large: 1".toList, by decide, by decide, by simp,
      [' '], [], by decide, by decide, by simp, allBlank_nil⟩
  rw [hline]
  exact .bare (by decide) hmarker hentries (by decide) hcode (by simp [IsComment])

/-- Three enums of a model file, each read from its own lines. -/
theorem ofSource_order :
    ofSource "Order".toList (join ['\n'] (["class Order".toList] ++ (statusLines
        ++ (kindLines ++ [sizeLine]))))
      = [⟨"status".toList, "Order".toList, ["open".toList, "sent".toList]⟩,
        ⟨"kind".toList, "Order".toList, ["web".toList, "store".toList]⟩,
        ⟨"size".toList, "Order".toList, ["small".toList, "large".toList]⟩] := by
  have hclass : contribution "Order".toList (statusLines ++ (kindLines ++ [sizeLine]))
      ["class Order".toList] = [] := by
    decide
  have hkind := contribution_of_isWritten (by decide) (by decide) (by decide) (by decide)
    isWritten_kindLines "Order".toList ([sizeLine] ++ [])
  have hsize := contribution_of_isWritten (by decide) (by decide) (by decide) (by decide)
    isWritten_sizeLine "Order".toList []
  rw [ofSource_of_isWritten (by decide) (by decide) (by decide) (by decide) isWritten_statusLines
    "Order".toList ["class Order".toList] (kindLines ++ [sizeLine]) (by decide), hclass,
    ← List.append_nil [sizeLine], ofLines_append, hkind, ofLines_append, hsize]
  rfl

end Contributions

end EnumDecl
end SchemaSpec
