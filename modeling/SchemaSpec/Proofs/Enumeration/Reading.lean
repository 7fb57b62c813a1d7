import SchemaSpec.Proofs.Text.Fields
import SchemaSpec.Proofs.Enumeration.Gathering

/-!
# Reading value lists

The values of a written list are read back, whatever its form and its layout.

* `splitTopLevel_spaced`, `fields_spaced`: entries are found between commas, and words between
  blanks.
* `entryKey_hash`, `bareKey_array`: the value of an entry.
* `extract_form`: the form of a list is known by its first bracket.
* `readValues_listed`, `readValues_bare`: the values read are those written.
-/

namespace SchemaSpec
namespace EnumDecl

open Text Options

/-! ## Entries -/

section Entries

variable {form : ListForm} {v e t : Text} {values entries tokens : List Text}

theorem splitTopLevel_blank
    (ht : AllBlank t) :
    splitTopLevel t = [] := by
  unfold splitTopLevel splitTopLevelBy
  rw [pieces_closed (closed_of_allBlank ht), List.map_singleton, trim_of_allBlank ht]
  rfl

theorem closed_of_allInert
    (he : AllInert e)
    (hcomma : ',' ∉ e) :
    Closed isComma e := by
  refine closed_of_plain (fun c hc => (Bool.and_eq_true_iff.1 (he c hc)).1) (fun c hc => ?_)
  have hne : c ≠ ',' := fun heq => hcomma (heq ▸ hc)
  simpa using hne

theorem splitTopLevel_append
    (he : IsTrimmed e)
    (hclosed : Closed isComma e)
    {left right : Text}
    (hleft : AllBlank left)
    (hright : AllBlank right) :
    splitTopLevel (left ++ e ++ right) = [e] := by
  have hpiece := ((closed_of_allBlank hleft).append hclosed).append (closed_of_allBlank hright)
  unfold splitTopLevel splitTopLevelBy
  rw [pieces_closed hpiece, List.map_singleton, trim_surround hleft hright, he.2,
    List.filter_cons_of_pos (by simp [he.1])]
  rfl

/-- An entry in front of a comma is found, whatever blanks stand around it. -/
theorem splitTopLevel_append_cons
    (he : IsTrimmed e)
    (hclosed : Closed isComma e)
    {left right : Text}
    (hleft : AllBlank left)
    (hright : AllBlank right)
    (t : Text) :
    splitTopLevel (left ++ e ++ right ++ ',' :: t) = e :: splitTopLevel t := by
  have hpiece := ((closed_of_allBlank hleft).append hclosed).append (closed_of_allBlank hright)
  rw [splitTopLevel_append_comma hpiece.2, splitTopLevel_append he hclosed hleft hright]
  rfl

/-- Entries are found between their commas. -/
theorem splitTopLevel_spaced
    {trailing : Bool}
    (hentries : ∀ e ∈ entries, IsTrimmed e ∧ Closed isComma e)
    (h : Spaced false (commaTokens trailing entries) t) :
    splitTopLevel t = entries := by
  fun_induction commaTokens trailing entries generalizing t with
  | case1 =>
      exact splitTopLevel_blank h
  | case2 e =>
      obtain ⟨he, hclosed⟩ := hentries e List.mem_cons_self
      obtain ⟨gap, rest, rfl, hgap, -, hrest⟩ := h
      split at hrest
      · obtain ⟨blanks, behind, rfl, hblanks, -, hbehind⟩ := hrest
        have hcut := splitTopLevel_append_cons he hclosed hgap hblanks behind
        rw [splitTopLevel_blank hbehind] at hcut
        simpa using hcut
      · exact splitTopLevel_append he hclosed hgap hrest
  | case3 e f es ih =>
      obtain ⟨⟨he, hclosed⟩, hrest⟩ := List.forall_mem_cons.1 hentries
      obtain ⟨gap, rest, rfl, hgap, -, blanks, behind, rfl, hblanks, -, hbehind⟩ := h
      have hcut := splitTopLevel_append_cons he hclosed hgap hblanks behind
      rw [ih hrest hbehind] at hcut
      simpa using hcut

theorem mem_commaTokens
    {trailing : Bool}
    {w : Text}
    (h : w ∈ commaTokens trailing entries) :
    w = [','] ∨ w ∈ entries := by
  fun_induction commaTokens trailing entries with
  | case1 =>
      cases h
  | case2 e =>
      rcases List.mem_cons.1 h with rfl | h
      · exact Or.inr List.mem_cons_self
      · split at h
        · exact Or.inl (List.mem_singleton.1 h)
        · cases h
  | case3 e f es ih =>
      rcases List.mem_cons.1 h with rfl | h
      · exact Or.inr List.mem_cons_self
      rcases List.mem_cons.1 h with rfl | h
      · exact Or.inl rfl
      · exact (ih h).imp_right (List.mem_cons_of_mem e)

theorem ListForm.IsEntry.mem
    (h : form.IsEntry v e)
    (hv : IsWordRun v) :
    ∀ c ∈ e, isWord c = true ∨ isBlank c = true ∨ c = ':' := by
  intro c hc
  cases form with
  | hash =>
      obtain ⟨gap, n, hgap, hn, rfl⟩ := h
      simp only [List.mem_append, List.mem_cons] at hc
      rcases hc with (hc | rfl | hc) | hc
      · exact Or.inl (hv.2 c hc)
      · exact Or.inr (Or.inr rfl)
      · exact Or.inr (Or.inl (hgap.1 c hc))
      · exact Or.inl (hn.2 c hc)
  | array =>
      rw [show e = ':' :: v from h] at hc
      rcases List.mem_cons.1 hc with rfl | hc
      · exact Or.inr (Or.inr rfl)
      · exact Or.inl (hv.2 c hc)
  | words kind hkind round =>
      rw [show e = v from h] at hc
      exact Or.inl (hv.2 c hc)

/-- A character that an entry cannot have. -/
theorem ListForm.IsEntry.not_mem
    (h : form.IsEntry v e)
    (hv : IsWordRun v)
    {c : Char}
    (hc : isWord c = false ∧ isBlank c = false ∧ c ≠ ':') :
    c ∉ e := by
  intro hmem
  rcases h.mem hv c hmem with hword | hblank | hcolon
  · rw [hc.1] at hword
    cases hword
  · rw [hc.2.1] at hblank
    cases hblank
  · exact hc.2.2 hcolon

theorem ListForm.IsEntry.isToken
    (h : form.IsEntry v e)
    (hv : IsWordRun v) :
    IsToken e := by
  refine ⟨?_, fun c hc => ?_⟩
  · cases form with
    | hash =>
        obtain ⟨gap, n, -, hn, rfl⟩ := h
        exact ⟨by simp, by simpa using trim_append_eq_self hv.trim_eq hn.trim_eq hv.1 hn.1 (':' :: gap)⟩
    | array =>
        rw [show e = ':' :: v from h]
        have hcolon : trim [':'] = [':'] := by decide
        exact ⟨List.cons_ne_nil _ _, trim_append_of_trimmed hcolon hv.trim_eq⟩
    | words kind hkind round =>
        rw [show e = v from h]
        exact ⟨hv.1, hv.trim_eq⟩
  · rcases h.mem hv c hc with hword | hblank | rfl
    · exact isInert_of_isWord hword
    · exact isInert_of_isBlank hblank
    · decide

theorem dropQuotes_cons
    {c : Char}
    (hc : isWord c = true)
    (t : Text) :
    dropQuotes (c :: t) = c :: t := by
  have hquote : isQuote c = false := by
    simp [isQuote, ne_of_isWord hc (by decide : isWord '\x22' = false),
      ne_of_isWord hc (by decide : isWord '\x27' = false)]
  cases t with
  | nil =>
      rfl
  | cons d t =>
      rw [dropQuotes, hquote, Bool.false_and, if_neg Bool.false_ne_true]

/-- A key that starts with a word character has nothing to lose but blanks. -/
theorem bareKey_cons
    {c : Char}
    (hc : isWord c = true)
    (htrim : trim (c :: t) = c :: t) :
    bareKey (c :: t) = c :: t := by
  have hcolon : dropColon (c :: t) = c :: t := by
    unfold dropColon
    split
    · rename_i heq
      obtain ⟨rfl, -⟩ := List.cons_eq_cons.1 heq
      exact absurd hc (by decide)
    · rfl
  rw [bareKey, htrim, hcolon, dropQuotes_cons hc, htrim]

theorem dropQuotes_word
    (hv : IsWordRun v) :
    dropQuotes v = v := by
  obtain ⟨c, r, rfl⟩ := List.exists_cons_of_ne_nil hv.1
  exact dropQuotes_cons (hv.2 c List.mem_cons_self) r

theorem bareKey_word
    (hv : IsWordRun v) :
    bareKey v = v := by
  have htrim := hv.trim_eq
  obtain ⟨c, r, rfl⟩ := List.exists_cons_of_ne_nil hv.1
  exact bareKey_cons (hv.2 c List.mem_cons_self) htrim

/-- The word before a colon is the key of an entry without an arrow. -/
theorem entryKey_colon
    (hv : IsWordRun v)
    (ht : hasPart "=>".toList t = false) :
    entryKey (v ++ ':' :: t) = v := by
  have harrow : cutAt? "=>".toList (v ++ ':' :: t) = none := by
    have hword : hasPart "=>".toList v = false := hasPart_eq_false (c := '=') (hv.not_mem (by decide))
    have hparts := hasPart_append_cons (by decide : "=>".toList ≠ []) (by decide : ':' ∉ "=>".toList)
      v t
    rw [hword, ht] at hparts
    exact cutAt?_of_hasPart hparts
  have hne : ∀ c ∈ v, c ≠ ':' := fun c hc => ne_of_isWord (hv.2 c hc) (by decide)
  have hkey : (v ++ ':' :: t).takeWhile (· != ':') = v :=
    takeWhile_append_of_stop (fun c hc => by simpa using hne c hc) (by simp)
  have hfirst : (v ++ ':' :: t).head? ≠ some ':' := by
    intro hhead
    rw [List.head?_append_of_ne_nil _ hv.1] at hhead
    exact hne ':' (List.mem_of_mem_head? hhead) rfl
  rw [entryKey, harrow]
  dsimp only
  rw [if_neg hfirst, hkey, bareKey_word hv]

theorem entryKey_hash
    (h : ListForm.hash.IsEntry v e)
    (hv : IsWordRun v) :
    entryKey e = v := by
  have hout : '=' ∉ e := h.not_mem hv (by decide)
  obtain ⟨gap, n, -, -, rfl⟩ := h
  rw [List.append_assoc, List.cons_append] at hout ⊢
  have hbehind : '=' ∉ gap ++ n := fun hmem =>
    hout (List.mem_append_right v (List.mem_cons_of_mem ':' hmem))
  exact entryKey_colon hv (hasPart_eq_false hbehind)

theorem bareKey_array
    (h : ListForm.array.IsEntry v e)
    (hv : IsWordRun v) :
    bareKey e = v := by
  rw [bareKey, (h.isToken hv).1.2, show e = ':' :: v from h, dropColon, dropQuotes_word hv,
    hv.trim_eq]

theorem map_eq_of_forall₂
    {g : Text → Text}
    {r : Text → Text → Prop}
    (h : List.Forall₂ r values entries)
    (hg : ∀ v ∈ values, ∀ e, r v e → g e = v) :
    entries.map g = values := by
  induction h with
  | nil =>
      rfl
  | cons hve _ ih =>
      obtain ⟨hv, hrest⟩ := List.forall_mem_cons.1 hg
      rw [List.map_cons, hv _ hve, ih hrest]

theorem filter_not_isEmpty
    (hwords : ∀ v ∈ values, IsWordRun v) :
    values.filter (fun v => !v.isEmpty) = values :=
  List.filter_eq_self.2 (fun v hv => by simpa using (hwords v hv).1)

theorem exists_of_mem_entries
    {α : Type}
    {xs : List α}
    {r : α → Text → Prop}
    (h : List.Forall₂ r xs entries)
    (he : e ∈ entries) :
    ∃ x ∈ xs, r x e := by
  induction h with
  | nil =>
      cases he
  | cons hve _ ih =>
      rcases List.mem_cons.1 he with rfl | he
      · exact ⟨_, List.mem_cons_self, hve⟩
      · obtain ⟨v, hv, hr⟩ := ih he
        exact ⟨v, List.mem_cons_of_mem _ hv, hr⟩

/-- A token of a list is a comma or the entry of a value. -/
theorem ListForm.IsTokens.mem
    (hentries : List.Forall₂ form.IsEntry values entries)
    (h : form.IsTokens entries tokens)
    {w : Text}
    (hw : w ∈ tokens) :
    w = [','] ∨ ∃ v ∈ values, form.IsEntry v w := by
  cases form with
  | hash =>
      obtain ⟨trailing, rfl⟩ := h
      exact (mem_commaTokens hw).imp_right (exists_of_mem_entries hentries)
  | array =>
      obtain ⟨trailing, rfl⟩ := h
      exact (mem_commaTokens hw).imp_right (exists_of_mem_entries hentries)
  | words kind hkind round =>
      rw [show tokens = entries from h] at hw
      exact Or.inr (exists_of_mem_entries hentries hw)

theorem ListForm.IsTokens.isToken
    (hwords : ∀ v ∈ values, IsWordRun v)
    (hentries : List.Forall₂ form.IsEntry values entries)
    (h : form.IsTokens entries tokens) :
    ∀ w ∈ tokens, IsToken w := by
  intro w hw
  rcases h.mem hentries hw with rfl | ⟨v, hv, hvw⟩
  · exact ⟨⟨List.cons_ne_nil _ _, by decide⟩, by decide⟩
  · exact hvw.isToken (hwords v hv)

/-- Words are found between blanks. -/
theorem fields_spaced
    (hwords : ∀ v ∈ values, IsWordRun v)
    (h : Spaced true values t) :
    fields t = values := by
  induction values generalizing t with
  | nil =>
      have hnone := fields_append_blank h []
      rwa [List.nil_append] at hnone
  | cons v vs ih =>
      obtain ⟨hv, hvs⟩ := List.forall_mem_cons.1 hwords
      obtain ⟨gap, rest, rfl, hgap, hstart, hrest⟩ := h
      have hone : fields v = [v] :=
        fields_eq_singleton hv.1 (fun c hc => not_isBlank_of_isWord (hv.2 c hc))
      have htail := ih hvs hrest
      rw [List.append_assoc, fields_blank_append hgap]
      cases rest with
      | nil =>
          rw [fields_nil] at htail
          rw [List.append_nil, hone, ← htail]
      | cons c rest =>
          have hc : isBlank c = true := hstart rfl c rfl
          have hdrop : fields (c :: rest) = fields rest := fields_append_cons hc [] rest
          rw [hdrop] at htail
          rw [fields_append_cons hc, hone, htail]
          rfl

/-- What a form reads from the text between its brackets. -/
def ListForm.read : ListForm → Text → List Text
  | .hash => hashKeys
  | .array => listItems
  | .words _ _ _ => fields

/-- The entries of a list of values are found between their commas. -/
theorem splitTopLevel_entries
    {trailing : Bool}
    (hwords : ∀ v ∈ values, IsWordRun v)
    (hentries : List.Forall₂ form.IsEntry values entries)
    (h : Spaced false (commaTokens trailing entries) t) :
    splitTopLevel t = entries := by
  refine splitTopLevel_spaced (fun e he => ?_) h
  obtain ⟨v, hv, hve⟩ := exists_of_mem_entries hentries he
  have htoken := hve.isToken (hwords v hv)
  exact ⟨htoken.1, closed_of_allInert htoken.2 (hve.not_mem (hwords v hv) (by decide))⟩

theorem hashKeys_spaced
    {trailing : Bool}
    (hwords : ∀ v ∈ values, IsWordRun v)
    (hentries : List.Forall₂ ListForm.hash.IsEntry values entries)
    (h : Spaced false (commaTokens trailing entries) t) :
    hashKeys t = values := by
  rw [hashKeys, splitTopLevel_entries hwords hentries h,
    map_eq_of_forall₂ hentries (fun v hv e hve => entryKey_hash hve (hwords v hv)),
    filter_not_isEmpty hwords]

theorem listItems_spaced
    {trailing : Bool}
    (hwords : ∀ v ∈ values, IsWordRun v)
    (hentries : List.Forall₂ ListForm.array.IsEntry values entries)
    (h : Spaced false (commaTokens trailing entries) t) :
    listItems t = values := by
  rw [listItems, splitTopLevel_entries hwords hentries h,
    map_eq_of_forall₂ hentries (fun v hv e hve => bareKey_array hve (hwords v hv)),
    filter_not_isEmpty hwords]

/-- The values written are read from their tokens. -/
theorem ListForm.read_spaced
    (hwords : ∀ v ∈ values, IsWordRun v)
    (hentries : List.Forall₂ form.IsEntry values entries)
    (htokens : form.IsTokens entries tokens)
    (h : Spaced form.apart tokens t) :
    form.read t = values := by
  cases form with
  | hash =>
      obtain ⟨trailing, rfl⟩ := htokens
      exact hashKeys_spaced hwords hentries h
  | array =>
      obtain ⟨trailing, rfl⟩ := htokens
      exact listItems_spaced hwords hentries h
  | words kind hkind round =>
      have hsame := map_eq_of_forall₂ (g := id) hentries (fun v _ e hve => hve)
      rw [List.map_id] at hsame
      rw [show tokens = entries from htokens, hsame] at h
      exact fields_spaced hwords h

end Entries

/-! ## Forms -/

section Forms

variable {form : ListForm} {values entries tokens : List Text}

theorem distinct_eq_self
    (h : values.Nodup) :
    distinct values = values := by
  induction values with
  | nil =>
      rfl
  | cons v vs ih =>
      obtain ⟨hv, hvs⟩ := List.nodup_cons.1 h
      have hfilter : vs.filter (fun w => w != v) = vs :=
        List.filter_eq_self.2 (fun w hw => by simpa using ne_of_mem_of_not_mem hw hv)
      rw [distinct, ih hvs, hfilter]

theorem hasBareBracket_eq_false
    {p q : Char}
    {t : Text}
    (h : '[' ∉ t) :
    hasBareBracket p q t = false := by
  induction t generalizing p q with
  | nil =>
      rfl
  | cons c t ih =>
      simp only [List.mem_cons, not_or] at h
      have hc : (c == '[') = false := by simpa using Ne.symm h.1
      rw [hasBareBracket, hc, ih h.2]
      rfl

theorem wordList?_eq_none
    {t : Text}
    (h : '%' ∉ t) :
    wordList? t = none := by
  induction t with
  | nil =>
      rfl
  | cons c t ih =>
      simp only [List.mem_cons, not_or] at h
      have hhere : wordListHere? (c :: t) = none := by
        unfold wordListHere?
        split
        · rename_i heq
          exact absurd (List.cons_eq_cons.1 heq).1.symm h.1
        · rfl
      rw [wordList?, hhere, ih h.2]
      rfl

theorem not_mem_of_isOpener
    {t : Text}
    {c : Char}
    (h : ∀ c ∈ t, isOpener c = false)
    (hc : isOpener c = true) :
    c ∉ t := by
  intro hmem
  rw [h c hmem] at hc
  cases hc

/-- The bracket of a word list is not bare. -/
theorem hasBareBracket_words
    {kind o : Char}
    (hkind : isWordListKind kind = true)
    (t : Text) :
    hasBareBracket ' ' ' ' ('%' :: kind :: o :: t) = hasBareBracket kind o t := by
  have hout : kind ≠ '[' := by
    rcases wordListKind_cases hkind with rfl | rfl | rfl | rfl <;> decide
  simp [hasBareBracket, hout, hkind]

/-- The form of a list in brackets is known by its first bracket, if no brace stands behind it, and
no bare bracket behind that of a word list. -/
theorem extract_form
    (form : ListForm)
    {first : Text}
    (hbrace : form ≠ .hash → '\x7b' ∉ first)
    (hbare : form.apart = true →
      hasBareBracket ' ' ' ' (form.lead ++ form.opener :: first) = false)
    (following : List Text) :
    extract (form.lead ++ form.opener :: first) following
      = form.read ((inner? form.opener form.closer
          (gather form.opener form.closer (form.opener :: first) following)).getD []) := by
  cases form with
  | hash =>
      have hform : ('\x7b' :: first).contains '\x7b' = true := by simp
      unfold extract
      rw [ListForm.lead, ListForm.opener, List.nil_append, if_pos hform]
      rfl
  | array =>
      have hhash : ('[' :: first).contains '\x7b' = false := by
        simpa using hbrace (by simp)
      have hform : hasBareBracket ' ' ' ' ('[' :: first) = true := rfl
      unfold extract
      rw [ListForm.lead, ListForm.opener, List.nil_append, hhash, hform]
      rfl
  | words kind hkind round =>
      have hbrace := hbrace (by simp)
      have hbare := hbare rfl
      have hopener : ∀ o, (o = '(' ∨ o = '[') →
          hasBareBracket ' ' ' ' ('%' :: kind :: o :: first) = false →
          extract ('%' :: kind :: o :: first) following
            = fields ((inner? o (wordListCloser o)
              (gather o (wordListCloser o) (o :: first) following)).getD []) := by
        intro o ho hbare
        have hout : '\x7b' ≠ kind := by
          rcases wordListKind_cases hkind with rfl | rfl | rfl | rfl <;> decide
        have hhash : ('%' :: kind :: o :: first).contains '\x7b' = false := by
          rcases ho with rfl | rfl <;> simpa [hout] using hbrace
        have hlist : wordList? ('%' :: kind :: o :: first) = some (o :: first) := by
          rcases ho with rfl | rfl <;> simp [wordList?, wordListHere?, hkind]
        unfold extract
        rw [hhash, hbare, hlist]
        rfl
      cases round with
      | false =>
          exact hopener '[' (Or.inr rfl) hbare
      | true =>
          exact hopener '(' (Or.inl rfl) hbare

/-- The values of a list in brackets are those written, whatever its layout, and whatever stands behind
it on another line than the first. -/
theorem readValues_listed
    {behind line : Text}
    {lines : List Text}
    (hnodup : values.Nodup)
    (hwords : ∀ v ∈ values, IsWordRun v)
    (hentries : List.Forall₂ form.IsEntry values entries)
    (htokens : form.IsTokens entries tokens)
    (hbehind : lines = [] → AllInert behind)
    (h : IsListed form behind tokens (line :: lines))
    (after : List Text) :
    readValues (stripComment (trim (form.lead ++ form.opener :: line))) (lines ++ after)
      = values := by
  obtain ⟨first, hstrip, hfirst, inner, hinner, hspaced⟩ :=
    exists_gather hbehind (htokens.isToken hwords hentries) h after
  have hbrace : '\x7b' ∉ first := not_mem_of_isOpener hfirst (by decide)
  have hbare : form.apart = true →
      hasBareBracket ' ' ' ' (form.lead ++ form.opener :: first) = false := by
    intro happart
    have hnone : ∀ p q, hasBareBracket p q first = false := fun p q =>
      hasBareBracket_eq_false (not_mem_of_isOpener hfirst (by decide))
    cases form with
    | hash => cases happart
    | array => cases happart
    | words kind hkind round =>
        exact (hasBareBracket_words hkind first).trans (hnone _ _)
  rw [readValues, hstrip, extract_form form (fun _ => hbrace) hbare, hinner, Option.getD_some,
    form.read_spaced hwords hentries htokens hspaced, distinct_eq_self hnodup]

/-- The values of bare keyword arguments are those written. -/
theorem readValues_bare
    {trailing : Bool}
    {code : Text}
    (hnodup : values.Nodup)
    (hwords : ∀ v ∈ values, IsWordRun v)
    (hfirst : ∀ v ∈ values, v.head? ≠ some '_')
    (hentries : List.Forall₂ ListForm.hash.IsEntry values entries)
    (h : Spaced false (commaTokens trailing entries) code)
    (following : List Text) :
    readValues (trim code) following = values := by
  have htokens : ListForm.hash.IsTokens entries (commaTokens trailing entries) := ⟨trailing, rfl⟩
  have htoken := htokens.isToken hwords hentries
  have hspaced := h.trim (fun w hw => (htoken w hw).1)
  have hout : ∀ c, isBlank c = false ∧ isWord c = false ∧ c ≠ ':' ∧ c ≠ ',' → c ∉ trim code := by
    rintro c ⟨hblank, hword, hcolon, hcomma⟩ hc
    rcases hspaced.mem hc with hb | ⟨w, hw, hmem⟩
    · rw [hblank] at hb
      cases hb
    · rcases htokens.mem hentries hw with rfl | ⟨v, hv, hvw⟩
      · exact hcomma (List.mem_singleton.1 hmem)
      · exact hvw.not_mem (hwords v hv) ⟨hword, hblank, hcolon⟩ hmem
  have hhash : (trim code).contains '\x7b' = false := by
    simpa using hout '\x7b' (by decide)
  have hlegacy : values.filter (fun key => key.head? != some '_') = values :=
    List.filter_eq_self.2 (fun v hv => by simpa using hfirst v hv)
  have hread : extract (trim code) following = keywordKeys (trim code) := by
    unfold extract
    rw [hhash, hasBareBracket_eq_false (hout '[' (by decide)),
      wordList?_eq_none (hout '%' (by decide))]
    rfl
  rw [readValues, hread, keywordKeys, hashKeys_spaced hwords hentries hspaced, hlegacy,
    distinct_eq_self hnodup]

end Forms

end EnumDecl
end SchemaSpec
