import SchemaSpec.Proofs.Enumeration.Sources

/-!
# Options behind a value list

What stands behind the value list of an enum is no part of it, but on the line of the list it can be
taken for the list: the form of a list is known by a brace or a bracket anywhere on its first line.

* `ListForm.Keeps`: the options that leave the values of a list alone.
* `extract_append_brace`, `extract_append_bracket`: the options that are read in place of the list.
* `readValues_whole_iff`: when a list on one line keeps its values.
* `ofLines_options_iff`: when a declaration keeps its values, whatever the layout of its list.
-/

namespace SchemaSpec
namespace EnumDecl

open Text Options

/-- Whether options on the line of a list leave its values alone, with the lines that follow it.  A
hash always keeps its values.  Any other list gives way to the text behind the first brace, and a word
list in parentheses to that behind the first bare bracket too, so that it keeps its values only if
the same ones are read there; a word list in brackets is then read as a list of one item. -/
def ListForm.Keeps (values : List Text) (code : Text) (following : List Text) : ListForm → Prop
  | hash => True
  | array => '\x7b' ∈ code → readValues code following = values
  | words _ _ true =>
      '\x7b' ∈ code ∨ hasBareBracket ' ' ' ' code = true → readValues code following = values
  | words _ _ false =>
      ('\x7b' ∈ code → readValues code following = values)
        ∧ ('\x7b' ∉ code → hasBareBracket ' ' ' ' code = true → values.length = 1)

/-! ## Comments behind options -/

section Comments

variable {t u : Text}

theorem beforeComment?_blank
    (s : Lexical)
    (h : AllBlank t) :
    beforeComment? s t = none := by
  induction t generalizing s with
  | nil =>
      rfl
  | cons c t ih =>
      obtain ⟨hc, ht⟩ := List.forall_mem_cons.1 h
      have hne : c ≠ '#' := by
        rintro rfl
        exact absurd hc (by decide)
      rw [beforeComment?, if_neg (fun h => hne h.2), ih _ ht]
      rfl

/-- Blanks at the end of a line do not change where its comment starts. -/
theorem beforeComment?_trimEnd
    (s : Lexical)
    (t : Text) :
    beforeComment? s (trimEnd t) = beforeComment? s t := by
  obtain ⟨u, ht, hu⟩ := exists_dropEnd_append isBlank t
  have happend := beforeComment?_append_eq s (trimEnd t) u
  rw [beforeComment?_blank _ hu, Option.map_none, Option.or_none] at happend
  rw [← happend]
  exact congrArg (beforeComment? s) ht.symm

/-- A comment behind closed code does not matter. -/
theorem stripComment_append_comment
    {comment : Text}
    (hclosed : Scan.start.run t = .start)
    (hcomment : IsComment comment) :
    stripComment (trimEnd (t ++ comment)) = stripComment (trimEnd t) := by
  cases comment with
  | nil =>
      rw [List.append_nil]
  | cons c comment =>
      have hsign : beforeComment? .code ('#' :: trimEnd comment) = some [] := rfl
      rw [hcomment c rfl, trimEnd_append_cons (by decide)]
      unfold stripComment
      rw [beforeComment?_append_eq, beforeComment?_trimEnd, Scan.place_of_run hclosed, hsign]
      cases beforeComment? .code t with
      | some before =>
          rfl
      | none =>
          simp

end Comments

/-! ## Lists that give way to their options -/

section GivingWay

variable {front code : Text} {following : List Text}

/-- Between brackets, the text in front of them does not matter. -/
theorem inner?_gather_append
    {opener closer : Char}
    (hopen : opener ∉ front)
    (hclose : closer ∉ front)
    (code : Text)
    (following : List Text) :
    inner? opener closer (gather opener closer (front ++ code) following)
      = inner? opener closer (gather opener closer code following) := by
  have hbalance : balance opener closer (front ++ code) = balance opener closer code := by
    unfold balance
    rw [List.count_append, List.count_append, List.count_eq_zero_of_not_mem hopen,
      List.count_eq_zero_of_not_mem hclose, Nat.zero_add, Nat.zero_add]
  unfold inner? gather
  rw [hbalance, List.append_assoc, cutAt?_append hopen, Option.map_map]
  rfl

/-- A text gives way to the first brace behind it. -/
theorem extract_append_brace
    (hopen : '\x7b' ∉ front)
    (hclose : '\x7d' ∉ front)
    (h : '\x7b' ∈ code) :
    extract (front ++ code) following = extract code following := by
  have hcode : code.contains '\x7b' = true := by simpa using h
  have hwhole : (front ++ code).contains '\x7b' = true := by simpa using Or.inr h
  unfold extract
  rw [if_pos hcode, if_pos hwhole, inner?_gather_append hopen hclose]

/-- A text without brackets of its own gives way to the first bare bracket behind it. -/
theorem extract_append_bracket
    (hopen : '[' ∉ front)
    (hclose : ']' ∉ front)
    (hbrace : '\x7b' ∉ front ++ code)
    (hwhole : hasBareBracket ' ' ' ' (front ++ code) = true)
    (h : hasBareBracket ' ' ' ' code = true) :
    extract (front ++ code) following = extract code following := by
  have hbraceCode : code.contains '\x7b' = false := by
    simpa using fun hmem => hbrace (List.mem_append_right front hmem)
  have hbraceWhole : (front ++ code).contains '\x7b' = false := by
    simpa using hbrace
  unfold extract
  rw [hbraceCode, hbraceWhole, h, hwhole, inner?_gather_append hopen hclose]
  rfl

/-- Behind a character that does not start a word list, brackets are bare as at the start of a text. -/
theorem hasBareBracket_behind
    {q : Char}
    (hq : isWordListKind q = false ∧ q ≠ '%')
    (p : Char)
    (t : Text) :
    hasBareBracket p q t = hasBareBracket ' ' ' ' t := by
  have hspace : isWordListKind ' ' = false := by decide
  cases t with
  | nil =>
      rfl
  | cons c t =>
      cases t with
      | nil =>
          simp [hasBareBracket, hq.1, hspace]
      | cons d t =>
          have hpercent : (q == '%') = false := by simpa using hq.2
          simp [hasBareBracket, hq.1, hpercent, hspace]

theorem hasBareBracket_append
    (hopen : '[' ∉ front)
    {q : Char}
    (hq : isWordListKind q = false ∧ q ≠ '%' ∧ q ≠ '[')
    (a b : Char)
    (t : Text) :
    hasBareBracket a b (front ++ q :: t) = hasBareBracket ' ' ' ' t := by
  induction front generalizing a b with
  | nil =>
      rw [List.nil_append, hasBareBracket, hasBareBracket_behind ⟨hq.1, hq.2.1⟩]
      simp [hq.2.2]
  | cons c front ih =>
      simp only [List.mem_cons, not_or] at hopen
      rw [List.cons_append, hasBareBracket, ih hopen.2]
      simp [Ne.symm hopen.1]

end GivingWay

/-! ## Lists with options -/

section Options

variable {form : ListForm} {values entries tokens : List Text} {code behind : Text}
variable (hnodup : values.Nodup) (hwords : ∀ v ∈ values, IsWordRun v)
  (hentries : List.Forall₂ form.IsEntry values entries) (htokens : form.IsTokens entries tokens)
  (hcode : Spaced form.apart tokens code)
include hnodup hwords hentries htokens hcode

/-- A list keeps its values if no brace stands behind it, and no bare bracket behind a word list. -/
theorem readValues_whole
    (hbrace : form ≠ .hash → '\x7b' ∉ behind)
    (hbare : form.apart = true → hasBareBracket ' ' ' ' behind = false)
    (following : List Text) :
    readValues (form.lead ++ form.opener :: (code ++ form.closer :: behind)) following = values := by
  have hinert := hcode.allInert (htokens.isToken hwords hentries)
  have hfirst : form ≠ .hash → '\x7b' ∉ code ++ form.closer :: behind := by
    intro hform hmem
    rcases List.mem_append.1 hmem with hmem | hmem
    · exact not_mem_of_not_isInert (by decide) hinert hmem
    · rcases List.mem_cons.1 hmem with hcloser | hmem
      · have hno : ∀ p ∈ [('\x7b', '\x7d'), ('[', ']'), ('(', ')')], '\x7b' ≠ p.2 := by decide
        exact hno _ form.brackets_mem hcloser
      · exact hbrace hform hmem
  have hlist : form.apart = true →
      hasBareBracket ' ' ' ' (form.lead ++ form.opener :: (code ++ form.closer :: behind))
        = false := by
    intro happart
    have hcloser : ∀ p ∈ [('\x7b', '\x7d'), ('[', ']'), ('(', ')')],
        isWordListKind p.2 = false ∧ p.2 ≠ '%' ∧ p.2 ≠ '[' := by
      decide
    have hbehind := hasBareBracket_append (not_mem_of_not_isInert (by decide) hinert)
      (hcloser _ form.brackets_mem)
    cases form with
    | hash => cases happart
    | array => cases happart
    | words kind hkind round =>
        exact (hasBareBracket_words hkind _).trans ((hbehind _ _ _).trans (hbare rfl))
  have hinner : inner? form.opener form.closer
      (gather form.opener form.closer (form.opener :: (code ++ form.closer :: behind)) following)
        = some code := by
    rw [gather, List.cons_append, List.append_assoc, List.cons_append]
    exact inner?_append form hinert _
  rw [readValues, extract_form form hfirst hlist, hinner, Option.getD_some,
    form.read_spaced hwords hentries htokens hcode, distinct_eq_self hnodup]

omit hnodup in
/-- Any list but a hash gives way to the first brace behind it. -/
theorem readValues_brace
    (hform : form ≠ .hash)
    (hbrace : '\x7b' ∈ behind)
    (following : List Text) :
    readValues (form.lead ++ form.opener :: (code ++ form.closer :: behind)) following
      = readValues behind following := by
  have hinert := hcode.allInert (htokens.isToken hwords hentries)
  have hsplit : form.lead ++ form.opener :: (code ++ form.closer :: behind)
      = (form.lead ++ form.opener :: (code ++ [form.closer])) ++ behind := by
    simp
  have hfront : ∀ c, (c = '\x7b' ∨ c = '\x7d') →
      c ∉ form.lead ++ form.opener :: (code ++ [form.closer]) := by
    intro c hc
    have hinside : c ∉ code :=
      not_mem_of_not_isInert (by rcases hc with rfl | rfl <;> decide) hinert
    have hends : c ∉ form.lead ∧ c ≠ form.opener ∧ c ≠ form.closer := by
      cases form with
      | hash =>
          exact absurd rfl hform
      | array =>
          rcases hc with rfl | rfl <;> decide
      | words kind hkind round =>
          have hkindNe : c ≠ kind := by
            rcases wordListKind_cases hkind with rfl | rfl | rfl | rfl <;>
              rcases hc with rfl | rfl <;> decide
          rcases hc with rfl | rfl <;> cases round <;>
            simp [ListForm.lead, ListForm.opener, ListForm.closer, hkindNe]
    simp [hinside, hends]
  rw [readValues, hsplit, extract_append_brace (hfront _ (Or.inl rfl)) (hfront _ (Or.inr rfl)) hbrace]
  rfl

end Options

/-! ### Word lists -/

section WordLists

variable {values : List Text} {kind : Char} {code behind : Text}
variable (hkind : isWordListKind kind = true) (hwords : ∀ v ∈ values, IsWordRun v)
  (hcode : Spaced true values code)
include hwords hcode

theorem allInert_words :
    AllInert code :=
  hcode.allInert (fun w hw =>
    ⟨⟨(hwords w hw).1, (hwords w hw).trim_eq⟩, allInert_of_isWordRun (hwords w hw)⟩)

/-- A word list that is read between commas is one item. -/
theorem listItems_words
    (hne : values ≠ []) :
    listItems code = [trim code] := by
  obtain ⟨v, vs, rfl⟩ := List.exists_cons_of_ne_nil hne
  have hplain : ∀ c ∈ code, isWord c = true ∨ isBlank c = true := by
    intro c hc
    rcases hcode.mem hc with hblank | ⟨w, hw, hmem⟩
    · exact Or.inr hblank
    · exact Or.inl ((hwords w hw).2 c hmem)
  have hclosed : Closed isComma code := by
    refine closed_of_plain (fun c hc => ?_) (fun c hc => ?_) <;>
      rcases hplain c hc with hword | hblank
    · exact isPlain_of_isWord hword
    · exact isPlain_of_isBlank hblank
    · exact not_isComma_of_isWord hword
    · exact not_isComma_of_isBlank hblank
  -- The item starts with the first word, so no colon and no quote is taken from it.
  obtain ⟨c, r, htrim, hc⟩ : ∃ c r, trim code = c :: r ∧ isWord c = true := by
    obtain ⟨gap, rest, rfl, hgap, -, -⟩ := hcode
    have hv := hwords v List.mem_cons_self
    obtain ⟨c, r, rfl⟩ := List.exists_cons_of_ne_nil hv.1
    refine ⟨c, r ++ trimEnd rest, ?_, hv.2 c List.mem_cons_self⟩
    rw [List.append_assoc, trim_blank_append hgap, trim_append_of_trimmed_left hv.trim_eq hv.1]
    rfl
  have hbare : bareKey (trim code) = trim code := by
    have hagain := trim_trim code
    rw [htrim] at hagain ⊢
    exact bareKey_cons hc hagain
  have hpieces : splitTopLevel code = [trim code] := by
    unfold splitTopLevel splitTopLevelBy
    rw [pieces_closed hclosed, List.map_singleton, List.filter_cons_of_pos (by simp [htrim])]
    rfl
  rw [listItems, hpieces, List.map_singleton, hbare, List.filter_cons_of_pos (by simp [htrim])]
  rfl

/-- The only item is the only word, if there is one word only. -/
theorem trim_words_iff
    (hne : values ≠ []) :
    [trim code] = values ↔ values.length = 1 := by
  constructor
  · intro h
    rw [← h]
    rfl
  · intro h
    obtain ⟨v, rfl⟩ := List.length_eq_one_iff.1 h
    obtain ⟨gap, rest, rfl, hgap, -, hrest⟩ := hcode
    rw [trim_surround hgap hrest, (hwords v List.mem_cons_self).trim_eq]

include hkind

/-- A word list in parentheses gives way to the first bare bracket behind it. -/
theorem readValues_bracket
    (hbrace : '\x7b' ∉ behind)
    (hbare : hasBareBracket ' ' ' ' behind = true)
    (following : List Text) :
    readValues ('%' :: kind :: '(' :: (code ++ ')' :: behind)) following
      = readValues behind following := by
  have hinert := allInert_words hwords hcode
  have hsplit : '%' :: kind :: '(' :: (code ++ ')' :: behind)
      = ('%' :: kind :: '(' :: (code ++ [')'])) ++ behind := by
    simp
  have hfront : ∀ c, (c = '\x7b' ∨ c = '[' ∨ c = ']') →
      c ∉ '%' :: kind :: '(' :: (code ++ [')']) := by
    intro c hc
    have hinside : c ∉ code :=
      not_mem_of_not_isInert (by rcases hc with rfl | rfl | rfl <;> decide) hinert
    have hout : c ≠ '%' ∧ c ≠ kind ∧ c ≠ '(' ∧ c ≠ ')' := by
      rcases wordListKind_cases hkind with rfl | rfl | rfl | rfl <;>
        rcases hc with rfl | rfl | rfl <;> decide
    simp [hinside, hout]
  have hwhole : hasBareBracket ' ' ' ' ('%' :: kind :: '(' :: (code ++ ')' :: behind)) = true := by
    rw [hasBareBracket_words hkind,
      hasBareBracket_append (not_mem_of_not_isInert (by decide) hinert) (by decide), hbare]
  rw [hsplit] at hwhole
  have hnone : '\x7b' ∉ ('%' :: kind :: '(' :: (code ++ [')'])) ++ behind := by
    rw [List.mem_append, not_or]
    exact ⟨hfront _ (Or.inl rfl), hbrace⟩
  rw [readValues, hsplit, extract_append_bracket (hfront _ (Or.inr (Or.inl rfl)))
    (hfront _ (Or.inr (Or.inr rfl))) hnone hwhole hbare]
  rfl

/-- A word list in brackets with a bare bracket behind it is read as a list of one item. -/
theorem readValues_item
    (hne : values ≠ [])
    (hbrace : '\x7b' ∉ behind)
    (hbare : hasBareBracket ' ' ' ' behind = true)
    (following : List Text) :
    readValues ('%' :: kind :: '[' :: (code ++ ']' :: behind)) following = [trim code] := by
  have hinert := allInert_words hwords hcode
  have hkindNe : kind ≠ '\x7b' ∧ kind ≠ '[' ∧ kind ≠ ']' := by
    rcases wordListKind_cases hkind with rfl | rfl | rfl | rfl <;> decide
  have hnone : ('%' :: kind :: '[' :: (code ++ ']' :: behind)).contains '\x7b' = false := by
    have hinside : '\x7b' ∉ code := not_mem_of_not_isInert (by decide) hinert
    simp [hinside, hbrace, Ne.symm hkindNe.1]
  have hwhole : hasBareBracket ' ' ' ' ('%' :: kind :: '[' :: (code ++ ']' :: behind)) = true := by
    rw [hasBareBracket_words hkind,
      hasBareBracket_append (not_mem_of_not_isInert (by decide) hinert) (by decide), hbare]
  have hinner : inner? '[' ']' (gather '[' ']' ('%' :: kind :: '[' :: (code ++ ']' :: behind))
      following) = some code := by
    have hopen : '[' ∉ ['%', kind] := by simp [Ne.symm hkindNe.2.1]
    have hclose : ']' ∉ ['%', kind] := by simp [Ne.symm hkindNe.2.2]
    have hfront := inner?_gather_append hopen hclose ('[' :: (code ++ ']' :: behind)) following
    rw [List.cons_append, List.singleton_append] at hfront
    rw [hfront, gather, List.cons_append, List.append_assoc, List.cons_append]
    exact inner?_append .array hinert _
  unfold readValues extract
  rw [hnone, if_neg Bool.false_ne_true, if_pos hwhole, hinner, Option.getD_some,
    listItems_words hwords hcode hne]
  rfl

end WordLists

section Whole

variable {form : ListForm} {values entries tokens : List Text} {code behind : Text}

/-- A list on one line keeps its values exactly if the options behind it leave them alone. -/
theorem readValues_whole_iff
    (hne : values ≠ [])
    (hnodup : values.Nodup)
    (hwords : ∀ v ∈ values, IsWordRun v)
    (hentries : List.Forall₂ form.IsEntry values entries)
    (htokens : form.IsTokens entries tokens)
    (hcode : Spaced form.apart tokens code)
    (following : List Text) :
    readValues (form.lead ++ form.opener :: (code ++ form.closer :: behind)) following = values
      ↔ form.Keeps values behind following := by
  have hkept := @readValues_whole form values entries tokens code behind hnodup hwords hentries htokens
    hcode
  have hgives := @readValues_brace form values entries tokens code behind hwords hentries htokens hcode
  cases form with
  | hash =>
      exact iff_of_true (hkept (fun hform => absurd rfl hform) (fun happart => by cases happart) _)
        trivial
  | array =>
      by_cases hbrace : '\x7b' ∈ behind
      · rw [hgives (by simp) hbrace]
        exact ⟨fun h _ => h, fun h => h hbrace⟩
      · exact iff_of_true (hkept (fun _ => hbrace) (fun happart => by cases happart) _)
          (fun h => absurd h hbrace)
  | words kind hkind round =>
      have hspaced : Spaced true values code := by
        have hsame := map_eq_of_forall₂ (g := id) hentries (fun v _ e hve => hve)
        rw [List.map_id] at hsame
        rwa [show tokens = entries from htokens, hsame] at hcode
      by_cases hbrace : '\x7b' ∈ behind
      · rw [hgives (by simp) hbrace]
        cases round with
        | true =>
            exact ⟨fun h _ => h, fun h => h (Or.inl hbrace)⟩
        | false =>
            exact ⟨fun h => ⟨fun _ => h, fun hno => absurd hbrace hno⟩, fun h => h.1 hbrace⟩
      · cases hbare : hasBareBracket ' ' ' ' behind with
        | false =>
            refine iff_of_true (hkept (fun _ => hbrace) (fun _ => hbare) _) ?_
            cases round with
            | true =>
                rintro (hmem | hsome)
                · exact absurd hmem hbrace
                · rw [hbare] at hsome
                  cases hsome
            | false =>
                refine ⟨fun hmem => absurd hmem hbrace, fun _ hsome => ?_⟩
                rw [hbare] at hsome
                cases hsome
        | true =>
            cases round with
            | true =>
                have hread := readValues_bracket hkind hwords hspaced hbrace hbare following
                exact ⟨fun h _ => hread.symm.trans h, fun h => hread.trans (h (Or.inr hbare))⟩
            | false =>
                have hread := readValues_item hkind hwords hspaced hne hbrace hbare following
                have hone := trim_words_iff hwords hspaced hne
                exact ⟨fun h => ⟨fun hmem => absurd hmem hbrace,
                    fun _ _ => hone.1 (hread.symm.trans h)⟩,
                  fun h => hread.trans (hone.2 (h.2 hbrace hbare))⟩

/-- A declaration keeps its values exactly if the options behind its list, on one line with it, leave
them alone; on another line than the first, options never matter. -/
theorem ofLines_options_iff
    {fieldName indent marker line line' : Text}
    {lines lines' : List Text}
    (hfield : IsWordRun fieldName)
    (hne : values ≠ [])
    (hnodup : values.Nodup)
    (hwords : ∀ v ∈ values, IsWordRun v)
    (hindent : AllBlank indent)
    (hmarker : IsMarker fieldName marker)
    (hentries : List.Forall₂ form.IsEntry values entries)
    (htokens : form.IsTokens entries tokens)
    (hclosed : Scan.start.run behind = .start)
    (h : IsListed form behind tokens (line :: lines))
    (h' : IsListed form [] tokens (line' :: lines'))
    (modelName : Text)
    (following : List Text) :
    ofLines modelName
          ((indent ++ marker ++ form.lead ++ form.opener :: line) :: lines ++ following)
        = ofLines modelName
          ((indent ++ marker ++ form.lead ++ form.opener :: line') :: lines' ++ following)
      ↔ (lines = [] → form.Keeps values (stripComment (trimEnd behind)) following) := by
  have hplain : contribution modelName following
      ((indent ++ marker ++ form.lead ++ form.opener :: line') :: lines')
        = [⟨fieldName, modelName, values⟩] := by
    rw [contribution_listed_iff hfield hne hwords hindent hmarker hentries htokens h']
    exact readValues_listed hnodup hwords hentries htokens (fun _ c hc => by cases hc) h' following
  rw [ofLines_append, ofLines_append, List.append_left_inj, hplain,
    contribution_listed_iff hfield hne hwords hindent hmarker hentries htokens h]
  cases h with
  | @last ws code comment hcode hcomment =>
      have hinert := hcode.allInert (htokens.isToken hwords hentries)
      have hline : code ++ form.closer :: behind ++ comment
          = code ++ form.closer :: (behind ++ comment) := by
        simp
      rw [hline, stripComment_whole form hinert, stripComment_append_comment hclosed hcomment,
        List.nil_append,
        readValues_whole_iff hne hnodup hwords hentries htokens hcode following]
      exact ⟨fun h _ => h, fun h => h rfl⟩
  | line hcode hcomment hlines =>
      have hsome : lines ≠ [] := by
        rintro rfl
        cases hlines
      refine iff_of_true ?_ (fun hnil => absurd hnil hsome)
      exact readValues_listed hnodup hwords hentries htokens (fun hnil => absurd hnil hsome)
        (.line hcode hcomment hlines) following

theorem ofLines_options_iff_kind :
    ofLines "Post".toList ["enum :kind, %w(web store), suffix: %i[a b] # all".toList]
      = ofLines "Post".toList ["enum :kind, %w(web store)".toList] := by
  have hmarker : IsMarker "kind".toList "enum :kind, ".toList :=
    ⟨[' '], [' '], by decide, by decide, Or.inl ⟨[], by decide, by decide⟩⟩
  have hentries : List.Forall₂ (ListForm.words 'w' rfl true).IsEntry
      ["web".toList, "store".toList] ["web".toList, "store".toList] :=
    .cons rfl (.cons rfl .nil)
  have hcode : Spaced true ["web".toList, "store".toList] "web store".toList :=
    ⟨[], " store".toList, by decide, by decide, fun _ c hc => by rw [← Option.some.inj hc]; decide,
      [' '], [], by decide, by decide, by simp [StartsBlank], allBlank_nil⟩
  have hlist : IsListed (.words 'w' rfl true) ", suffix: %i[a b] ".toList
      ["web".toList, "store".toList]
      ["web store".toList ++ ')' :: ", suffix: %i[a b] ".toList ++ "# all".toList] :=
    .last hcode (fun c hc => (Option.some.inj hc).symm)
  have hplain : IsListed (.words 'w' rfl true) [] ["web".toList, "store".toList]
      ["web store".toList ++ ')' :: [] ++ []] :=
    .last hcode (by simp [IsComment])
  have hkeeps : (ListForm.words 'w' rfl true).Keeps ["web".toList, "store".toList]
      (stripComment (trimEnd ", suffix: %i[a b] ".toList)) [] := by
    intro hopens
    exact absurd hopens (by decide)
  have hsame := (ofLines_options_iff (by decide) (by decide) (by decide) (by decide) allBlank_nil
    hmarker hentries rfl (by decide) hlist hplain "Post".toList []).2 (fun _ => hkeeps)
  have hline : [] ++ "enum :kind, ".toList ++ (ListForm.words 'w' rfl true).lead
      ++ (ListForm.words 'w' rfl true).opener
        :: ("web store".toList ++ ')' :: ", suffix: %i[a b] ".toList ++ "# all".toList)
      = "enum :kind, %w(web store), suffix: %i[a b] # all".toList := by
    decide
  have hline' : [] ++ "enum :kind, ".toList ++ (ListForm.words 'w' rfl true).lead
      ++ (ListForm.words 'w' rfl true).opener :: ("web store".toList ++ ')' :: [] ++ [])
      = "enum :kind, %w(web store)".toList := by
    decide
  rw [hline, hline'] at hsame
  exact hsame

/-- A brace behind a list is taken for the list: the option in it becomes the only value. -/
theorem options_read_as_values :
    Scan.start.run ", validate: \x7b allow_nil: true \x7d".toList = .start
      ∧ ofSource "Post".toList "enum :status, [:draft, :sent]".toList
        = [⟨"status".toList, "Post".toList, ["draft".toList, "sent".toList]⟩]
      ∧ ofSource "Post".toList
          "enum :status, [:draft, :sent], validate: \x7b allow_nil: true \x7d".toList
        = [⟨"status".toList, "Post".toList, ["allow_nil".toList]⟩] := by
  decide +kernel

end Whole

end EnumDecl
end SchemaSpec
