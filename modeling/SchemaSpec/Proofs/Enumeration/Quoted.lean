import SchemaSpec.Proofs.Options.Tails
import SchemaSpec.Proofs.Enumeration.Strings

/-!
# Values of lists with strings

A comma or a comment sign in a string is part of the string, but the brackets of a list are read without
regard to strings: a string can close its list, or leave it open over the next lines.

* `QuotedForm.Keeps`: the strings that leave the values of their list alone.
* `exists_unclosed`: what is read of a list that is closed in one of its strings.
* `mem_splitTopLevel_of_open`: a list left open takes an entry of the next line along.
* `readValues_of_brace`: a brace in a string is taken for the start of a hash.
* `keeps_of_closed_within`: a list closed in one of its strings gives its values only if the string is
  the last one and stands behind a key.
* `readValues_of_keeps`, `keeps_of_readValues`: the values read are those written, exactly for strings
  that leave them alone.
* `ofLines_quoted_iff`: the same for a declaration.
-/

namespace SchemaSpec
namespace EnumDecl

open Text Options

namespace QuotedForm

/-- Whether strings fit and the brackets in them, one string behind the other, pair up. -/
def Clean (form : QuotedForm) (texts : List Text) : Prop :=
  (∀ s ∈ texts, form.Fits s) ∧ Paired form.outer.opener form.outer.closer texts.flatten

instance (form : QuotedForm) (texts : List Text) : Decidable (form.Clean texts) :=
  inferInstanceAs (Decidable ((∀ s ∈ texts, form.Fits s)
    ∧ Paired form.outer.opener form.outer.closer texts.flatten))

/-- Whether strings leave the values of their list alone.  Behind the keys of a hash, the last string
may close the hash: its key has been read then. -/
def Keeps (form : QuotedForm) (texts : List Text) : Prop :=
  form.Clean texts
    ∨ form = text ∧ ∃ earlier shown hidden, texts = earlier ++ [shown ++ '\x7d' :: hidden]
      ∧ form.Clean (earlier ++ [shown])

/-- What is read of a list: the text between its brackets, as they pair up without regard to strings. -/
def inside (form : QuotedForm) (code : Text) (following : List Text) : Text :=
  (inner? form.outer.opener form.outer.closer
    (gather form.outer.opener form.outer.closer
      (form.outer.opener :: (code ++ [form.outer.closer])) following)).getD []

end QuotedForm

/-! ## Lists closed in a string -/

section Unclosed

variable {form : QuotedForm} {item : Text × Text} {items : List (Text × Text)}
variable {lead gap s t code : Text} {entries earlier later : List Text}

theorem commaTokens_cons
    (e : Text)
    (es : List Text) :
    commaTokens true (e :: es) = e :: [','] :: commaTokens true es := by
  cases es <;> rfl

/-- The code of a list parts in front of each of its entries. -/
theorem Spaced.exists_front
    {trailing : Bool}
    {e : Text}
    (h : Spaced false (commaTokens trailing (earlier ++ e :: later)) t) :
    ∃ front gap rest, t = front ++ (gap ++ (e ++ rest)) ∧ AllBlank gap
      ∧ Spaced false (commaTokens true earlier) front := by
  induction earlier generalizing t with
  | nil =>
      cases later <;> obtain ⟨gap, rest, rfl, hgap, -⟩ := h <;>
        exact ⟨[], gap, rest, by simp, hgap, allBlank_nil⟩
  | cons f earlier ih =>
      have htokens : commaTokens trailing (f :: earlier ++ e :: later)
          = f :: [','] :: commaTokens trailing (earlier ++ e :: later) := by
        cases earlier <;> rfl
      rw [htokens] at h
      obtain ⟨left, behind, rfl, hleft, -, blanks, others, rfl, hblanks, -, hothers⟩ := h
      obtain ⟨front, gap, rest, rfl, hgap, hfront⟩ := ih hothers
      refine ⟨left ++ f ++ (blanks ++ [','] ++ front), gap, rest, by simp, hgap, ?_⟩
      rw [commaTokens_cons]
      exact ⟨left, blanks ++ [','] ++ front, rfl, hleft, fun h => absurd h (by decide), blanks, front,
        rfl, hblanks, fun h => absurd h (by decide), hfront⟩

/-- Entries in front of a comma each are found, whatever code follows. -/
theorem splitTopLevel_front
    (hentries : ∀ e ∈ entries, IsTrimmed e ∧ Closed isComma e)
    (h : Spaced false (commaTokens true entries) t)
    (u : Text) :
    splitTopLevel (t ++ u) = entries ++ splitTopLevel u := by
  induction entries generalizing t with
  | nil =>
      have hblank := splitTopLevel_surround h allBlank_nil u
      rwa [List.append_nil] at hblank
  | cons e entries ih =>
      obtain ⟨⟨he, hclosed⟩, hrest⟩ := List.forall_mem_cons.1 hentries
      rw [commaTokens_cons] at h
      obtain ⟨gap, behind, rfl, hgap, -, blanks, others, rfl, hblanks, -, hothers⟩ := h
      have hcut := splitTopLevel_append_cons he hclosed hgap hblanks (others ++ u)
      rw [ih hrest hothers] at hcut
      simpa using hcut

/-- A string that is not closed is the last piece, without the blanks at its end. -/
theorem splitTopLevel_unclosed
    (hitem : form.IsItem item)
    (hlead : form.IsLead item.1 lead)
    (hgap : AllBlank gap)
    (hs : IsLiteral s) :
    splitTopLevel (gap ++ (lead ++ '\x22' :: s)) = [lead ++ '\x22' :: trimEnd s] := by
  obtain ⟨hinert, hcomma, hstart⟩ := hlead.facts hitem
  have hquiet : Scan.start.quiet isComma (gap ++ (lead ++ '\x22' :: s)) = true := by
    have hclosed := (closed_of_allBlank hgap).append ((closed_of_allInert hinert hcomma).append
      (closed_string (q := '\x22') (by decide) hs))
    have hsplit : gap ++ (lead ++ ('\x22' :: s ++ ['\x22']))
        = gap ++ (lead ++ '\x22' :: s) ++ ['\x22'] := by
      simp
    rw [hsplit] at hclosed
    have hparts := hclosed.1
    rw [Scan.quiet_append, Bool.and_eq_true] at hparts
    exact hparts.1
  have htrim : trim (gap ++ (lead ++ '\x22' :: s)) = lead ++ '\x22' :: trimEnd s := by
    rw [trim_blank_append hgap, trim_append_cons (by decide), hstart]
  rw [splitTopLevel_of_quiet hquiet, htrim, if_neg (by simp)]

/-- How a form reads the entry with a string that is not closed: behind a key, the string does not
matter if it fits. -/
theorem QuotedForm.IsLead.key_unclosed
    (hitem : form.IsItem item)
    (hlead : form.IsLead item.1 lead)
    (hs : '\x22' ∉ s) :
    (form = .text ∧ form.Fits s → form.key (lead ++ '\x22' :: s) = item.1)
      ∧ (¬ (form = .text ∧ form.Fits s) → form.IsForeign (form.key (lead ++ '\x22' :: s))) := by
  cases form with
  | list =>
      refine ⟨fun h => absurd h.1 (by decide), fun _ => ?_⟩
      have hkey : '\x22' ∈ bareKey ('\x22' :: s) := by
        rw [bareKey_unclosed hs]
        exact List.mem_cons_self
      rw [show lead = [] from hlead]
      exact hkey
  | arrow =>
      refine ⟨fun h => absurd h.1 (by decide), fun _ => ?_⟩
      rw [show lead = [] from hlead]
      exact quote_mem_entryKey hs
  | colon =>
      refine ⟨fun h => absurd h.1 (by decide), fun _ => ?_⟩
      rw [show lead = [] from hlead]
      exact quote_mem_entryKey hs
  | text =>
      obtain ⟨gap, hgap, rfl⟩ := hlead
      rw [List.append_assoc, List.cons_append]
      constructor
      · rintro ⟨-, hfits⟩
        exact entryKey_colon hitem.1 ((hasPart_gap hgap s).trans hfits)
      · intro hfits
        refine isForeign_entryKey hitem.1 ?_
        rw [hasPart_gap hgap]
        exact Bool.eq_true_of_not_eq_false fun harrow => hfits ⟨rfl, harrow⟩

/-- The entries are pieces of the list. -/
theorem isPiece_of_mem
    (hitems : ∀ item ∈ items, form.IsItem item)
    (hentries : List.Forall₂ form.IsEntry items entries) :
    ∀ e ∈ entries, IsTrimmed e ∧ Closed isComma e := by
  intro e he
  obtain ⟨item, hmem, hentry⟩ := exists_of_mem_entries hentries he
  obtain ⟨htrimmed, hclosed, -⟩ := hentry.facts (hitems item hmem)
  exact ⟨htrimmed, hclosed⟩

theorem isWhole_code
    (hitems : ∀ item ∈ items, form.IsItem item)
    (hentries : List.Forall₂ form.IsEntry items entries)
    (hcode : Spaced false (commaTokens false entries) code) :
    IsWhole code := by
  refine hcode.isWhole (fun w hw => ?_)
  rcases mem_commaTokens hw with rfl | hw
  · exact isWhole_of_allInert (by decide)
  · obtain ⟨item, hmem, hentry⟩ := exists_of_mem_entries hentries hw
    exact (hentry.facts (hitems item hmem)).2.2.1

/-- The brackets of a list with strings are those of its strings. -/
theorem brackets_code
    {trailing : Bool}
    (hitems : ∀ item ∈ items, form.IsItem item)
    (hentries : List.Forall₂ form.IsEntry items entries)
    (hcode : Spaced false (commaTokens trailing entries) code) :
    brackets code = brackets (items.map Prod.snd).flatten := by
  rw [hcode.brackets_eq, brackets_commaTokens]
  clear hcode
  induction hentries with
  | nil =>
      rfl
  | cons hentry _ ih =>
      obtain ⟨hitem, hrest⟩ := List.forall_mem_cons.1 hitems
      rw [List.flatten_cons, brackets_append, List.map_cons, List.flatten_cons, brackets_append,
        (hentry.facts hitem).2.2.2, ih hrest]

theorem QuotedForm.outer_facts
    (form : QuotedForm) :
    isBracket form.outer.opener = true ∧ isBracket form.outer.closer = true
      ∧ form.outer.closer ≠ form.outer.opener ∧ form.outer.lead = [] ∧ form.outer.apart = false := by
  cases form <;> decide

theorem openAfter?_code
    {trailing : Bool}
    (hitems : ∀ item ∈ items, form.IsItem item)
    (hentries : List.Forall₂ form.IsEntry items entries)
    (hcode : Spaced false (commaTokens trailing entries) code) :
    openAfter? form.outer.opener form.outer.closer 0 code
      = openAfter? form.outer.opener form.outer.closer 0 (items.map Prod.snd).flatten := by
  obtain ⟨hopener, hcloser, -⟩ := form.outer_facts
  rw [← openAfter?_brackets hopener hcloser, brackets_code hitems hentries hcode,
    openAfter?_brackets hopener hcloser]

theorem exists_entries_append
    {r : Text × Text → Text → Prop}
    {before after : List (Text × Text)}
    (h : List.Forall₂ r (before ++ item :: after) entries) :
    ∃ earlier e later, entries = earlier ++ e :: later ∧ List.Forall₂ r before earlier ∧ r item e := by
  induction before generalizing entries with
  | nil =>
      obtain ⟨e, later, he, -, rfl⟩ := List.forall₂_cons_left_iff.1 h
      exact ⟨[], e, later, rfl, .nil, he⟩
  | cons first before ih =>
      obtain ⟨f, rest, hf, hrest, rfl⟩ := List.forall₂_cons_left_iff.1 h
      obtain ⟨earlier, e, later, rfl, hbefore, he⟩ := ih hrest
      exact ⟨f :: earlier, e, later, rfl, .cons hf hbefore, he⟩

/-- A list that is closed in one of its strings has the entries before this string, and the part of
its own entry that stands before the closing bracket. -/
theorem exists_unclosed
    {before after : List (Text × Text)}
    {shown hidden : Text}
    (hitems : ∀ x ∈ before ++ item :: after, form.IsItem x)
    (hentries : List.Forall₂ form.IsEntry (before ++ item :: after) entries)
    (hcode : Spaced false (commaTokens false entries) code)
    (htext : item.2 = shown ++ form.outer.closer :: hidden)
    (hpaired : Paired form.outer.opener form.outer.closer (before.map Prod.snd ++ [shown]).flatten)
    (following : List Text) :
    ∃ earlier lead, List.Forall₂ form.IsEntry before earlier ∧ form.IsLead item.1 lead
      ∧ splitTopLevel (form.inside code following)
        = earlier ++ [lead ++ '\x22' :: trimEnd shown] := by
  obtain ⟨hbefore, hothers⟩ := List.forall_mem_append.1 hitems
  obtain ⟨hitem, -⟩ := List.forall_mem_cons.1 hothers
  obtain ⟨hopener, hcloser, hne, -⟩ := form.outer_facts
  obtain ⟨earlier, e, later, rfl, hearlier, hentry⟩ := exists_entries_append hentries
  obtain ⟨front, gap, rest, rfl, hgap, hfront⟩ := hcode.exists_front
  obtain ⟨lead, tail, rfl, hlead, -⟩ := hentry.exists_around hitem
  have hliteral : IsLiteral shown := by
    have hwhole := hitem.isLiteral
    rw [htext] at hwhole
    exact isLiteral_append_left hwhole
  have hcut : Paired form.outer.opener form.outer.closer
      (front ++ (gap ++ (lead ++ '\x22' :: shown))) := by
    have hquote : brackets ['\x22'] = [] := by decide
    have hall : brackets (front ++ (gap ++ (lead ++ '\x22' :: shown)))
        = brackets (before.map Prod.snd ++ [shown]).flatten := by
      rw [← List.singleton_append, brackets_append, brackets_append, brackets_append,
        brackets_append, hquote, brackets_code hbefore hearlier hfront,
        brackets_inert (allInert_of_allBlank hgap), brackets_inert (hlead.facts hitem).1]
      simp
    unfold Paired at hpaired ⊢
    rw [← openAfter?_brackets hopener hcloser, hall, openAfter?_brackets hopener hcloser, hpaired]
  have hsplit : front ++ (gap ++ (lead ++ (quoted item.2 ++ tail) ++ rest))
      = front ++ (gap ++ (lead ++ '\x22' :: shown))
        ++ form.outer.closer :: (hidden ++ '\x22' :: (tail ++ rest)) := by
    simp [quoted, htext]
  have hfound := isPiece_of_mem hbefore hearlier
  refine ⟨earlier, lead, hearlier, hlead, ?_⟩
  rw [QuotedForm.inside, hsplit, gather, List.cons_append, List.append_assoc, List.append_assoc,
    List.cons_append, inner?_paired hne hcut, Option.getD_some, splitTopLevel_front hfound hfront,
    splitTopLevel_unclosed hitem hlead hgap hliteral]

end Unclosed

/-! ## Values between strings -/

section Values

variable {form : QuotedForm} {items : List (Text × Text)} {entries : List Text} {code : Text}

/-- The distinct non-empty keys of entries. -/
def QuotedForm.keys (form : QuotedForm) (entries : List Text) : List Text :=
  distinct ((entries.map form.key).filter (fun k => !k.isEmpty))

theorem mem_keys
    {e : Text}
    (he : e ∈ entries)
    (hne : form.key e ≠ []) :
    form.key e ∈ form.keys entries :=
  mem_distinct.2 (List.mem_filter.2 ⟨List.mem_map_of_mem he, by simpa using hne⟩)

/-- Where the keys of entries are values, no entry has a key that no value can be. -/
theorem not_isForeign_of_keys
    (hitems : ∀ item ∈ items, form.IsItem item)
    (h : form.keys entries = items.map Prod.fst)
    {e : Text}
    (he : e ∈ entries) :
    ¬ form.IsForeign (form.key e) := by
  intro hforeign
  have hmem := mem_keys he hforeign.ne_nil
  rw [h] at hmem
  obtain ⟨item, hitem, hkey⟩ := List.mem_map.1 hmem
  rw [← hkey] at hforeign
  exact (hitems item hitem).not_isForeign.2 hforeign

/-- Entries whose strings fit have the values for keys. -/
theorem map_key
    (hitems : ∀ item ∈ items, form.IsItem item)
    (hentries : List.Forall₂ form.IsEntry items entries)
    (hfits : ∀ item ∈ items, form.Fits item.2) :
    entries.map form.key = items.map Prod.fst := by
  induction hentries with
  | nil =>
      rfl
  | cons hentry _ ih =>
      obtain ⟨hitem, hitems⟩ := List.forall_mem_cons.1 hitems
      obtain ⟨hfit, hfits⟩ := List.forall_mem_cons.1 hfits
      rw [List.map_cons, List.map_cons, hentry.key_eq hitem hfit, ih hitems hfits]

/-- If no entry has a key that no value can be, the strings fit. -/
theorem fits_of_not_isForeign
    (hform : form ≠ .list)
    (hitems : ∀ item ∈ items, form.IsItem item)
    (hentries : List.Forall₂ form.IsEntry items entries)
    (h : ∀ e ∈ entries, ¬ form.IsForeign (form.key e)) :
    ∀ item ∈ items, form.Fits item.2 := by
  induction hentries with
  | nil =>
      intro item hitem
      cases hitem
  | cons hentry _ ih =>
      obtain ⟨hitem, hitems⟩ := List.forall_mem_cons.1 hitems
      obtain ⟨hkey, hkeys⟩ := List.forall_mem_cons.1 h
      refine List.forall_mem_cons.2 ⟨?_, ih hitems hkeys⟩
      by_contra hfits
      exact hkey (hentry.isForeign hform hitem hfits)

theorem keys_eq
    {values : List Text}
    (hnodup : values.Nodup)
    (hne : ∀ v ∈ values, v ≠ [])
    (h : entries.map form.key = values) :
    form.keys entries = values := by
  have hfilter : values.filter (fun k => !k.isEmpty) = values :=
    List.filter_eq_self.2 (fun v hv => by simpa using hne v hv)
  rw [QuotedForm.keys, h, hfilter, distinct_eq_self hnodup]

theorem mem_code_iff
    (hitems : ∀ item ∈ items, form.IsItem item)
    (hentries : List.Forall₂ form.IsEntry items entries)
    (hcode : Spaced false (commaTokens false entries) code)
    {c : Char}
    (hc : isBracket c = true) :
    c ∈ code ↔ c ∈ (items.map Prod.snd).flatten := by
  have hmem : ∀ t : Text, c ∈ brackets t ↔ c ∈ t := fun t => by simp [brackets, hc]
  rw [← hmem code, brackets_code hitems hentries hcode, hmem]

/-- A list is read by the brackets of its form, unless it is one in brackets with a brace in it. -/
theorem readValues_eq_keys
    (hbrace : form = .list → '\x7b' ∉ code)
    (following : List Text) :
    readValues (form.outer.opener :: (code ++ [form.outer.closer])) following
      = form.keys (splitTopLevel (form.inside code following)) := by
  have hfirst : form.outer ≠ .hash → '\x7b' ∉ code ++ [form.outer.closer] := by
    intro hform
    cases form with
    | list => simpa [QuotedForm.outer, ListForm.closer] using hbrace rfl
    | _ => exact absurd rfl hform
  have hread : ∀ t : Text, form.outer.read t
      = ((splitTopLevel t).map form.key).filter (fun k => !k.isEmpty) := by
    intro t
    cases form <;> rfl
  obtain ⟨-, -, -, hlead, hapart⟩ := form.outer_facts
  have hextract := extract_form form.outer hfirst (fun h => by rw [hapart] at h; cases h) following
  rw [hlead, List.nil_append] at hextract
  rw [readValues, hextract, hread]
  rfl

/-- A list whose brackets pair up is read whole. -/
theorem inside_of_paired
    (h : Paired form.outer.opener form.outer.closer code)
    (following : List Text) :
    form.inside code following = code := by
  rw [QuotedForm.inside, gather, List.cons_append, List.append_assoc, List.singleton_append,
    inner?_paired form.outer_facts.2.2.1 h, Option.getD_some]

/-- A list that leaves brackets open takes an entry of the next line along. -/
theorem mem_splitTopLevel_of_open
    {d : Nat}
    (hwhole : IsWhole code)
    (h : openAfter? form.outer.opener form.outer.closer 0 code = some (d + 1)) :
    ['\x22'] ∈ splitTopLevel (form.inside code [", \"".toList]) := by
  obtain ⟨-, -, hne, -⟩ := form.outer_facts
  have hline : continuation form.outer.opener form.outer.closer (d + 1) [", \"".toList]
      = " , \"".toList := by
    have hstrip : stripComment (trim ", \"".toList) = ", \"".toList := by decide
    rw [continuation, if_neg (by omega)]
    dsimp only
    rw [hstrip]
    split <;> rfl
  have hkept : untilClosed form.outer.opener form.outer.closer (d + 1) " , \"".toList
      = " , \"".toList := by
    have hopen : form.outer.opener ∉ " , \"".toList := by cases form <;> decide
    have hclose : form.outer.closer ∉ " , \"".toList := by cases form <;> decide
    have hall := untilClosed_of_openAfter? (openAfter?_of_not_mem hopen hclose d) []
    rw [List.append_nil] at hall
    exact hall.trans (List.append_nil _)
  have hsplit : code ++ form.outer.closer :: " , \"".toList
      = (code ++ [form.outer.closer, ' ']) ++ ',' :: " \"".toList := by
    simp
  have hrun : Scan.start.run (code ++ [form.outer.closer, ' ']) = .start := by
    rw [Scan.run_append, hwhole.1]
    cases form <;> decide
  rw [QuotedForm.inside, inner?_gather_of_openAfter? hne h, hline, hkept, Option.getD_some, hsplit,
    splitTopLevel_append_comma hrun]
  exact List.mem_append_right _ (by decide)

/-- Between brackets stand fewer brackets than in the text. -/
theorem count_inner?_lt
    {opener : Char}
    (closer : Char)
    {t : Text}
    (h : opener ∈ t) :
    ((inner? opener closer t).getD []).count opener < t.count opener := by
  obtain ⟨before, behind, rfl, hbefore⟩ := List.eq_append_cons_of_mem h
  have hcut : cutAt? [opener] (before ++ ([opener] ++ behind)) = some (before, behind) :=
    cutAt?_of_not_mem hbefore behind
  have hinside := (untilClosed_sublist opener closer 1 behind).count_le opener
  rw [List.singleton_append] at hcut
  rw [inner?, hcut, Option.map_some, Option.getD_some, List.count_append, List.count_cons_self]
  dsimp only
  omega

/-- A list in brackets with a brace in one of its strings is not read: the brace is taken for the start
of a hash, so no value has it. -/
theorem readValues_of_brace
    (hitems : ∀ item ∈ items, QuotedForm.list.IsItem item)
    (hentries : List.Forall₂ QuotedForm.list.IsEntry items entries)
    (hcode : Spaced false (commaTokens false entries) code)
    (hbrace : '\x7b' ∈ code) :
    readValues ('[' :: (code ++ [']'])) [] ≠ items.map Prod.fst := by
  intro hread
  have hsame : items.map Prod.fst = items.map Prod.snd :=
    List.map_congr_left (fun item hitem => (hitems item hitem).1)
  have hcount : (items.map Prod.snd).flatten.count '\x7b' = code.count '\x7b' := by
    have hbracket : isBracket '\x7b' = true := by decide
    rw [← count_brackets hbracket, ← brackets_code hitems hentries hcode, count_brackets hbracket]
  have hline : ('[' :: (code ++ [']'])).count '\x7b' = code.count '\x7b' := by
    rw [List.count_cons_of_ne (by decide), List.count_append]
    rfl
  have hform : ('[' :: (code ++ [']'])).contains '\x7b' = true := by simp [hbrace]
  have hextract : extract ('[' :: (code ++ [']'])) []
      = hashKeys ((inner? '\x7b' '\x7d' ('[' :: (code ++ [']']))).getD []) := by
    unfold extract gather
    rw [if_pos hform, continuation, List.append_nil]
  have hvalues : (readValues ('[' :: (code ++ [']'])) []).flatten.count '\x7b'
      ≤ ((inner? '\x7b' '\x7d' ('[' :: (code ++ [']']))).getD []).count '\x7b' := by
    rw [readValues, hextract]
    exact ((distinct_sublist _).flatten.trans (flatten_hashKeys_sublist _)).count_le _
  have hfewer := count_inner?_lt '\x7d' (List.contains_iff_mem.1 hform)
  rw [hread, hsame, hcount] at hvalues
  rw [hline] at hfewer
  omega

/-! ### Which strings leave the values alone -/

section Keeps

theorem fits_trimEnd
    (s : Text) :
    QuotedForm.text.Fits (trimEnd s) ↔ QuotedForm.text.Fits s := by
  obtain ⟨blanks, hs, hblanks⟩ := exists_dropEnd_append isBlank s
  have hsame := hasPart_append_blank (by decide : "=>".toList ≠ []) (by decide) hblanks (trimEnd s)
  rw [show trimEnd s ++ blanks = s from hs.symm] at hsame
  exact iff_of_eq (congrArg (· = false) hsame.symm)

/-- The part of a string that stands in front of a bracket has no quote. -/
theorem quote_not_mem_shown
    {item : Text × Text}
    {shown hidden : Text}
    {c : Char}
    (hitem : form.IsItem item)
    (htext : item.2 = shown ++ c :: hidden) :
    '\x22' ∉ trimEnd shown := by
  intro hmem
  refine not_mem_of_isLiteral hitem.isLiteral ?_
  rw [htext]
  exact List.mem_append_left _ (trimEnd_subset shown hmem)

theorem exists_of_map_eq_append
    {earlier later : List Text}
    {t : Text}
    (h : items.map Prod.snd = earlier ++ t :: later) :
    ∃ before item after, items = before ++ item :: after ∧ before.map Prod.snd = earlier
      ∧ item.2 = t ∧ after.map Prod.snd = later := by
  obtain ⟨before, others, rfl, hbefore, hothers⟩ := List.map_eq_append_iff.1 h
  obtain ⟨item, after, rfl, hitem, hafter⟩ := List.map_eq_cons_iff.1 hothers
  exact ⟨before, item, after, rfl, hbefore, hitem, hafter⟩

variable (hitems : ∀ item ∈ items, form.IsItem item)
  (hentries : List.Forall₂ form.IsEntry items entries)
  (hcode : Spaced false (commaTokens false entries) code)
include hitems hentries hcode

omit hentries hcode in
theorem ne_nil_of_mem_values :
    ∀ v ∈ items.map Prod.fst, v ≠ [] := by
  intro v hv
  obtain ⟨item, hitem, rfl⟩ := List.mem_map.1 hv
  exact (hitems item hitem).not_isForeign.1

/-- Clean strings leave the values alone, and so does a string behind the last key that closes the
list. -/
theorem readValues_of_keeps
    (hnodup : (items.map Prod.fst).Nodup)
    (h : form.Keeps (items.map Prod.snd))
    (following : List Text) :
    readValues (form.outer.opener :: (code ++ [form.outer.closer])) following
      = items.map Prod.fst := by
  have hne := ne_nil_of_mem_values hitems
  rcases h with ⟨hfits, hpaired⟩ | ⟨rfl, earlier, shown, hidden, htexts, hfits, hpaired⟩
  · have hbrace : form = .list → '\x7b' ∉ code := by
      rintro rfl hmem
      rw [mem_code_iff hitems hentries hcode (by decide)] at hmem
      obtain ⟨s, hs, hin⟩ := List.mem_flatten.1 hmem
      exact hfits s hs hin
    have hcodePaired : Paired form.outer.opener form.outer.closer code :=
      (openAfter?_code hitems hentries hcode).trans hpaired
    rw [readValues_eq_keys hbrace, inside_of_paired hcodePaired,
      splitTopLevel_spaced (isPiece_of_mem hitems hentries) hcode]
    exact keys_eq hnodup hne
      (map_key hitems hentries (fun item hitem => hfits _ (List.mem_map_of_mem hitem)))
  · obtain ⟨before, item, after, rfl, rfl, htext, hafter⟩ := exists_of_map_eq_append htexts
    obtain rfl : after = [] := List.map_eq_nil_iff.1 hafter
    obtain ⟨hbefore, hlast⟩ := List.forall_mem_append.1 hitems
    obtain ⟨hitem, -⟩ := List.forall_mem_cons.1 hlast
    obtain ⟨es, lead, hes, hlead, hsplit⟩ :=
      exists_unclosed hitems hentries hcode htext hpaired following
    have hkey : QuotedForm.text.key (lead ++ '\x22' :: trimEnd shown) = item.1 :=
      (hlead.key_unclosed hitem (quote_not_mem_shown hitem htext)).1
        ⟨rfl, (fits_trimEnd shown).2 (hfits shown (by simp))⟩
    have hkeys := map_key hbefore hes
      (fun x hx => hfits _ (List.mem_append_left _ (List.mem_map_of_mem hx)))
    rw [readValues_eq_keys (fun h => by cases h), hsplit]
    refine keys_eq hnodup hne ?_
    rw [List.map_append, hkeys, List.map_singleton, hkey, List.map_append, List.map_singleton]

/-- If a list that is closed in one of its strings gives the values, then this string is the last one,
and stands behind a key. -/
theorem keeps_of_closed_within
    (hnodup : (items.map Prod.fst).Nodup)
    (hclosed : openAfter? form.outer.opener form.outer.closer 0 (items.map Prod.snd).flatten = none)
    (hread : form.keys (splitTopLevel (form.inside code [])) = items.map Prod.fst) :
    form.Keeps (items.map Prod.snd) := by
  have hne := ne_nil_of_mem_values hitems
  obtain ⟨earlier, shown, hidden, later, htexts, hpaired⟩ :=
    exists_of_openAfter?_flatten_eq_none hclosed
  obtain ⟨before, item, after, rfl, rfl, htext, -⟩ := exists_of_map_eq_append htexts
  obtain ⟨hbefore, hothers⟩ := List.forall_mem_append.1 hitems
  obtain ⟨hitem, -⟩ := List.forall_mem_cons.1 hothers
  obtain ⟨es, lead, hes, hlead, hsplit⟩ := exists_unclosed hitems hentries hcode htext hpaired []
  rw [hsplit] at hread
  have hvalue : ∀ e ∈ es ++ [lead ++ '\x22' :: trimEnd shown], ¬ form.IsForeign (form.key e) :=
    fun e he => not_isForeign_of_keys hitems hread he
  obtain ⟨hkeyed, hforeign⟩ := hlead.key_unclosed hitem (quote_not_mem_shown hitem htext)
  -- Without a key in front of it, the string would take its quote into a value.
  obtain ⟨rfl, hshown⟩ : form = .text ∧ form.Fits (trimEnd shown) := by
    by_contra hno
    exact hvalue _ (by simp) (hforeign hno)
  have hfits := fits_of_not_isForeign (by decide) hbefore hes
    (fun e he => hvalue e (List.mem_append_left _ he))
  have hall : (es ++ [lead ++ '\x22' :: trimEnd shown]).map QuotedForm.text.key
      = before.map Prod.fst ++ [item.1] := by
    rw [List.map_append, map_key hbefore hes hfits, List.map_singleton, hkeyed ⟨rfl, hshown⟩]
  -- The list gives the keys up to this one, so there are no others.
  have hlast : after = [] := by
    rw [List.map_append, List.map_cons] at hread hnodup hne
    have hfirst : List.Sublist (before.map Prod.fst ++ [item.1])
        (before.map Prod.fst ++ item.1 :: after.map Prod.fst) :=
      (List.Sublist.refl _).append (List.singleton_sublist.2 List.mem_cons_self)
    rw [keys_eq (hnodup.sublist hfirst) (fun v hv => hne v (hfirst.subset hv)) hall] at hread
    exact List.map_eq_nil_iff.1 (List.cons_eq_cons.1 (List.append_cancel_left hread)).2.symm
  refine Or.inr ⟨rfl, before.map Prod.snd, shown, hidden, ?_, ?_, hpaired⟩
  · rw [hlast, List.map_append, List.map_singleton, htext]
    rfl
  · intro s hs
    rcases List.mem_append.1 hs with hs | hs
    · obtain ⟨x, hx, rfl⟩ := List.mem_map.1 hs
      exact hfits x hx
    · rw [List.mem_singleton.1 hs]
      exact (fits_trimEnd shown).1 hshown

/-- If a list that is read whole gives the values, its strings fit. -/
theorem fits_of_paired
    (hbrace : form = .list → '\x7b' ∉ code)
    (hpaired : Paired form.outer.opener form.outer.closer code)
    (hread : form.keys (splitTopLevel (form.inside code [])) = items.map Prod.fst) :
    ∀ s ∈ items.map Prod.snd, form.Fits s := by
  intro s hs
  by_cases hform : form = .list
  · subst hform
    have hout := hbrace rfl
    rw [mem_code_iff hitems hentries hcode (by decide)] at hout
    exact fun hmem => hout (List.mem_flatten.2 ⟨s, hs, hmem⟩)
  · rw [inside_of_paired hpaired,
      splitTopLevel_spaced (isPiece_of_mem hitems hentries) hcode] at hread
    obtain ⟨item, hitem, rfl⟩ := List.mem_map.1 hs
    exact fits_of_not_isForeign hform hitems hentries
      (fun e he => not_isForeign_of_keys hitems hread he) item hitem

/-- If a list gives the values, whatever lines follow, its strings leave them alone. -/
theorem keeps_of_readValues
    (hnodup : (items.map Prod.fst).Nodup)
    (h : ∀ following, readValues (form.outer.opener :: (code ++ [form.outer.closer])) following
      = items.map Prod.fst) :
    form.Keeps (items.map Prod.snd) := by
  have hbrace : form = .list → '\x7b' ∉ code := by
    rintro rfl hmem
    exact readValues_of_brace hitems hentries hcode hmem (h [])
  have hread := fun following => (readValues_eq_keys hbrace following).symm.trans (h following)
  have hopen := openAfter?_code hitems hentries hcode
  cases hflat : openAfter? form.outer.opener form.outer.closer 0 (items.map Prod.snd).flatten with
  | none =>
      exact keeps_of_closed_within hitems hentries hcode hnodup hflat (hread [])
  | some d =>
      rw [hflat] at hopen
      cases d with
      | zero =>
          exact Or.inl ⟨fits_of_paired hitems hentries hcode hbrace hopen (hread []), hflat⟩
      | succ d =>
          -- The next line can add an entry that is no value.
          have hwhole := isWhole_code hitems hentries hcode
          have hforeign : form.IsForeign (form.key ['\x22']) := by
            cases form <;> decide
          exact absurd hforeign
            (not_isForeign_of_keys hitems (hread _) (mem_splitTopLevel_of_open hwhole hopen))

/-- On its line, a list with strings is not touched by the search for blanks and comments. -/
theorem stripComment_code :
    stripComment (trim (form.outer.opener :: (code ++ [form.outer.closer])))
      = form.outer.opener :: (code ++ [form.outer.closer]) := by
  have hends : isBlank form.outer.opener = false ∧ isBlank form.outer.closer = false
      ∧ isUncommented form.outer.opener = true ∧ isUncommented form.outer.closer = true := by
    cases form <;> decide
  obtain ⟨hopener, hcloser, hopen, hclose⟩ := hends
  have htrim : trim (form.outer.opener :: (code ++ [form.outer.closer]))
      = form.outer.opener :: (code ++ [form.outer.closer]) := by
    have hstart := trim_append_cons hopener [] (code ++ [form.outer.closer])
    rw [trimEnd_append_cons hcloser] at hstart
    exact hstart
  have hwhole := isWhole_code hitems hentries hcode
  have hnone : beforeComment? .code (form.outer.opener :: (code ++ [form.outer.closer])) = none := by
    have hstart : ∀ c ∈ [form.outer.opener], isUncommented c = true :=
      fun c hc => List.mem_singleton.1 hc ▸ hopen
    have hfirst := beforeComment?_append hstart (code ++ [form.outer.closer])
    rw [List.singleton_append] at hfirst
    rw [hfirst, beforeComment?_append_eq, hwhole.2, Scan.place_of_run hwhole.1,
      (beforeComment?_uncommented (fun c hc => List.mem_singleton.1 hc ▸ hclose)).1]
    rfl
  rw [htrim, stripComment, hnone]

/-- A list of strings, or of keys with strings, declares the values written in it, whatever lines
follow, exactly if its strings leave them alone. -/
theorem ofLines_quoted_iff
    {fieldName indent marker : Text}
    (hfield : IsWordRun fieldName)
    (hne : items ≠ [])
    (hnodup : (items.map Prod.fst).Nodup)
    (hindent : AllBlank indent)
    (hmarker : IsMarker fieldName marker)
    (modelName : Text) :
    (∀ following, ofLines modelName
          ((indent ++ marker ++ form.outer.opener :: (code ++ [form.outer.closer])) :: following)
        = ⟨fieldName, modelName, items.map Prod.fst⟩ :: ofLines modelName following)
      ↔ form.Keeps (items.map Prod.snd) := by
  have hsome : items.map Prod.fst ≠ [] := by simpa using hne
  have hmarked := marker?_append hfield hmarker hindent
    (form.outer.opener :: (code ++ [form.outer.closer]))
  have hread : ∀ following, ofLines modelName
        ((indent ++ marker ++ form.outer.opener :: (code ++ [form.outer.closer])) :: following)
      = ⟨fieldName, modelName, items.map Prod.fst⟩ :: ofLines modelName following
      ↔ readValues (form.outer.opener :: (code ++ [form.outer.closer])) following
        = items.map Prod.fst := by
    intro following
    have hline := ofLine?_marked_iff hsome hmarked modelName following
    rw [stripComment_code hitems hentries hcode] at hline
    rw [ofLines_cons_eq_iff, hline]
  constructor
  · intro h
    exact keeps_of_readValues hitems hentries hcode hnodup
      (fun following => (hread following).1 (h following))
  · intro h following
    exact (hread following).2 (readValues_of_keeps hitems hentries hcode hnodup h following)

omit hitems hentries hcode in
theorem ofLines_quoted_iff_kind :
    ofLines "Post".toList ["enum :kind, \x7b a: \"x, \x7by\x7d\", b: \"# [\" \x7d".toList, "end".toList]
      = [⟨"kind".toList, "Post".toList, ["a".toList, "b".toList]⟩] := by
  have hmarker : IsMarker "kind".toList "enum :kind, ".toList :=
    ⟨[' '], [' '], by decide, by decide, Or.inl ⟨[], by decide, by decide⟩⟩
  have hentries : List.Forall₂ QuotedForm.text.IsEntry
      [("a".toList, "x, \x7by\x7d".toList), ("b".toList, "# [".toList)]
      ["a: \"x, \x7by\x7d\"".toList, "b: \"# [\"".toList] :=
    .cons ⟨[' '], by decide, by decide⟩ (.cons ⟨[' '], by decide, by decide⟩ .nil)
  have hcode : Spaced false
      (commaTokens false ["a: \"x, \x7by\x7d\"".toList, "b: \"# [\"".toList])
      " a: \"x, \x7by\x7d\", b: \"# [\" ".toList :=
    ⟨[' '], ", b: \"# [\" ".toList, by decide, by decide, fun h => absurd h (by decide),
      [], " b: \"# [\" ".toList, by decide, by decide, fun h => absurd h (by decide),
      [' '], [' '], by decide, by decide, fun h => absurd h (by decide), allBlank_space⟩
  have hitems : ∀ item ∈ [("a".toList, "x, \x7by\x7d".toList), ("b".toList, "# [".toList)],
      QuotedForm.text.IsItem item := by
    intro item hitem
    rcases List.mem_cons.1 hitem with rfl | hitem
    · exact ⟨by decide, by decide⟩
    · rw [List.mem_singleton.1 hitem]
      exact ⟨by decide, by decide⟩
  have hdeclared := (ofLines_quoted_iff hitems hentries hcode (by decide) (by decide) (by decide)
    allBlank_nil hmarker "Post".toList).2 (Or.inl (by decide)) ["end".toList]
  have hline : [] ++ "enum :kind, ".toList
      ++ '\x7b' :: (" a: \"x, \x7by\x7d\", b: \"# [\" ".toList ++ ['\x7d'])
      = "enum :kind, \x7b a: \"x, \x7by\x7d\", b: \"# [\" \x7d".toList := by
    decide
  have hend : ofLines "Post".toList ["end".toList] = [] := by
    decide
  rw [hend] at hdeclared
  rw [← hline]
  exact hdeclared

omit hitems hentries hcode in
/-- A bracket in a string ends the list, and an arrow in a string ends the key. -/
theorem strings_read_as_code :
    ofSource "Post".toList "enum :kind, [\"a]\"]".toList
        = [⟨"kind".toList, "Post".toList, ["\"a".toList]⟩]
      ∧ ofSource "Post".toList "enum :kind, \x7b \"a => b\" => 0 \x7d".toList
        = [⟨"kind".toList, "Post".toList, ["\"a".toList]⟩]
      ∧ ofSource "Post".toList "enum :kind, \x7b \"a:b\": 0 \x7d".toList
        = [⟨"kind".toList, "Post".toList, ["\"a".toList]⟩]
      ∧ ofSource "Post".toList "enum :kind, \x7b a: \"x\x7d\", b: \"y\" \x7d".toList
        = [⟨"kind".toList, "Post".toList, ["a".toList]⟩] := by
  decide +kernel

end Keeps

end Values

end EnumDecl
end SchemaSpec
