import SchemaSpec.Proofs.Enumeration.OneLine
import SchemaSpec.Proofs.Enumeration.Sources

/-!
# Strings in value lists

The values of a list can be string literals, and the keys of a hash can have string literals for
values.  An entry with a string is one piece of code, but its key is read without regard to the string:
an arrow or a colon in it ends the key.

* `QuotedForm`: the four ways to write strings into a list, with the entry of each.
* `QuotedForm.Fits`: the strings that are not read as the end of a key.
* `QuotedForm.IsEntry.facts`: an entry is one piece, with the brackets of its string.
* `QuotedForm.IsEntry.key_eq`, `QuotedForm.IsEntry.isForeign`: the key of an entry is its value, exactly
  if its string fits.
-/

namespace SchemaSpec
namespace EnumDecl

open Text Options

/-! ## Lists with strings -/

/-- A text that can stand between double quotes as it is. -/
def IsLiteral (t : Text) : Prop :=
  ∀ c ∈ t, c ≠ '\x22' ∧ c ≠ '\\'

instance (t : Text) : Decidable (IsLiteral t) :=
  decidable_of_iff (t.all (fun c => c != '\x22' && c != '\\') = true) (by simp [IsLiteral])

/-- A text between double quotes. -/
def quoted (t : Text) : Text :=
  '\x22' :: t ++ ['\x22']

/-- The ways to write strings into a list: as its items, `["s"]`, as the keys of a hash,
`{ "s" => 0 }` and `{ "s": 0 }`, and behind the keys of a hash, `{ key: "s" }`. -/
inductive QuotedForm
  | list
  | arrow
  | colon
  | text
  deriving DecidableEq

namespace QuotedForm

/-- The form of the list around the strings. -/
def outer : QuotedForm → ListForm
  | list => .array
  | _ => .hash

/-- A value with its string: the string itself, or a word in front of it. -/
def IsItem : QuotedForm → Text × Text → Prop
  | text, item => IsWordRun item.1 ∧ IsLiteral item.2
  | _, item => item.1 = item.2 ∧ IsTrimmed item.2 ∧ IsLiteral item.2

/-- The entry of a value with its string. -/
def IsEntry : QuotedForm → Text × Text → Text → Prop
  | list, item, e => e = quoted item.2
  | arrow, item, e => ∃ gap right n, AllBlank gap ∧ AllBlank right ∧ IsWordRun n
      ∧ e = quoted item.2 ++ gap ++ "=>".toList ++ right ++ n
  | colon, item, e => ∃ gap n, AllBlank gap ∧ IsWordRun n
      ∧ e = quoted item.2 ++ ':' :: gap ++ n
  | text, item, e => ∃ gap, AllBlank gap ∧ e = item.1 ++ ':' :: gap ++ quoted item.2

/-- Whether a string has nothing in it that is read as the form of the list, or as the end of a key. -/
def Fits : QuotedForm → Text → Prop
  | list, s => '\x7b' ∉ s
  | arrow, s => hasPart "=>".toList s = false
  | colon, s => ':' ∉ s ∧ hasPart "=>".toList s = false
  | text, s => hasPart "=>".toList s = false

instance (form : QuotedForm) (s : Text) : Decidable (form.Fits s) :=
  match form with
  | list => inferInstanceAs (Decidable ('\x7b' ∉ s))
  | arrow => inferInstanceAs (Decidable (hasPart "=>".toList s = false))
  | colon => inferInstanceAs (Decidable (':' ∉ s ∧ hasPart "=>".toList s = false))
  | text => inferInstanceAs (Decidable (hasPart "=>".toList s = false))

/-- What stands in front of the string in an entry. -/
def IsLead : QuotedForm → Text → Text → Prop
  | text, v, lead => ∃ gap, AllBlank gap ∧ lead = v ++ ':' :: gap
  | _, _, lead => lead = []

/-- How a form reads an entry. -/
def key : QuotedForm → Text → Text
  | list => bareKey
  | _ => entryKey

/-- A key that no value of the form can be. -/
def IsForeign : QuotedForm → Text → Prop
  | text, k => k ≠ [] ∧ ¬ IsWordRun k
  | _, k => '\x22' ∈ k

instance (form : QuotedForm) (k : Text) : Decidable (form.IsForeign k) :=
  match form with
  | text => inferInstanceAs (Decidable (k ≠ [] ∧ ¬ IsWordRun k))
  | list => inferInstanceAs (Decidable ('\x22' ∈ k))
  | arrow => inferInstanceAs (Decidable ('\x22' ∈ k))
  | colon => inferInstanceAs (Decidable ('\x22' ∈ k))

end QuotedForm

/-! ## Code with strings -/

section Code

variable {t u : Text} {ws : List Text} {apart : Bool}

/-- Code in which no string and no group is left open, and no comment starts. -/
def IsWhole (t : Text) : Prop :=
  Scan.start.run t = .start ∧ beforeComment? .code t = none

theorem IsWhole.append
    (ht : IsWhole t)
    (hu : IsWhole u) :
    IsWhole (t ++ u) := by
  constructor
  · rw [Scan.run_append, ht.1, hu.1]
  · rw [beforeComment?_append_eq, ht.2, Option.none_or, Scan.place_of_run ht.1, hu.2]
    rfl

theorem isWhole_of_allInert
    (ht : AllInert t) :
    IsWhole t :=
  ⟨Scan.run_plain (fun c hc => (Bool.and_eq_true_iff.1 (ht c hc)).1),
    (beforeComment?_uncommented (fun c hc => isUncommented_of_isInert (ht c hc))).1⟩

theorem isWhole_quoted
    (ht : IsLiteral t) :
    IsWhole (quoted t) := by
  have hinside : beforeComment? (.literal '\x22' false) (t ++ ['\x22']) = none := by
    induction t with
    | nil =>
        rfl
    | cons c t ih =>
        obtain ⟨hc, ht⟩ := List.forall_mem_cons.1 ht
        have hnext : (Lexical.literal '\x22' false).next c = .literal '\x22' false := by
          simp [Lexical.next, hc.1, hc.2]
        rw [List.cons_append, beforeComment?, if_neg (by simp), hnext, ih ht]
        rfl
  have hclosed : Closed isComma (quoted t) := closed_string (by decide) ht
  refine ⟨hclosed.2, ?_⟩
  have hquote : Lexical.code.next '\x22' = .literal '\x22' false := rfl
  rw [quoted, List.cons_append, beforeComment?, if_neg (by decide), hquote, hinside]
  rfl

theorem Spaced.isWhole
    (hws : ∀ w ∈ ws, IsWhole w)
    (h : Spaced apart ws t) :
    IsWhole t := by
  induction ws generalizing t with
  | nil =>
      exact isWhole_of_allInert (allInert_of_allBlank h)
  | cons w ws ih =>
      obtain ⟨gap, rest, rfl, hgap, -, hrest⟩ := h
      obtain ⟨hw, hws⟩ := List.forall_mem_cons.1 hws
      exact ((isWhole_of_allInert (allInert_of_allBlank hgap)).append hw).append (ih hws hrest)

theorem brackets_inert
    (ht : AllInert t) :
    brackets t = [] := by
  refine brackets_eq_nil (fun c hc => ?_)
  have hinert := ht c hc
  simp only [isInert, isPlain, Bool.and_eq_true, Bool.not_eq_true', Bool.or_eq_false_iff] at hinert
  rw [isBracket, hinert.1.1.2, hinert.1.2]
  rfl

theorem Spaced.brackets_eq
    (h : Spaced apart ws t) :
    brackets t = brackets ws.flatten := by
  induction ws generalizing t with
  | nil =>
      exact brackets_inert (allInert_of_allBlank h)
  | cons w ws ih =>
      obtain ⟨gap, rest, rfl, hgap, -, hrest⟩ := h
      rw [brackets_append, brackets_append, brackets_inert (allInert_of_allBlank hgap), ih hrest,
        List.flatten_cons, brackets_append, List.nil_append]

theorem brackets_commaTokens
    (trailing : Bool)
    (es : List Text) :
    brackets (commaTokens trailing es).flatten = brackets es.flatten := by
  fun_induction commaTokens trailing es with
  | case1 =>
      rfl
  | case2 e =>
      cases trailing <;> simp [brackets]
      decide
  | case3 e f es ih =>
      have hcomma : brackets [','] = [] := by decide
      simp only [List.flatten_cons, brackets_append, hcomma, List.nil_append] at ih ⊢
      rw [ih]

theorem count_brackets
    {c : Char}
    (hc : isBracket c = true)
    (t : Text) :
    (brackets t).count c = t.count c :=
  List.count_filter hc

end Code

/-! ## Entries with strings -/

section Entries

variable {form : QuotedForm} {item : Text × Text} {lead gap s e : Text}

theorem QuotedForm.IsItem.isLiteral
    (h : form.IsItem item) :
    IsLiteral item.2 := by
  cases form with
  | text => exact h.2
  | _ => exact h.2.2

theorem not_mem_of_isLiteral
    (h : IsLiteral s) :
    '\x22' ∉ s :=
  fun hmem => (h _ hmem).1 rfl

theorem isLiteral_append_left
    {t : Text}
    (h : IsLiteral (s ++ t)) :
    IsLiteral s :=
  fun c hc => h c (List.mem_append_left t hc)

/-- What stands in front of a string neither opens nor separates anything. -/
theorem QuotedForm.IsLead.facts
    (hitem : form.IsItem item)
    (h : form.IsLead item.1 lead) :
    AllInert lead ∧ ',' ∉ lead ∧ trimStart lead = lead := by
  cases form with
  | text =>
      obtain ⟨gap, hgap, rfl⟩ := h
      obtain ⟨hword, -⟩ := hitem
      refine ⟨?_, ?_, ?_⟩
      · have hcolon : AllInert [':'] := by decide
        have hlead := (allInert_of_isWordRun hword).append
          (hcolon.append (allInert_of_allBlank hgap))
        exact hlead
      · have hblank : ',' ∉ gap := fun hmem => absurd (hgap _ hmem) (by decide)
        simp [hword.not_mem (by decide : isWord ',' = false), hblank]
      · exact trimStart_append ⟨hword.1, hword.trim_eq⟩ _
  | _ =>
      rw [show lead = [] from h]
      exact ⟨by decide, by decide, rfl⟩

/-- In an entry, only its string can open or separate anything. -/
theorem QuotedForm.IsEntry.exists_around
    (hitem : form.IsItem item)
    (h : form.IsEntry item e) :
    ∃ lead tail, e = lead ++ (quoted item.2 ++ tail) ∧ form.IsLead item.1 lead
      ∧ AllInert tail ∧ ',' ∉ tail ∧ trimEnd tail = tail := by
  have hblank : ∀ {gap : Text}, AllBlank gap → ',' ∉ gap := fun hgap hmem =>
    absurd (hgap _ hmem) (by decide)
  have hend : ∀ {n : Text}, IsWordRun n → ∀ t : Text, trimEnd (t ++ n) = t ++ n := by
    intro n hn t
    have hlast := dropEnd_append_of_last (p := isBlank) (t := t ++ n) (fun c hc => by
      rw [List.getLast?_append_of_ne_nil _ hn.1] at hc
      exact not_isBlank_of_isWord (hn.2 c (List.mem_of_getLast? hc))) []
    rw [List.append_nil] at hlast
    exact hlast.trans (List.append_nil _)
  cases form with
  | list =>
      rw [show e = quoted item.2 from h]
      exact ⟨[], [], by simp, rfl, by decide, by decide, rfl⟩
  | arrow =>
      obtain ⟨gap, right, n, hgap, hright, hn, rfl⟩ := h
      refine ⟨[], gap ++ "=>".toList ++ right ++ n, by simp, rfl, ?_, ?_, hend hn _⟩
      · exact (((allInert_of_allBlank hgap).append (by decide)).append
          (allInert_of_allBlank hright)).append (allInert_of_isWordRun hn)
      · simp [hblank hgap, hblank hright, hn.not_mem (by decide : isWord ',' = false)]
  | colon =>
      obtain ⟨gap, n, hgap, hn, rfl⟩ := h
      have hcolon : AllInert [':'] := by decide
      refine ⟨[], ':' :: gap ++ n, by simp, rfl, ?_, ?_, hend hn _⟩
      · exact (hcolon.append (allInert_of_allBlank hgap)).append (allInert_of_isWordRun hn)
      · simp [hblank hgap, hn.not_mem (by decide : isWord ',' = false)]
  | text =>
      obtain ⟨gap, hgap, rfl⟩ := h
      exact ⟨item.1 ++ ':' :: gap, [], by simp, ⟨gap, hgap, rfl⟩, by decide, by decide, rfl⟩

/-- An entry is one piece of code, and its brackets are those of its string. -/
theorem QuotedForm.IsEntry.facts
    (hitem : form.IsItem item)
    (h : form.IsEntry item e) :
    IsTrimmed e ∧ Closed isComma e ∧ IsWhole e ∧ brackets e = brackets item.2 := by
  obtain ⟨lead, tail, rfl, hlead, htail, hcomma, hend⟩ := h.exists_around hitem
  obtain ⟨hinert, hout, hstart⟩ := hlead.facts hitem
  have hliteral := hitem.isLiteral
  have hsplit : lead ++ (quoted item.2 ++ tail)
      = lead ++ '\x22' :: (item.2 ++ '\x22' :: tail) := by
    simp [quoted]
  refine ⟨⟨by simp [quoted], ?_⟩, ?_, ?_, ?_⟩
  · rw [hsplit, trim_append_cons (by decide), trimEnd_append_cons (by decide), hstart, hend]
  · exact (closed_of_allInert hinert hout).append
      ((closed_string (by decide) hliteral).append (closed_of_allInert htail hcomma))
  · exact (isWhole_of_allInert hinert).append
      ((isWhole_quoted hliteral).append (isWhole_of_allInert htail))
  · have hquote : brackets ['\x22'] = [] := by decide
    have hquoted : brackets (quoted item.2) = brackets item.2 := by
      rw [quoted, ← List.singleton_append, brackets_append, brackets_append, hquote,
        List.nil_append, List.append_nil]
    rw [brackets_append, brackets_append, brackets_inert hinert, brackets_inert htail, hquoted,
      List.nil_append, List.append_nil]

end Entries

/-! ## Keys -/

section Keys

variable {form : QuotedForm} {item : Text × Text} {lead s t e : Text}

theorem QuotedForm.IsForeign.ne_nil
    {k : Text}
    (h : form.IsForeign k) :
    k ≠ [] := by
  cases form with
  | text => exact h.1
  | _ => exact List.ne_nil_of_mem h

theorem QuotedForm.IsItem.not_isForeign
    (h : form.IsItem item) :
    item.1 ≠ [] ∧ ¬ form.IsForeign item.1 := by
  cases form with
  | text => exact ⟨h.1.1, fun hforeign => hforeign.2 h.1⟩
  | _ => exact h.1 ▸ ⟨h.2.1.1, not_mem_of_isLiteral h.2.2⟩

/-- A quote that is not closed stays with the key. -/
theorem bareKey_unclosed
    (h : '\x22' ∉ s) :
    bareKey ('\x22' :: s) = '\x22' :: trimEnd s := by
  have htrim : ∀ u : Text, trim ('\x22' :: u) = '\x22' :: trimEnd u := fun u =>
    trim_append_cons (by decide) [] u
  have hagain : trimEnd (trimEnd s) = trimEnd s := by
    have hsame := trim_trim ('\x22' :: s)
    rw [htrim, htrim] at hsame
    exact (List.cons_eq_cons.1 hsame).2
  have hout : '\x22' ∉ trimEnd s := fun hmem => h (trimEnd_subset s hmem)
  have hquotes : dropQuotes ('\x22' :: trimEnd s) = '\x22' :: trimEnd s := by
    cases htext : trimEnd s with
    | nil =>
        rfl
    | cons d u =>
        have hlast : (d :: u).getLast (List.cons_ne_nil d u) ≠ '\x22' := by
          intro heq
          rw [htext] at hout
          exact hout (heq ▸ List.getLast_mem _)
        rw [dropQuotes, if_neg (by simpa using fun _ => hlast)]
  rw [bareKey, htrim, show dropColon ('\x22' :: trimEnd s) = '\x22' :: trimEnd s from rfl, hquotes,
    htrim, hagain]

/-- A key that is cut off in a string starts with its quote. -/
theorem quote_mem_entryKey
    (h : '\x22' ∉ s) :
    '\x22' ∈ entryKey ('\x22' :: s) := by
  have hbare : ∀ a : Text, a ⊆ s → '\x22' ∈ bareKey ('\x22' :: a) := by
    intro a ha
    rw [bareKey_unclosed (fun hmem => h (ha hmem))]
    exact List.mem_cons_self
  unfold entryKey
  split
  · rename_i before behind hcut
    have hwhole := eq_of_cutAt? hcut
    cases before with
    | nil =>
        have hhead : some '\x22' = some '=' := congrArg List.head? hwhole
        exact absurd hhead (by decide)
    | cons c a =>
        rw [List.cons_append, List.cons_append, List.cons_eq_cons] at hwhole
        obtain ⟨rfl, rfl⟩ := hwhole
        exact hbare a (fun c hc => by simp [hc])
  · rw [if_neg (by simp)]
    exact hbare _ (List.takeWhile_sublist _).subset

/-- Behind the colon of a key, an arrow takes the colon into the key. -/
theorem isForeign_entryKey
    {v : Text}
    (hv : IsWordRun v)
    (h : hasPart "=>".toList t = true) :
    QuotedForm.text.IsForeign (entryKey (v ++ ':' :: t)) := by
  obtain ⟨⟨before, behind⟩, hcut⟩ := Option.isSome_iff_exists.1 h
  have hword : cutAt? "=>".toList v = none :=
    cutAt?_eq_none (hv.not_mem (by decide : isWord '=' = false))
  have hwhole : cutAt? "=>".toList (v ++ ':' :: t) = some (v ++ ':' :: before, behind) := by
    rw [cutAt?_append_cons (by decide) (by decide), hword, hcut]
    rfl
  have hkey : bareKey (v ++ ':' :: before) = v ++ ':' :: trimEnd before := by
    have htrim := trim_append_cons (by decide : isBlank ':' = false) v before
    have hstart : trimStart v = v := by
      simpa using trimStart_append ⟨hv.1, hv.trim_eq⟩ []
    rw [hstart] at htrim
    have hagain := trim_trim (v ++ ':' :: before)
    rw [htrim] at hagain
    have hsame : bareKey (v ++ ':' :: before) = bareKey (v ++ ':' :: trimEnd before) := by
      rw [bareKey, htrim, bareKey, hagain]
    obtain ⟨c, r, rfl⟩ := List.exists_cons_of_ne_nil hv.1
    rw [hsame]
    exact bareKey_cons (hv.2 c List.mem_cons_self) hagain
  rw [entryKey, hwhole]
  dsimp only
  rw [hkey]
  exact ⟨by simp, fun hrun => hrun.not_mem (by decide : isWord ':' = false) (by simp)⟩

theorem dropQuotes_quoted
    (hs : s ≠ []) :
    dropQuotes (quoted s) = s := by
  obtain ⟨c, r, rfl⟩ := List.exists_cons_of_ne_nil hs
  have hlast : (c :: (r ++ ['\x22'])).getLast (by simp) = '\x22' := by
    rw [List.getLast_cons (by simp), List.getLast_concat]
  have hdrop : ((c :: r) ++ ['\x22']).dropLast = c :: r := List.dropLast_concat
  rw [List.cons_append] at hdrop
  rw [quoted, List.cons_append, List.cons_append, dropQuotes, hlast, if_pos (by decide), hdrop]

theorem bareKey_quoted
    {gap : Text}
    (hs : IsTrimmed s)
    (hgap : AllBlank gap) :
    bareKey (quoted s ++ gap) = s := by
  have htrim : trim (quoted s ++ gap) = quoted s := by
    have hsplit : quoted s ++ gap = ('\x22' :: s) ++ '\x22' :: gap := by
      simp [quoted]
    rw [hsplit, trim_append_cons (by decide), trimEnd_of_allBlank hgap]
    rfl
  rw [bareKey, htrim, show dropColon (quoted s) = quoted s from rfl, dropQuotes_quoted hs.1, hs.2]

/-- An arrow behind a quote stands in the string or behind it. -/
theorem cutAt?_quoted
    (s t : Text) :
    cutAt? "=>".toList (quoted s ++ t)
      = ((cutAt? "=>".toList s).map (fun cut => ('\x22' :: cut.1, cut.2 ++ '\x22' :: t))).or
        ((cutAt? "=>".toList t).map (fun cut => (quoted s ++ cut.1, cut.2))) := by
  have hsplit : ∀ u : Text, quoted s ++ u = ('\x22' :: s) ++ '\x22' :: u := by
    intro u
    simp [quoted]
  have hopen : cutAt? "=>".toList ('\x22' :: s)
      = (cutAt? "=>".toList s).map (fun cut => ('\x22' :: cut.1, cut.2)) := by
    have hout : '=' ∉ ['\x22'] := by decide
    exact cutAt?_append hout s
  rw [hsplit t, cutAt?_append_cons (by decide) (by decide), hopen, Option.map_map]
  simp only [hsplit]
  rfl

/-- An arrow or a colon in a string ends the key within the string. -/
theorem quote_mem_entryKey_quoted
    (hs : '\x22' ∉ s)
    (ht : hasPart "=>".toList s = true ∨ (':' ∈ s ∧ hasPart "=>".toList t = false)) :
    '\x22' ∈ entryKey (quoted s ++ t) := by
  have hbare : ∀ a : Text, a ⊆ s → '\x22' ∈ bareKey ('\x22' :: a) := by
    intro a ha
    rw [bareKey_unclosed (fun hmem => hs (ha hmem))]
    exact List.mem_cons_self
  rw [entryKey, cutAt?_quoted]
  cases hcut : cutAt? "=>".toList s with
  | some cut =>
      refine hbare cut.1 ?_
      rw [eq_of_cutAt? hcut, List.append_assoc]
      exact List.subset_append_left _ _
  | none =>
      obtain ⟨hcolon, hnone⟩ := ht.resolve_left (by rw [hasPart, hcut]; decide)
      obtain ⟨a, b, rfl, ha⟩ := List.eq_append_cons_of_mem hcolon
      have hkey : (quoted (a ++ ':' :: b) ++ t).takeWhile (· != ':') = '\x22' :: a := by
        have hsplit : quoted (a ++ ':' :: b) ++ t = ('\x22' :: a) ++ ':' :: (b ++ '\x22' :: t) := by
          simp [quoted]
        have hstop : ∀ c ∈ '\x22' :: a, (c != ':') = true := by
          intro c hc
          rcases List.mem_cons.1 hc with rfl | hc
          · decide
          · simpa using ne_of_mem_of_not_mem hc ha
        rw [hsplit]
        exact takeWhile_append_of_stop hstop (by simp)
      rw [cutAt?_of_hasPart hnone]
      dsimp only [Option.map_none, Option.or_none]
      rw [if_neg (by simp [quoted]), hkey]
      exact hbare a (List.subset_append_left _ _)

theorem hasPart_gap
    {gap : Text}
    (hgap : AllBlank gap)
    (t : Text) :
    hasPart "=>".toList (gap ++ '\x22' :: t) = hasPart "=>".toList t := by
  have hnone : hasPart "=>".toList gap = false :=
    hasPart_eq_false (c := '=') (fun hmem => absurd (hgap _ hmem) (by decide))
  rw [hasPart_append_cons (by decide) (by decide), hnone, Bool.false_or]

theorem hasPart_quoted
    {gap : Text}
    (hgap : AllBlank gap)
    (s : Text) :
    hasPart "=>".toList (gap ++ quoted s) = hasPart "=>".toList s := by
  have hnone : hasPart "=>".toList [] = false := by decide
  rw [quoted, List.cons_append, hasPart_gap hgap, hasPart_append_cons (by decide) (by decide), hnone,
    Bool.or_false]

/-- Behind a string with its colon, no arrow stands. -/
theorem hasPart_colon
    {gap n : Text}
    (hgap : AllBlank gap)
    (hn : IsWordRun n) :
    hasPart "=>".toList (':' :: gap ++ n) = false := by
  have hblank : '=' ∉ gap := fun hmem => absurd (hgap _ hmem) (by decide)
  refine hasPart_eq_false (c := '=') ?_
  simp [hblank, hn.not_mem (by decide : isWord '=' = false)]

/-- The key of an entry whose string fits is its value. -/
theorem QuotedForm.IsEntry.key_eq
    (hitem : form.IsItem item)
    (h : form.IsEntry item e)
    (hfits : form.Fits item.2) :
    form.key e = item.1 := by
  cases form with
  | list =>
      obtain ⟨hsame, htrimmed, -⟩ := hitem
      have hkey := bareKey_quoted htrimmed allBlank_nil
      rw [List.append_nil] at hkey
      rw [show e = quoted item.2 from h, hsame]
      exact hkey
  | arrow =>
      obtain ⟨hsame, htrimmed, -⟩ := hitem
      obtain ⟨gap, right, n, hgap, -, -, rfl⟩ := h
      have hcut : cutAt? "=>".toList (gap ++ ("=>".toList ++ (right ++ n))) = some (gap, right ++ n) :=
        cutAt?_of_not_mem (c := '=') (fun hmem => absurd (hgap _ hmem) (by decide)) _
      have hkey : entryKey (quoted item.2 ++ (gap ++ ("=>".toList ++ (right ++ n)))) = item.2 := by
        rw [entryKey, cutAt?_quoted, cutAt?_of_hasPart hfits, hcut]
        exact bareKey_quoted htrimmed hgap
      simp only [List.append_assoc]
      rw [hsame]
      exact hkey
  | colon =>
      obtain ⟨hsame, htrimmed, -⟩ := hitem
      obtain ⟨gap, n, hgap, hn, rfl⟩ := h
      have hcut : cutAt? "=>".toList (quoted item.2 ++ (':' :: gap ++ n)) = none := by
        rw [cutAt?_quoted, cutAt?_of_hasPart hfits.2, cutAt?_of_hasPart (hasPart_colon hgap hn)]
        rfl
      have hstop : ∀ c ∈ quoted item.2, (c != ':') = true := by
        intro c hc
        simp only [quoted, List.cons_append, List.mem_cons, List.mem_append, List.not_mem_nil,
          or_false] at hc
        rcases hc with rfl | hc | rfl
        · decide
        · simpa using ne_of_mem_of_not_mem hc hfits.1
        · decide
      have htake : (quoted item.2 ++ (':' :: gap ++ n)).takeWhile (· != ':') = quoted item.2 :=
        takeWhile_append_of_stop hstop (by simp)
      have hkey := bareKey_quoted htrimmed allBlank_nil
      rw [List.append_nil] at hkey
      have hread : entryKey (quoted item.2 ++ (':' :: gap ++ n)) = item.2 := by
        rw [entryKey, hcut]
        dsimp only
        rw [if_neg (by simp [quoted]), htake, hkey]
      rw [List.append_assoc, hsame]
      exact hread
  | text =>
      obtain ⟨hword, -⟩ := hitem
      obtain ⟨gap, hgap, rfl⟩ := h
      rw [List.append_assoc, List.cons_append]
      exact entryKey_colon hword ((hasPart_quoted hgap item.2).trans hfits)

/-- The key of an entry whose string does not fit is no value. -/
theorem QuotedForm.IsEntry.isForeign
    (hform : form ≠ list)
    (hitem : form.IsItem item)
    (h : form.IsEntry item e)
    (hfits : ¬ form.Fits item.2) :
    form.IsForeign (form.key e) := by
  have hquote := not_mem_of_isLiteral hitem.isLiteral
  cases form with
  | list =>
      exact absurd rfl hform
  | arrow =>
      obtain ⟨gap, right, n, -, -, -, rfl⟩ := h
      simp only [List.append_assoc]
      exact quote_mem_entryKey_quoted hquote (Or.inl (Bool.eq_true_of_not_eq_false hfits))
  | colon =>
      obtain ⟨gap, n, hgap, hn, rfl⟩ := h
      rw [List.append_assoc]
      refine quote_mem_entryKey_quoted hquote ?_
      by_cases hcolon : ':' ∈ item.2
      · exact Or.inr ⟨hcolon, hasPart_colon hgap hn⟩
      · exact Or.inl (Bool.eq_true_of_not_eq_false fun harrow => hfits ⟨hcolon, harrow⟩)
  | text =>
      obtain ⟨gap, hgap, rfl⟩ := h
      rw [List.append_assoc, List.cons_append]
      refine isForeign_entryKey hitem.1 ?_
      rw [hasPart_quoted hgap]
      exact Bool.eq_true_of_not_eq_false hfits

end Keys

end EnumDecl
end SchemaSpec
