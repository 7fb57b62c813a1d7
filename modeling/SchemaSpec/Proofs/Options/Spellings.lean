import SchemaSpec.Proofs.Options.Tails

/-!
# Arrangements of options

One list of options can be written in many ways: in any order, each with one of four spellings, and
with other pieces among them.

* `Spelling`: the ways to write one option; `pair?_code` says that they read alike.
* `Arrangeable`: options that can stand between commas.
* `Interleaved`: pieces that are options or say nothing; `Interleaved.filterMap_pair?` reads them.
* `pairs_interleaved`: behind a name, they are read as the options, in their order.
-/

namespace SchemaSpec
namespace Options

open Text

/-- A way to write a key. -/
inductive Spelling
  | label
  | quotedLabel
  | arrow
  | quotedArrow
  deriving DecidableEq

/-- A key up to its value. -/
def Spelling.code (key : Text) : Spelling → Text
  | .label => key ++ [':']
  | .quotedLabel => ('\x22' :: key ++ ['\x22']) ++ [':']
  | .arrow => [':'] ++ key ++ " =>".toList
  | .quotedArrow => ('\x22' :: key ++ ['\x22']) ++ " =>".toList

/-- An option as it is written. -/
def Spelling.write (s : Spelling) (o : Text × Text) : Text :=
  s.code o.1 ++ (' ' :: o.2)

/-- Options with keys that are words, each of which comes once, and with raw values that are
trimmed, closed, and on one line. -/
structure Arrangeable (options : OptionList) : Prop where
  nodup : (options.map Prod.fst).Nodup
  isWordRun : ∀ o ∈ options, IsWordRun o.1
  trimmed : ∀ o ∈ options, trim o.2 = o.2
  closed : ∀ o ∈ options, Closed isComma o.2
  lineFeed_not_mem : ∀ o ∈ options, '\n' ∉ o.2

/-- Pieces that are options, each spelled in some way, and among them closed texts on one line that
are no options. -/
inductive Interleaved : OptionList → List Text → Prop
  | nil : Interleaved [] []
  | option {o : Text × Text} {options : OptionList} {ps : List Text}
      (s : Spelling) :
      Interleaved options ps → Interleaved (o :: options) (s.write o :: ps)
  | aside {options : OptionList} {p : Text} {ps : List Text} :
      Closed isComma p → '\n' ∉ p → pair? (trim p) = none →
      Interleaved options ps → Interleaved options (p :: ps)

section Keys

variable {key rest : Text}

/-- A word in quotes is found in front of what is no word. -/
theorem quotedWord?_append
    (hkey : IsWordRun key)
    (rest : Text) :
    quotedWord? ('\x22' :: key ++ ['\x22'] ++ rest) = some (key, rest) := by
  have htext : '\x22' :: key ++ ['\x22'] ++ rest = '\x22' :: (key ++ '\x22' :: rest) := by
    simp
  have hword : word? (key ++ '\x22' :: rest) = some (key, '\x22' :: rest) :=
    word?_append hkey (by decide : (!isWord '\x22') = true)
  rw [htext, quotedWord?]
  simp only [hword]

/-- A word starts with no quote. -/
theorem quotedWord?_of_word
    (hkey : IsWordRun key)
    (rest : Text) :
    quotedWord? (key ++ rest) = none := by
  obtain ⟨c, r, rfl⟩ := List.exists_cons_of_ne_nil hkey.1
  have hc : c ≠ '\x22' := ne_of_isWord (hkey.2 c List.mem_cons_self) (by decide)
  unfold quotedWord?
  split
  · rename_i heq
    exact absurd (List.cons_eq_cons.1 heq).1 hc
  · rfl

/-- Each spelling of a key is read as the key, and what stands behind it as the value. -/
theorem pair?_code
    (s : Spelling)
    (hkey : IsWordRun key)
    (rest : Text) :
    pair? (s.code key ++ rest) = some (key, trim rest) := by
  have hcolon : (!isWord ':') = true := by decide
  have hspace : (!isWord ' ') = true := by decide
  have harrow : ∀ t : Text, trimStart (" =>".toList ++ t) = '=' :: '>' :: t := by
    intro t
    have hblank : isBlank ' ' = true ∧ isBlank '=' = false := by decide
    simp [trimStart, hblank]
  cases s with
  | label =>
      have hword : word? (key ++ ':' :: rest) = some (key, ':' :: rest) := word?_append hkey hcolon
      have hread : colonPair? (key ++ ':' :: rest) = some (key, trim rest) := by
        simp [colonPair?, quotedWord?_of_word hkey, hword]
      rw [Spelling.code, List.append_assoc, List.singleton_append, pair?, hread]
      rfl
  | quotedLabel =>
      have hread : colonPair? ('\x22' :: key ++ ['\x22'] ++ ':' :: rest)
          = some (key, trim rest) := by
        simp only [colonPair?, quotedWord?_append hkey, Option.some_or]
      rw [Spelling.code, List.append_assoc, List.singleton_append, pair?, hread]
      rfl
  | arrow =>
      have hno : colonPair? (':' :: (key ++ (" =>".toList ++ rest))) = none := by
        have hfirst : isWord ':' = false := by decide
        simp [colonPair?, quotedWord?, word?, hfirst]
      have hword : word? (key ++ (" =>".toList ++ rest)) = some (key, " =>".toList ++ rest) :=
        word?_append hkey hspace
      have hread : arrowPair? (':' :: (key ++ (" =>".toList ++ rest))) = some (key, trim rest) := by
        simp only [arrowPair?, symbolWord?, hword, Option.some_or, harrow]
      rw [Spelling.code, List.append_assoc, List.append_assoc, List.singleton_append, pair?, hno,
        hread]
      rfl
  | quotedArrow =>
      have hno : colonPair? ('\x22' :: key ++ ['\x22'] ++ (" =>".toList ++ rest)) = none := by
        simp only [colonPair?, quotedWord?_append hkey, Option.some_or]
        rfl
      have hread : arrowPair? ('\x22' :: key ++ ['\x22'] ++ (" =>".toList ++ rest))
          = some (key, trim rest) := by
        have hsymbol : symbolWord? ('\x22' :: key ++ ['\x22'] ++ (" =>".toList ++ rest)) = none :=
          rfl
        simp only [arrowPair?, hsymbol, quotedWord?_append hkey, Option.none_or, harrow]
      rw [Spelling.code, List.append_assoc, pair?, hno, hread]
      rfl

/-- A spelled key has no blanks at its ends. -/
theorem trim_code
    (s : Spelling)
    (hkey : IsWordRun key) :
    trim (s.code key) = s.code key := by
  have hquote : trim ['\x22'] = ['\x22'] := by decide
  have hcolon : trim [':'] = [':'] := by decide
  have harrow : trim "=>".toList = "=>".toList := by decide
  have hsplit : " =>".toList = [' '] ++ "=>".toList := by decide
  have hquoted : trim ('\x22' :: key ++ ['\x22']) = '\x22' :: key ++ ['\x22'] :=
    trim_append_eq_self hquote hquote (by simp) (by simp) key
  cases s with
  | label =>
      exact trim_append_of_trimmed hkey.trim_eq hcolon
  | quotedLabel =>
      exact trim_append_of_trimmed hquoted hcolon
  | arrow =>
      have hsign := trim_append_of_trimmed hcolon hkey.trim_eq
      rw [Spelling.code, hsplit, ← List.append_assoc]
      exact trim_append_eq_self hsign harrow (by simp) (by simp) [' ']
  | quotedArrow =>
      rw [Spelling.code, hsplit, ← List.append_assoc]
      exact trim_append_eq_self hquoted harrow (by simp) (by simp) [' ']

theorem code_ne_nil
    (s : Spelling) :
    s.code key ≠ [] := by
  cases s <;> simp [Spelling.code]

theorem closed_code
    (s : Spelling)
    (hkey : IsWordRun key) :
    Closed isComma (s.code key) := by
  have hcolon : Closed isComma [':'] := by
    constructor <;> decide
  have harrow : Closed isComma " =>".toList := by
    constructor <;> decide
  cases s with
  | label =>
      exact (closed_word hkey).append hcolon
  | quotedLabel =>
      exact (closed_quotedWord hkey).append hcolon
  | arrow =>
      exact (hcolon.append (closed_word hkey)).append harrow
  | quotedArrow =>
      exact (closed_quotedWord hkey).append harrow

theorem lineFeed_not_mem_code
    (s : Spelling)
    (hkey : IsWordRun key) :
    '\n' ∉ s.code key := by
  have hword : '\n' ∉ key := hkey.not_mem (by decide)
  have harrow : '\n' ∉ " =>".toList := by decide
  cases s <;> simp [Spelling.code, hword]

end Keys

section Arranged

variable {options : OptionList} {ps : List Text}

theorem Arrangeable.of_perm
    {options' : OptionList}
    (hperm : options'.Perm options)
    (h : Arrangeable options) :
    Arrangeable options' where
  nodup := (hperm.map Prod.fst).nodup_iff.2 h.nodup
  isWordRun := fun o ho => h.isWordRun o (hperm.mem_iff.1 ho)
  trimmed := fun o ho => h.trimmed o (hperm.mem_iff.1 ho)
  closed := fun o ho => h.closed o (hperm.mem_iff.1 ho)
  lineFeed_not_mem := fun o ho => h.lineFeed_not_mem o (hperm.mem_iff.1 ho)

theorem Arrangeable.of_cons
    {o : Text × Text}
    (h : Arrangeable (o :: options)) :
    Arrangeable options where
  nodup := (List.nodup_cons.1 h.nodup).2
  isWordRun := fun p hp => h.isWordRun p (List.mem_cons_of_mem o hp)
  trimmed := fun p hp => h.trimmed p (List.mem_cons_of_mem o hp)
  closed := fun p hp => h.closed p (List.mem_cons_of_mem o hp)
  lineFeed_not_mem := fun p hp => h.lineFeed_not_mem p (List.mem_cons_of_mem o hp)

/-- A written option is read as the option, also if its value is empty. -/
theorem pair?_write
    {key value : Text}
    (s : Spelling)
    (hkey : IsWordRun key)
    (hvalue : trim value = value) :
    pair? (trim (s.write (key, value))) = some (key, value) := by
  have hspace : trim (' ' :: value) = value := by
    have h := trim_surround allBlank_space allBlank_nil value
    rw [List.append_nil, hvalue] at h
    exact h
  rw [Spelling.write, trim_append_of_trimmed_left (trim_code s hkey) (code_ne_nil s),
    pair?_code s hkey, trim_trimEnd, hspace]

/-- The pieces are closed and on one line, and they read as the options. -/
theorem Interleaved.filterMap_pair?
    (h : Interleaved options ps)
    (hoptions : Arrangeable options) :
    (∀ p ∈ ps, Closed isComma p ∧ '\n' ∉ p) ∧ ps.filterMap (fun p => pair? (trim p)) = options := by
  induction h with
  | nil =>
      exact ⟨fun p hp => absurd hp List.not_mem_nil, rfl⟩
  | @option o options ps s h ih =>
      obtain ⟨hps, hread⟩ := ih hoptions.of_cons
      have hkey := hoptions.isWordRun o List.mem_cons_self
      have hvalue := hoptions.lineFeed_not_mem o List.mem_cons_self
      have hclosed : Closed isComma (s.write o) :=
        (closed_code s hkey).append ((closed_of_allBlank allBlank_space).append
          (hoptions.closed o List.mem_cons_self))
      have hline : '\n' ∉ s.write o := by
        simp [Spelling.write, lineFeed_not_mem_code s hkey, hvalue]
      have hwrite : pair? (trim (s.write o)) = some o :=
        pair?_write s hkey (hoptions.trimmed o List.mem_cons_self)
      refine ⟨List.forall_mem_cons.2 ⟨⟨hclosed, hline⟩, hps⟩, ?_⟩
      simp only [List.filterMap_cons, hwrite, hread]
  | aside hclosed hline hpair h ih =>
      obtain ⟨hps, hread⟩ := ih hoptions
      refine ⟨List.forall_mem_cons.2 ⟨⟨hclosed, hline⟩, hps⟩, ?_⟩
      simp only [List.filterMap_cons, hpair, hread]

/-- Behind a name, the pieces are on one line and their pairs are the options, in their order. -/
theorem pairs_interleaved
    (h : Interleaved options ps)
    (hoptions : Arrangeable options) :
    '\n' ∉ ps.flatMap (fun p => comma ++ p)
      ∧ pairs (trimEnd (ps.flatMap (fun p => comma ++ p))) = options := by
  obtain ⟨hps, hread⟩ := h.filterMap_pair? hoptions
  constructor
  · intro hmem
    obtain ⟨p, hp, hc⟩ := List.mem_flatMap.1 hmem
    rcases List.mem_append.1 hc with hc | hc
    · exact absurd hc (by decide)
    · exact (hps p hp).2 hc
  · obtain ⟨right, htail, hright⟩ :=
      exists_dropEnd_append isBlank (ps.flatMap (fun p => comma ++ p))
    have hpairs := pairs_flatMap (fun p hp => (hps p hp).1)
    have hsame := pairs_surround allBlank_nil hright (trimEnd (ps.flatMap (fun p => comma ++ p)))
    rw [htail] at hpairs
    exact hsame.symm.trans (hpairs.trans hread)

theorem parse_of_pairs_eq
    (hoptions : Arrangeable options)
    {tail : Text}
    (h : pairs tail = options) :
    parse tail = options := by
  rw [parse_eq_ofPairs, h]
  exact ofPairs_of_nodup hoptions.nodup

end Arranged

end Options
end SchemaSpec
