import SchemaSpec.Proofs.Text.Cuts
import SchemaSpec.Proofs.Listing.OneLine
import SchemaSpec.Proofs.Document.Groups

/-!
# The texts of read enums

The values of an enum come from lines of its source, which are put together with spaces between them,
so no value takes a line feed along.

* `stripComment_subset`, `hashKeys_subset`, `listItems_subset`, `inner?_subset`: the readers of value
  lists give parts of what they read.
* `lineFeed_not_mem_gather`: a list over several lines becomes one line.
* `oneLine_ofSource`: the texts of the enums of a model file are one line each.
-/

namespace SchemaSpec

open Text

namespace Text

/-- A line feed is a blank, so it is in no piece between blanks. -/
theorem lineFeed_not_mem_of_mem_fields
    {t piece : Text}
    (h : piece ∈ fields t) :
    '\n' ∉ piece := by
  intro hmem
  exact absurd (mem_splitWhere (List.mem_filter.1 h).1 '\n' hmem) (by decide)

end Text

namespace Options

theorem beforeComment?_subset
    {s : Lexical}
    {line code : Text}
    (h : beforeComment? s line = some code) :
    code ⊆ line := by
  induction line generalizing s code with
  | nil =>
      cases h
  | cons c r ih =>
      unfold beforeComment? at h
      split at h
      · cases h
        exact List.nil_subset _
      · obtain ⟨rest, hrest, rfl⟩ := Option.map_eq_some_iff.1 h
        exact List.cons_subset_cons c (ih hrest)

theorem stripComment_subset
    (line : Text) :
    stripComment line ⊆ line := by
  unfold stripComment
  split
  · rename_i code hcode
    exact List.Subset.trans (trimEnd_subset code) (beforeComment?_subset hcode)
  · exact List.Subset.refl line

end Options

namespace EnumDecl

open Options Document

section Keys

variable {t key : Text}

theorem dropColon_sublist
    (t : Text) :
    List.Sublist (dropColon t) t := by
  unfold dropColon
  split
  · exact List.sublist_cons_self _ _
  · exact List.Sublist.refl _

theorem dropQuotes_sublist
    (t : Text) :
    List.Sublist (dropQuotes t) t := by
  unfold dropQuotes
  split
  · split
    · exact (List.dropLast_sublist _).trans (List.sublist_cons_self _ _)
    · exact List.Sublist.refl _
  · exact List.Sublist.refl _

theorem bareKey_sublist
    (t : Text) :
    List.Sublist (bareKey t) t :=
  (trim_sublist _).trans ((dropQuotes_sublist _).trans ((dropColon_sublist _).trans (trim_sublist t)))

theorem entryKey_sublist
    (t : Text) :
    List.Sublist (entryKey t) t := by
  unfold entryKey
  split
  · rename_i before behind hcut
    refine (bareKey_sublist before).trans ?_
    rw [eq_of_cutAt? hcut, List.append_assoc]
    exact List.sublist_append_left _ _
  · split
    · exact bareKey_sublist t
    · exact (bareKey_sublist _).trans (List.takeWhile_sublist _)

/-- The keys of a hash, one behind the other, are what is left of it. -/
theorem flatten_hashKeys_sublist
    (t : Text) :
    List.Sublist (hashKeys t).flatten t :=
  List.filter_sublist.flatten.trans
    ((flatten_map_sublist entryKey_sublist _).trans (flatten_splitTopLevel_sublist t))

theorem flatten_listItems_sublist
    (t : Text) :
    List.Sublist (listItems t).flatten t :=
  List.filter_sublist.flatten.trans
    ((flatten_map_sublist bareKey_sublist _).trans (flatten_splitTopLevel_sublist t))

theorem hashKeys_subset
    (h : key ∈ hashKeys t) :
    key ⊆ t :=
  ((List.sublist_flatten_of_mem h).trans (flatten_hashKeys_sublist t)).subset

theorem listItems_subset
    (h : key ∈ listItems t) :
    key ⊆ t :=
  ((List.sublist_flatten_of_mem h).trans (flatten_listItems_sublist t)).subset

end Keys

section Lists

variable {opener closer : Char} {first rest : Text} {following : List Text}

/-- What further lines add to a list holds no line feed. -/
theorem lineFeed_not_mem_continuation
    (hfollowing : OneLine following)
    (depth : Int) :
    '\n' ∉ continuation opener closer depth following := by
  induction following generalizing depth with
  | nil =>
      exact List.not_mem_nil
  | cons line following ih =>
      obtain ⟨hline, hrest⟩ := List.forall_mem_cons.1 hfollowing
      have hcode : '\n' ∉ stripComment (trim line) :=
        lineFeed_not_mem_of_subset hline
          (List.Subset.trans (stripComment_subset _) (trim_subset line))
      have hspaced : '\n' ∉ ' ' :: stripComment (trim line) :=
        lineFeed_not_mem_append (t := [' ']) (by decide) hcode
      unfold continuation
      dsimp only
      split
      · exact List.not_mem_nil
      · refine lineFeed_not_mem_append hspaced ?_
        split
        · exact List.not_mem_nil
        · exact ih hrest _

/-- A list over several lines is put together to one. -/
theorem lineFeed_not_mem_gather
    (hfirst : '\n' ∉ first)
    (hfollowing : OneLine following) :
    '\n' ∉ gather opener closer first following :=
  lineFeed_not_mem_append hfirst (lineFeed_not_mem_continuation hfollowing _)

theorem untilClosed_sublist
    (opener closer : Char)
    (depth : Nat)
    (t : Text) :
    List.Sublist (untilClosed opener closer depth t) t := by
  induction t generalizing depth with
  | nil =>
      rw [untilClosed]
  | cons c r ih =>
      unfold untilClosed
      split
      · exact (ih _).cons_cons c
      · split
        · split
          · exact (ih _).cons_cons c
          · exact List.nil_sublist _
        · exact (ih _).cons_cons c

theorem inner?_subset
    (opener closer : Char)
    (t : Text) :
    (inner? opener closer t).getD [] ⊆ t := by
  unfold inner?
  cases hcut : cutAt? [opener] t with
  | none =>
      exact List.nil_subset _
  | some cut =>
      obtain ⟨before, behind⟩ := cut
      refine List.Subset.trans (untilClosed_sublist opener closer 1 behind).subset ?_
      rw [eq_of_cutAt? hcut]
      exact List.subset_append_right _ _

/-- No value of a list holds a line feed, whatever its form is. -/
theorem lineFeed_not_mem_of_mem_extract
    (hrest : '\n' ∉ rest)
    (hfollowing : OneLine following)
    {value : Text}
    (h : value ∈ extract rest following) :
    '\n' ∉ value := by
  unfold extract at h
  split at h
  · exact lineFeed_not_mem_of_subset (lineFeed_not_mem_gather hrest hfollowing)
      (List.Subset.trans (hashKeys_subset h) (inner?_subset _ _ _))
  · split at h
    · exact lineFeed_not_mem_of_subset (lineFeed_not_mem_gather hrest hfollowing)
        (List.Subset.trans (listItems_subset h) (inner?_subset _ _ _))
    · split at h
      · rename_i list hlist
        cases list with
        | nil =>
            cases h
        | cons opener r =>
            exact lineFeed_not_mem_of_mem_fields h
      · exact lineFeed_not_mem_of_subset hrest (hashKeys_subset (List.mem_filter.1 h).1)

end Lists

section Declarations

variable {modelName line source : Text} {following : List Text}

/-- The field name and what follows it are parts of a line that declares an enum. -/
theorem subset_of_markedField?
    {t name rest : Text}
    (h : markedField? t = some (name, rest)) :
    name ⊆ t ∧ rest ⊆ t := by
  have hstart : ∀ u : Text, trimStart u ⊆ u := fun u => (List.dropWhile_sublist _).subset
  unfold markedField? at h
  split at h
  · rename_i w behind hword
    obtain ⟨hw, hbehind⟩ := subset_of_symbolWord? hword
    split at h
    · rename_i r htrim
      cases h
      refine ⟨hw, List.Subset.trans (hstart r) (List.Subset.trans ?_
        (List.Subset.trans (hstart behind) hbehind))⟩
      rw [htrim]
      exact List.subset_cons_self _ _
    · cases h
  · split at h
    · rename_i w r hword
      cases h
      obtain ⟨hw, hbehind⟩ := subset_of_word? hword
      exact ⟨hw, List.Subset.trans (hstart r) (List.Subset.trans (List.subset_cons_self _ _) hbehind)⟩
    · cases h

theorem subset_of_marker?
    {name rest : Text}
    (h : marker? line = some (name, rest)) :
    name ⊆ line ∧ rest ⊆ line := by
  unfold marker? at h
  split at h
  · rename_i behind hafter
    split at h
    · obtain ⟨hname, hrest⟩ := subset_of_markedField? h
      have hskip := List.Subset.trans (Header.subset_of_skipParenthesis behind)
        (subset_of_after? hafter)
      exact ⟨List.Subset.trans hname hskip, List.Subset.trans hrest hskip⟩
    · cases h
  · cases h

/-- The texts of an enum that is declared on lines without line feeds have none either, and it has
values. -/
theorem oneLine_ofLine?
    (hmodel : '\n' ∉ modelName)
    (hline : '\n' ∉ line)
    (hfollowing : OneLine following)
    {e : EnumDecl}
    (h : ofLine? modelName line following = some e) :
    OneLine (enumTexts e) ∧ e.values ≠ [] := by
  have htrim := lineFeed_not_mem_of_subset hline (trim_subset line)
  unfold ofLine? at h
  split at h
  · rename_i name rest hmarker
    obtain ⟨hname, hrest⟩ := subset_of_marker? hmarker
    have hlist := lineFeed_not_mem_of_subset htrim
      (List.Subset.trans (stripComment_subset rest) hrest)
    split at h
    · cases h
    · rename_i v vs hvalues
      cases h
      refine ⟨fun t ht => ?_, List.cons_ne_nil v vs⟩
      simp only [enumTexts, List.mem_cons] at ht
      rcases ht with rfl | rfl | ht
      · exact hmodel
      · exact lineFeed_not_mem_of_subset htrim hname
      · have hmem : t ∈ readValues (stripComment rest) following := by
          rw [hvalues]
          exact List.mem_cons.2 ht
        exact lineFeed_not_mem_of_mem_extract hlist hfollowing (mem_distinct.1 hmem)
  · cases h

/-- An enum of a model file is declared on one of its lines. -/
theorem exists_of_mem_ofLines
    {ls : List Text}
    {e : EnumDecl}
    (h : e ∈ ofLines modelName ls) :
    ∃ line ∈ ls, ∃ following, following ⊆ ls ∧ ofLine? modelName line following = some e := by
  induction ls with
  | nil =>
      cases h
  | cons l ls ih =>
      rcases List.mem_append.1 h with h | h
      · exact ⟨l, List.mem_cons_self, ls, List.subset_cons_self l ls, Option.mem_toList.1 h⟩
      · obtain ⟨line, hline, following, hfollowing, he⟩ := ih h
        exact ⟨line, List.mem_cons_of_mem l hline, following,
          List.Subset.trans hfollowing (List.subset_cons_self l ls), he⟩

theorem modelName_of_mem_ofSource
    {e : EnumDecl}
    (h : e ∈ ofSource modelName source) :
    e.modelName = modelName := by
  obtain ⟨line, -, following, -, he⟩ := exists_of_mem_ofLines h
  unfold ofLine? at he
  split at he
  · split at he
    · cases he
    · cases he
      rfl
  · cases he

/-- The texts of the enums of a model file are one line each, and each enum has values. -/
theorem oneLine_ofSource
    (hmodel : '\n' ∉ modelName)
    {e : EnumDecl}
    (h : e ∈ ofSource modelName source) :
    OneLine (enumTexts e) ∧ e.values ≠ [] := by
  have hlines : ∀ l ∈ lines source, '\n' ∉ l := fun l hl => lineFeed_not_mem_of_mem_lines hl
  obtain ⟨line, hline, following, hfollowing, he⟩ := exists_of_mem_ofLines h
  exact oneLine_ofLine? hmodel (hlines line hline) (fun l hl => hlines l (hfollowing hl)) he

end Declarations

end EnumDecl
end SchemaSpec
