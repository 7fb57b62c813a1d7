import SchemaSpec.Proofs.Document.Bodies
import Mathlib.Data.List.Forall2

/-!
# The pieces of a document

A text declares what its pieces declare.  Between two pieces stands a character that breaks
declarations off, or a brace that ends them.

* `SplitsInto`: a text and its pieces; `SplitsInto.append`, `splitsInto_join`: how pieces add up.
* `declares_append_openComment`, `declares_append_escaped`: comment signs and backquotes do not
  matter.
* `openingPieces`, `enumPieces`, `modelPieces`, `blockPieces`: the pieces of a document.
-/

namespace SchemaSpec
namespace Document

open Text

/-- Whatever stands behind a text, the whole declares what that and the pieces of the text
declare. -/
def SplitsInto (t : Text) (pieces : List Text) : Prop :=
  ∀ n u, DeclaresModel n (t ++ u) ↔ (∃ p ∈ pieces, DeclaresModel n p) ∨ DeclaresModel n u

/-- Whether a text ends in a character that no declaration goes on behind. -/
def endsSharp (t : Text) : Bool :=
  t.getLast?.any (fun c => isStop c || c == '\x7b')

section Splitting

variable {n t u : Text} {ps qs : List Text}

theorem not_declares_nil :
    ¬ DeclaresModel n [] :=
  not_declares_of_brace_not_mem List.not_mem_nil

theorem SplitsInto.declares_iff
    (h : SplitsInto t ps) :
    DeclaresModel n t ↔ ∃ p ∈ ps, DeclaresModel n p := by
  have hself := h n []
  rwa [List.append_nil, or_iff_left not_declares_nil] at hself

theorem endsSharp_append
    (t : Text)
    (h : endsSharp u = true) :
    endsSharp (t ++ u) = true := by
  have hne : u ≠ [] := by
    rintro rfl
    exact absurd h (by decide)
  unfold endsSharp
  rw [List.getLast?_append_of_ne_nil _ hne]
  exact h

/-- No declaration reaches beyond a sharp end. -/
theorem declares_append_of_endsSharp
    (h : endsSharp t = true) :
    DeclaresModel n (t ++ u) ↔ DeclaresModel n t ∨ DeclaresModel n u := by
  rcases List.eq_nil_or_concat t with rfl | ⟨v, c, rfl⟩
  · exact absurd h (by decide)
  · rw [List.concat_eq_append] at h ⊢
    have hend : isStop c = true ∨ c = '\x7b' := by
      simpa [endsSharp] using h
    rw [List.append_assoc, List.singleton_append]
    rcases hend with hc | rfl
    · rw [declares_append_cons hc, declares_append_cons hc, or_iff_left not_declares_nil]
    · exact declares_append_brace

/-- A text with a sharp end is its only piece. -/
theorem splitsInto_self
    (h : endsSharp t = true) :
    SplitsInto t [t] := by
  intro n u
  rw [declares_append_of_endsSharp h]
  simp

/-- Blanks have no pieces. -/
theorem splitsInto_blank
    (h : AllBlank t) :
    SplitsInto t [] := by
  intro n u
  rw [declares_of_blank_append h]
  simp

/-- What stands behind a piece does not matter if it has no brace and a sharp end. -/
theorem splitsInto_append_plain
    (t : Text)
    (hbrace : '\x7b' ∉ u)
    (hend : endsSharp u = true) :
    SplitsInto (t ++ u) [t] := by
  intro n v
  rw [declares_append_of_endsSharp (endsSharp_append t hend),
    declares_append_of_brace_not_mem hbrace]
  simp

/-- A text without a brace and with a sharp end has no pieces. -/
theorem splitsInto_plain
    (hbrace : '\x7b' ∉ t)
    (hend : endsSharp t = true) :
    SplitsInto t [] := by
  intro n u
  rw [declares_append_of_endsSharp hend, or_iff_right (not_declares_of_brace_not_mem hbrace)]
  simp

/-- A text in which no model is found and with a sharp end has no pieces. -/
theorem splitsInto_of_modelNames_eq_nil
    (hnames : modelNames t = [])
    (hend : endsSharp t = true) :
    SplitsInto t [] := by
  intro n u
  have hnone : ¬ DeclaresModel n t := by
    rw [← mem_modelNames_iff, hnames]
    exact List.not_mem_nil
  rw [declares_append_of_endsSharp hend, or_iff_right hnone]
  simp

theorem SplitsInto.append
    (ht : SplitsInto t ps)
    (hu : SplitsInto u qs) :
    SplitsInto (t ++ u) (ps ++ qs) := by
  intro n v
  rw [List.append_assoc, ht, hu]
  simp only [List.mem_append, or_and_right, exists_or, or_assoc]

/-- Pieces may be replaced by others that declare the same. -/
theorem SplitsInto.congr
    (h : SplitsInto t [u])
    {v : Text}
    (heq : ∀ n, DeclaresModel n u ↔ DeclaresModel n v) :
    SplitsInto t [v] := by
  intro n w
  rw [h]
  simp [heq]

/-- Joined texts have the pieces of each of them. -/
theorem splitsInto_join
    {sep : Text}
    (hsep : AllBlank sep)
    {ts : List Text}
    {pss : List (List Text)}
    (h : List.Forall₂ SplitsInto ts pss) :
    SplitsInto (join sep ts) pss.flatten := by
  induction h with
  | nil =>
      exact splitsInto_blank allBlank_nil
  | @cons t ps ts pss ht hts ih =>
      cases ts with
      | nil =>
          cases hts
          rw [join_singleton, List.flatten_cons, List.flatten_nil, List.append_nil]
          exact ht
      | cons v vs =>
          have hgap := (splitsInto_blank hsep).append ih
          rw [join_cons (List.cons_ne_nil v vs), List.flatten_cons, List.append_assoc]
          exact ht.append hgap

theorem splitsInto_join_map
    {α : Type}
    {sep : Text}
    (hsep : AllBlank sep)
    {xs : List α}
    {text : α → Text}
    {pieces : α → List Text}
    (h : ∀ x ∈ xs, SplitsInto (text x) (pieces x)) :
    SplitsInto (join sep (xs.map text)) (xs.flatMap pieces) := by
  rw [List.flatMap_def]
  refine splitsInto_join hsep ?_
  rw [List.forall₂_map_left_iff, List.forall₂_map_right_iff, List.forall₂_same]
  exact h

end Splitting

section Escapes

variable {n a t : Text}

theorem declares_cons_of_isStop
    {c : Char}
    (hc : isStop c = true) :
    DeclaresModel n (c :: t) ↔ DeclaresModel n t := by
  have h : DeclaresModel n ([] ++ c :: t) ↔ DeclaresModel n [] ∨ DeclaresModel n t :=
    declares_append_cons hc
  rwa [List.nil_append, or_iff_right not_declares_nil] at h

/-- A space in a closing comment sign does not matter. -/
theorem declares_append_openComment :
    DeclaresModel n (a ++ openComment t) ↔ DeclaresModel n (a ++ t) := by
  have hstar : isStop '*' = true := by decide
  have hslash : isStop '/' = true := by decide
  induction t using openComment.induct generalizing a with
  | case1 =>
      rfl
  | case2 r ih =>
      have hrest := ih (a := [])
      have hspace : DeclaresModel n (' ' :: '/' :: openComment r)
          ↔ DeclaresModel n ('/' :: openComment r) :=
        declares_of_blank_append allBlank_space
      rw [openComment, declares_append_cons hstar, declares_append_cons hstar, hspace,
        declares_cons_of_isStop hslash, declares_cons_of_isStop hslash]
      exact or_congr Iff.rfl hrest
  | case3 c r hc ih =>
      have hrest := ih (a := a ++ [c])
      rw [openComment]
      · simpa using hrest
      · exact hc

/-- Escaped backquotes do not matter. -/
theorem declares_append_escaped :
    DeclaresModel n (a ++ t.flatMap (fun c => if c = '\x60' then ['\\', '\x60'] else [c]))
      ↔ DeclaresModel n (a ++ t) := by
  have hquote : isStop '\x60' = true := by decide
  have hslash : isStop '\\' = true := by decide
  induction t generalizing a with
  | nil =>
      rfl
  | cons c t ih =>
      rw [List.flatMap_cons]
      by_cases h : c = '\x60'
      · have hrest := ih (a := [])
        rw [if_pos h, List.cons_append, List.cons_append, List.nil_append,
          declares_append_cons hslash, declares_cons_of_isStop hquote, h,
          declares_append_cons hquote]
        exact or_congr Iff.rfl hrest
      · have hrest := ih (a := a ++ [c])
        rw [if_neg h]
        simpa using hrest

/-- A comment declares what its text declares. -/
theorem splitsInto_comment
    {indent : Text}
    (hindent : AllBlank indent)
    (t : Text) :
    SplitsInto (indent ++ "/** ".toList ++ openComment t ++ " */".toList) [t] := by
  have hopen : "/** ".toList = "/**".toList ++ [' '] := by decide
  have hmark : SplitsInto "/**".toList [] := splitsInto_plain (by decide) (by decide)
  have htext : SplitsInto (openComment t ++ " */".toList) [t] :=
    (splitsInto_append_plain (openComment t) (by decide) (by decide)).congr
      (fun n => declares_append_openComment (a := []))
  have hall := (splitsInto_blank hindent).append
    (hmark.append ((splitsInto_blank allBlank_space).append htext))
  rw [hopen]
  simpa only [List.append_assoc, List.nil_append] using hall

/-- An enum member declares what its value declares. -/
theorem splitsInto_enumMember
    (v : Text) :
    SplitsInto (enumMemberLine v) [v] := by
  have hindent : AllBlank "      ".toList := by
    decide
  have hmember : SplitsInto (enumMember v ++ [',']) [v] := by
    refine (splitsInto_append_plain (enumMember v) (by decide) (by decide)).congr (fun n => ?_)
    unfold enumMember
    split
    · rfl
    · have hquote : isStop '\x60' = true := by decide
      rw [List.cons_append, declares_cons_of_isStop hquote,
        declares_append_of_brace_not_mem (by decide)]
      exact declares_append_escaped (a := [])
  have hall := (splitsInto_blank hindent).append hmember
  unfold enumMemberLine
  simpa only [List.append_assoc, List.nil_append] using hall

end Escapes

section Parts

variable {enums : List EnumDecl} {optionalMarker : Bool}

theorem allBlank_gap :
    AllBlank ['\n', '\n'] :=
  allBlank_lineFeed.append allBlank_lineFeed

/-- A line feed between two texts has no piece. -/
theorem SplitsInto.append_cons
    {t u : Text}
    {ps qs : List Text}
    (ht : SplitsInto t ps)
    (hu : SplitsInto u qs) :
    SplitsInto (t ++ '\n' :: u) (ps ++ qs) :=
  ht.append ((splitsInto_blank allBlank_lineFeed).append hu)

/-- The pieces of a document before its blocks. -/
def openingPieces (s : Settings) : List Text :=
  [s.serviceTitle.toText, s.serverUrl.toText, s.serverDescription.toText, s.routePrefix.toText,
    "namespace ".toList ++ s.namespaceName.toText ++ " \x7b".toList]

/-- The pieces of an enum. -/
def enumPieces (e : EnumDecl) : List Text :=
  enumLine e :: e.values

/-- The pieces of a model.  The columns make one piece: a declaration may begin behind one column
and end in the name of the next. -/
def modelPieces (enums : List EnumDecl) (optionalMarker : Bool) (m : TableModel) : List Text :=
  m.comment.toList
    ++ [headerLine m.name, join ['\n'] (m.fields.map (fieldLines m.name enums optionalMarker))]

/-- The pieces of some blocks. -/
def blockPieces (shown enums : List EnumDecl) (optionalMarker : Bool) (models : List TableModel) :
    List Text :=
  (group shown).flatMap (fun g => namespaceLine g.1 :: g.2.flatMap enumPieces)
    ++ models.flatMap (modelPieces enums optionalMarker)

/-- A line that opens a block is its only piece. -/
theorem splitsInto_brace
    (t : Text) :
    SplitsInto (t ++ " \x7b".toList) [t ++ " \x7b".toList] :=
  splitsInto_self (endsSharp_append t (by decide))

theorem splitsInto_closingLine :
    SplitsInto closingLine [] :=
  splitsInto_plain (by decide) (by decide)

theorem splitsInto_openingRows
    (s : Settings) :
    List.Forall₂ SplitsInto (openingRows s)
      [[], [], [], [], [s.serviceTitle.toText], [s.serverUrl.toText, s.serverDescription.toText],
        [s.routePrefix.toText],
        ["namespace ".toList ++ s.namespaceName.toText ++ " \x7b".toList]] := by
  unfold openingRows
  refine .cons ?_ (.cons ?_ (.cons ?_ (.cons ?_ (.cons ?_ (.cons ?_ (.cons ?_ (.cons ?_ .nil)))))))
  · exact splitsInto_plain (by decide) (by decide)
  · exact splitsInto_plain (by decide) (by decide)
  · exact splitsInto_plain (by decide) (by decide)
  · exact splitsInto_blank allBlank_nil
  · have hmark : SplitsInto "@service(#\x7b title: \"".toList [] :=
      splitsInto_of_modelNames_eq_nil (by decide +kernel) (by decide)
    have htitle := splitsInto_append_plain (u := "\" \x7d)".toList) s.serviceTitle.toText
      (by decide) (by decide)
    have hall := hmark.append htitle
    simpa only [List.append_assoc, List.nil_append] using hall
  · have hmark : SplitsInto "@server(\"".toList [] := splitsInto_plain (by decide) (by decide)
    have hurl := splitsInto_append_plain (u := "\", \"".toList) s.serverUrl.toText (by decide)
      (by decide)
    have hdescription := splitsInto_append_plain (u := "\")".toList) s.serverDescription.toText
      (by decide) (by decide)
    have hall := hmark.append (hurl.append hdescription)
    simpa only [List.append_assoc, List.nil_append, List.singleton_append] using hall
  · have hmark : SplitsInto "@route(\"".toList [] := splitsInto_plain (by decide) (by decide)
    have hroute := splitsInto_append_plain (u := "\")".toList) s.routePrefix.toText
      (by decide) (by decide)
    have hall := hmark.append hroute
    simpa only [List.append_assoc, List.nil_append] using hall
  · exact splitsInto_brace _

theorem splitsInto_opening
    (s : Settings) :
    SplitsInto (opening s) (openingPieces s) := by
  have hall := splitsInto_join allBlank_lineFeed (splitsInto_openingRows s)
  rw [opening_eq]
  exact hall

theorem splitsInto_enumBlock
    (e : EnumDecl) :
    SplitsInto (enumBlock e) (enumPieces e) := by
  have hopen : SplitsInto (enumLine e) [enumLine e] := splitsInto_brace _
  have hvalues : SplitsInto (join ['\n'] (e.values.map enumMemberLine)) e.values := by
    have h := splitsInto_join_map allBlank_lineFeed
      (fun v (_ : v ∈ e.values) => splitsInto_enumMember v)
    simpa using h
  have hend : SplitsInto "    \x7d".toList [] := splitsInto_plain (by decide) (by decide)
  have hall := hopen.append_cons (hvalues.append_cons hend)
  rw [List.append_nil] at hall
  rw [enumBlock_eq]
  exact hall

theorem splitsInto_enumNamespace
    (modelName : Text)
    (enums : List EnumDecl) :
    SplitsInto (enumNamespace modelName enums)
      (namespaceLine modelName :: enums.flatMap enumPieces) := by
  have hopen : SplitsInto (namespaceLine modelName) [namespaceLine modelName] := splitsInto_brace _
  have hblocks := splitsInto_join_map allBlank_gap (fun e (_ : e ∈ enums) => splitsInto_enumBlock e)
  have hall := hopen.append_cons (hblocks.append_cons splitsInto_closingLine)
  rw [List.append_nil] at hall
  rw [enumNamespace_eq]
  exact hall

theorem splitsInto_commentRows
    (text : Option Text) :
    SplitsInto ((commentRows "  ".toList text).flatMap (fun row => row ++ ['\n'])) text.toList := by
  have hindent : AllBlank "  ".toList := by
    decide
  cases text with
  | none =>
      exact splitsInto_blank allBlank_nil
  | some t =>
      by_cases ht : t = []
      · subst ht
        intro n u
        have hnone : ¬ ∃ p ∈ [([] : Text)], DeclaresModel n p := by
          rintro ⟨p, hp, hdeclares⟩
          rw [List.mem_singleton.1 hp] at hdeclares
          exact not_declares_nil hdeclares
        exact (or_iff_right hnone).symm
      · have hsome : nonEmpty? (some t) = some t := by
          simp [nonEmpty?, ht]
        have hrow := (splitsInto_comment hindent t).append (splitsInto_blank allBlank_lineFeed)
        unfold commentRows
        rw [hsome, Option.toList_some, List.map_singleton, List.flatMap_singleton]
        exact hrow

theorem splitsInto_modelBlock
    (m : TableModel) :
    SplitsInto (modelBlock enums optionalMarker m) (modelPieces enums optionalMarker m) := by
  have hopen : SplitsInto (headerLine m.name) [headerLine m.name] := splitsInto_brace _
  have hcolumns : SplitsInto
      (join ['\n'] (m.fields.map (fieldLines m.name enums optionalMarker)) ++ '\n' :: closingLine)
      [join ['\n'] (m.fields.map (fieldLines m.name enums optionalMarker))] :=
    splitsInto_append_plain _ (by decide) (by decide)
  have hall := (splitsInto_commentRows m.comment).append (hopen.append_cons hcolumns)
  rw [modelBlock_eq]
  exact hall

/-- Blocks split into the pieces of each. -/
theorem splitsInto_blocksOf
    (shown enums : List EnumDecl)
    (optionalMarker : Bool)
    (models : List TableModel) :
    SplitsInto (join ['\n', '\n'] (blocksOf shown enums optionalMarker models))
      (blockPieces shown enums optionalMarker models) := by
  have hnamespaces : List.Forall₂ SplitsInto (namespaces shown)
      ((group shown).map (fun g => namespaceLine g.1 :: g.2.flatMap enumPieces)) := by
    unfold namespaces
    rw [List.forall₂_map_left_iff, List.forall₂_map_right_iff, List.forall₂_same]
    exact fun g _ => splitsInto_enumNamespace g.1 g.2
  have hmodels : List.Forall₂ SplitsInto (models.map (modelBlock enums optionalMarker))
      (models.map (modelPieces enums optionalMarker)) := by
    rw [List.forall₂_map_left_iff, List.forall₂_map_right_iff, List.forall₂_same]
    exact fun m _ => splitsInto_modelBlock m
  have hall := splitsInto_join allBlank_gap (List.rel_append hnamespaces hmodels)
  unfold blockPieces
  rw [List.flatMap_def, List.flatMap_def, ← List.flatten_append]
  exact hall

end Parts

end Document
end SchemaSpec
