import SchemaSpec.Proofs.Document.Imitations
import SchemaSpec.Proofs.Listing.OneLine

/-!
# Models declared twice

The models of a document are declared by the lines that open their blocks, and extending a document
adds exactly the blocks of the new models to those that are there.

* `blockName?`, `blockNames`: the names of the blocks of a document, each as often as it is declared.
* `blockNames_render`, `blockNames_merge`: the blocks of a fresh and of an extended document.
* `nodup_blockNames_iff`: no name is declared twice exactly if no two of the models written share
  one.  Only against the document that was there are new models compared, not against each other.
-/

namespace SchemaSpec
namespace Document

open Text

/-- Whether a character may stand behind the brace that opens a block, on its line. -/
def isClosing (c : Char) : Bool :=
  isBlank c || c == '\x7d'

/-- A text of such characters. -/
def AllClosing (t : Text) : Prop :=
  ∀ c ∈ t, isClosing c = true

instance (t : Text) : Decidable (AllClosing t) :=
  decidable_of_iff (t.all isClosing = true) (by simp [AllClosing])

/-- The name of the model whose block a line opens: the line is `model`, the name and an opening
brace, and at most closing braces follow. -/
def blockName? (line : Text) : Option Text :=
  let opened := dropEnd isClosing line
  if opened.getLast? = some '\x7b' then
    match after? "model".toList (trimStart opened.dropLast) with
    | some (c :: r) => if isBlank c && !(trim r).any isBlank then some (trim r) else none
    | _ => none
  else none

/-- The names of the models whose blocks a document has, in its order. -/
def blockNames (document : Text) : List Text :=
  (lines document).filterMap blockName?

section Lines

variable {line name t u : Text}

theorem blockName?_append_closing
    (hu : AllClosing u) :
    blockName? (t ++ u) = blockName? t := by
  unfold blockName?
  rw [dropEnd_append_of_all hu]

/-- A line that opens a block, taken apart. -/
theorem exists_of_blockName?
    (h : blockName? line = some name) :
    ∃ indent gap space tail, line = indent ++ ("model".toList ++ gap ++ name ++ space ++ '\x7b' :: tail)
      ∧ AllBlank indent ∧ (AllBlank gap ∧ gap ≠ []) ∧ AllBlank space ∧ AllClosing tail
      ∧ ∀ c ∈ name, isBlank c = false := by
  unfold blockName? at h
  dsimp only at h
  split at h
  · rename_i hlast
    obtain ⟨opened, hopened⟩ := List.getLast?_eq_some_iff.1 hlast
    obtain ⟨tail, hline, htail⟩ := exists_dropEnd_append isClosing line
    rw [hopened] at hline
    rw [hopened, List.dropLast_concat] at h
    split at h
    · rename_i c r hafter
      split at h
      · rename_i hname
        simp only [Bool.and_eq_true, Bool.not_eq_true', List.any_eq_false] at hname
        obtain ⟨hc, hblank⟩ := hname
        obtain ⟨gap, space, hr, hgap, hspace⟩ := exists_trim_surround r
        rw [Option.some.inj h] at hr hblank
        have hindent : AllBlank (opened.takeWhile isBlank) := fun d hd =>
          List.mem_takeWhile_imp hd
        have hsplit : opened = opened.takeWhile isBlank ++ trimStart opened :=
          List.takeWhile_append_dropWhile.symm
        rw [after?_eq_some_iff.1 hafter, hr] at hsplit
        generalize opened.takeWhile isBlank = indent at hindent hsplit
        refine ⟨indent, c :: gap, space, tail, ?_, hindent,
          ⟨List.forall_mem_cons.2 ⟨hc, hgap⟩, List.cons_ne_nil c gap⟩, hspace, htail,
          fun d hd => by simpa using hblank d hd⟩
        rw [hline, hsplit]
        simp
      · cases h
    · cases h
  · cases h

/-- A line that starts with another character than the keyword opens no block. -/
theorem blockName?_of_head
    {indent : Text}
    {c : Char}
    (hindent : AllBlank indent)
    (hc : isBlank c = false)
    (hm : c ≠ 'm')
    (rest : Text) :
    blockName? (indent ++ c :: rest) = none := by
  rw [Option.eq_none_iff_forall_ne_some]
  intro name hname
  obtain ⟨blanks, gap, space, tail, hline, hblanks, -⟩ := exists_of_blockName? hname
  have hstart := congrArg trimStart hline
  rw [trimStart_append_of_blank hindent, trimStart_append_of_blank hblanks,
    trimStart_eq_self (by simp [hc]), trimStart_eq_self (by simp; decide)] at hstart
  simp only [List.append_assoc] at hstart
  exact hm (List.cons.inj hstart).1

/-- A line that ends with neither a brace nor a blank opens no block. -/
theorem blockName?_of_last
    {c : Char}
    (hc : isClosing c = false)
    (hbrace : c ≠ '\x7b')
    (t : Text) :
    blockName? (t ++ [c]) = none := by
  unfold blockName?
  dsimp only
  rw [dropEnd_append_singleton hc, if_neg]
  rw [List.getLast?_concat]
  simpa using hbrace

/-- The header of a model opens its block. -/
theorem blockName?_headerLine
    (hname : ∀ c ∈ name, isBlank c = false) :
    blockName? (headerLine name) = some name := by
  have hheader : headerLine name
      = ("  ".toList ++ ("model".toList ++ ' ' :: (name ++ [' ']))) ++ ['\x7b'] := by
    have hsplit : "  model ".toList = "  ".toList ++ "model".toList ++ [' '] := by decide
    have hend : " \x7b".toList = [' '] ++ ['\x7b'] := by decide
    unfold headerLine
    rw [hsplit, hend]
    simp
  have hstart : trimStart ("  ".toList ++ ("model".toList ++ ' ' :: (name ++ [' '])))
      = "model".toList ++ ' ' :: (name ++ [' ']) := by
    rw [trimStart_append_of_blank (by decide)]
    exact trimStart_eq_self (fun c hc => by cases hc; decide)
  have htrim : trim (name ++ [' ']) = name := by
    have hsurround := trim_surround allBlank_nil allBlank_space name
    rw [List.nil_append] at hsurround
    rw [hsurround]
    exact trim_eq_self (fun c hc => hname c (List.mem_of_head? hc))
      (fun c hc => hname c (List.mem_of_getLast? hc))
  have hplain : name.any isBlank = false := by
    rw [List.any_eq_false]
    exact fun c hc => by simp [hname c hc]
  unfold blockName?
  rw [hheader, dropEnd_append_singleton (by decide)]
  simp only [List.getLast?_concat, if_true, List.dropLast_concat, hstart,
    after?_eq_some_iff.2 rfl, htrim, hplain]
  rfl

/-- A line with a colon, a blank and a semicolon behind them opens no block: the name would have the
blank in it. -/
theorem blockName?_of_colon
    {rest : Text}
    (h : ';' ∈ rest)
    (t : Text) :
    blockName? (t ++ ':' :: ' ' :: rest) = none := by
  rw [Option.eq_none_iff_forall_ne_some]
  intro name hname
  obtain ⟨indent, gap, space, tail, hline, hindent, ⟨hgap, -⟩, hspace, htail, hplain⟩ :=
    exists_of_blockName? hname
  have hbehind : ∀ c ∈ space ++ '\x7b' :: tail, c ≠ ';' := by
    rintro c hc rfl
    rcases List.mem_append.1 hc with hc | hc
    · exact absurd (hspace _ hc) (by decide)
    · rcases List.mem_cons.1 hc with hc | hc
      · exact absurd hc (by decide)
      · exact absurd (htail _ hc) (by decide)
  have hbefore : ':' ∉ indent ++ "model".toList ++ gap := by
    intro hc
    rcases List.mem_append.1 hc with hc | hc
    · rcases List.mem_append.1 hc with hc | hc
      · exact absurd (hindent _ hc) (by decide)
      · exact absurd hc (by decide)
    · exact absurd (hgap _ hc) (by decide)
  have hcut : t ++ ':' :: ' ' :: rest
      = (indent ++ "model".toList ++ gap) ++ (name ++ (space ++ '\x7b' :: tail)) := by
    rw [hline]
    simp
  -- The colon stands in the name, and so does the blank, since the semicolon cannot stand behind it.
  obtain ⟨x, -, hx⟩ : ∃ x, t = (indent ++ "model".toList ++ gap) ++ x
      ∧ name ++ (space ++ '\x7b' :: tail) = x ++ ':' :: ' ' :: rest := by
    rcases List.append_eq_append_iff.1 hcut with ⟨x, hp, hx⟩ | h
    · cases x with
      | nil =>
          exact ⟨[], by simpa using hp.symm, by simpa using hx.symm⟩
      | cons c x =>
          have hc : ':' = c := (List.cons.inj hx).1
          exact absurd (by rw [hp, ← hc]; simp) hbefore
    · exact h
  have hname : name ++ (space ++ '\x7b' :: tail) = (x ++ [':', ' ']) ++ rest := by
    rw [hx]
    simp
  rcases List.append_eq_append_iff.1 hname with ⟨y, -, hrest⟩ | ⟨y, hin, -⟩
  · exact hbehind ';' (by rw [hrest]; exact List.mem_append_right _ h) rfl
  · have hblank := hplain ' ' (by rw [hin]; simp)
    exact absurd hblank (by decide)

end Lines

section Blocks

variable {t u : Text}

theorem blockNames_append_cons
    (t u : Text) :
    blockNames (t ++ '\n' :: u) = blockNames t ++ blockNames u := by
  unfold blockNames
  rw [lines_append_cons, List.filterMap_append]

theorem blockNames_eq_nil
    (h : ∀ line ∈ lines t, blockName? line = none) :
    blockNames t = [] :=
  List.filterMap_eq_nil_iff.2 h

theorem blockNames_join_lineFeed
    {ls : List Text}
    (h : ∀ line ∈ ls, '\n' ∉ line) :
    blockNames (join ['\n'] ls) = ls.filterMap blockName? := by
  by_cases hnil : ls = []
  · rw [hnil]
    rfl
  · unfold blockNames
    rw [lines_join hnil h]

theorem blockNames_join_blank
    (ts : List Text) :
    blockNames (join ['\n', '\n'] ts) = ts.flatMap blockNames := by
  induction ts with
  | nil =>
      rfl
  | cons t ts ih =>
      by_cases hts : ts = []
      · subst hts
        simp [join]
      · have hempty : blockName? [] = none := rfl
        rw [List.flatMap_cons, ← ih]
        unfold blockNames
        rw [lines_join_blank hts, List.filterMap_append, List.filterMap_cons, hempty]

/-- Where two texts meet, the last line of the one goes on with the first line of the other. -/
theorem exists_lines_append
    (t u : Text) :
    ∃ before last first rest, lines t = before ++ [last] ∧ lines u = first :: rest
      ∧ lines (t ++ u) = before ++ (last ++ first) :: rest := by
  induction t with
  | nil =>
      obtain ⟨first, rest, hu⟩ := List.exists_cons_of_ne_nil (lines_ne_nil u)
      exact ⟨[], [], first, rest, rfl, hu, hu⟩
  | cons c t ih =>
      obtain ⟨before, last, first, rest, ht, hu, htu⟩ := ih
      by_cases hc : c = '\n'
      · subst hc
        have hcut : ∀ v, lines ('\n' :: v) = [] :: lines v := lines_append_cons []
        exact ⟨[] :: before, last, first, rest, by rw [hcut, ht]; rfl, hu,
          by rw [List.cons_append, hcut, htu]; rfl⟩
      · have hcut : ∀ v, lines (c :: v) = extendHead c (lines v) := fun v => by
          simp [lines, splitOn, splitWhere, hc]
        cases before with
        | nil =>
            exact ⟨[], c :: last, first, rest, by rw [hcut, ht]; rfl, hu,
              by rw [List.cons_append, hcut, htu]; rfl⟩
        | cons line before =>
            exact ⟨(c :: line) :: before, last, first, rest, by rw [hcut, ht]; rfl, hu,
              by rw [List.cons_append, hcut, htu]; rfl⟩

/-- What may stand behind an opening brace makes no block. -/
theorem blockNames_append_closing
    (hu : AllClosing u) :
    blockNames (t ++ u) = blockNames t := by
  obtain ⟨before, last, first, rest, ht, hlines, htu⟩ := exists_lines_append t u
  have hclosing : ∀ line ∈ first :: rest, AllClosing line := by
    intro line hline c hc
    have hpart : line <:+: join ['\n'] (first :: rest) := infix_join_of_mem hline
    rw [← hlines, join_lines] at hpart
    exact hu c (hpart.subset hc)
  have hrest : rest.filterMap blockName? = [] := by
    rw [List.filterMap_eq_nil_iff]
    intro line hline
    exact blockName?_append_closing (t := []) (hclosing line (List.mem_cons_of_mem _ hline))
  unfold blockNames
  rw [htu, ht, List.filterMap_append, List.filterMap_append, List.filterMap_cons, hrest,
    blockName?_append_closing (hclosing first List.mem_cons_self)]
  rfl

/-- A comment opens no block. -/
theorem blockName?_comment
    {indent : Text}
    {text : Option Text}
    (hindent : AllBlank indent ∧ '\n' ∉ indent)
    (htext : OneLine text.toList) :
    ∀ line ∈ (commentRows indent text).flatMap lines, blockName? line = none := by
  have hslash : "/** ".toList = '/' :: "** ".toList := by decide
  rcases commentRows_cases hindent.2 htext with hnil | ⟨row, hrow, ⟨rest, hrest⟩, hone⟩
  · rw [hnil]
    exact fun line hline => absurd hline List.not_mem_nil
  · rw [hrow, List.flatMap_singleton, hone]
    intro line hline
    rw [List.mem_singleton.1 hline, ← hrest, hslash, List.append_assoc]
    exact blockName?_of_head hindent.1 (by decide) (by decide) _

theorem blockName?_fieldRow
    {modelName : Text}
    {enums : List EnumDecl}
    {optionalMarker : Bool}
    (f : Field) :
    blockName? (fieldRow modelName enums optionalMarker f) = none := by
  have hsplit : ": ".toList = [':', ' '] := by decide
  unfold fieldRow
  rw [hsplit]
  simp only [List.append_assoc, List.cons_append, List.nil_append]
  rw [← List.append_assoc, ← List.append_assoc]
  exact blockName?_of_colon
    (List.mem_append_right _ (List.mem_append_right _ List.mem_cons_self)) _

/-- The block of a model declares the model, and nothing else. -/
theorem blockNames_modelBlock
    {m : TableModel}
    (h : m.IsRead)
    (enums : List EnumDecl)
    (optionalMarker : Bool) :
    blockNames (modelBlock enums optionalMarker m) = [m.name] := by
  have hname : '\n' ∉ m.name := h.oneLine m.name List.mem_cons_self
  have hcomment : OneLine m.comment.toList := fun t ht =>
    h.oneLine t (List.mem_cons_of_mem _ (List.mem_append_left _ ht))
  have htexts : ∀ f ∈ m.fields, OneLine (fieldTexts f) := fun f hf t ht =>
    h.oneLine t (List.mem_cons_of_mem _ (List.mem_append_right _ (List.mem_flatMap.2 ⟨f, hf, ht⟩)))
  have hheader : '\n' ∉ headerLine m.name :=
    lineFeed_not_mem_append (lineFeed_not_mem_append (by decide) hname) (by decide)
  have hfields : ∀ line ∈ lines (join ['\n'] (m.fields.map (fieldLines m.name enums optionalMarker))),
      blockName? line = none := by
    intro line hline
    by_cases hnone : m.fields = []
    · rw [hnone] at hline
      rw [List.mem_singleton.1 hline]
      rfl
    · rw [lines_join_lineFeed (by simpa using hnone), List.mem_flatMap] at hline
      obtain ⟨row, hrow, hline⟩ := hline
      obtain ⟨f, hf, rfl⟩ := List.mem_map.1 hrow
      have hdescription : OneLine f.description.toList := fun t ht => htexts f hf t
        (List.mem_cons_of_mem _ (List.mem_cons_of_mem _ (List.mem_append_left _ ht)))
      rw [fieldLines_eq, lines_flatMap_append, List.mem_append,
        lines_eq_singleton (lineFeed_not_mem_fieldRow hname (htexts f hf))] at hline
      rcases hline with hline | hline
      · exact blockName?_comment (by decide) hdescription line hline
      · rw [List.mem_singleton.1 hline]
        exact blockName?_fieldRow f
  unfold blockNames
  rw [lines_modelBlock, lines_eq_singleton hheader, List.filterMap_append, List.filterMap_append,
    List.filterMap_append, List.filterMap_eq_nil_iff.2 hfields,
    List.filterMap_eq_nil_iff.2 (blockName?_comment (by decide) hcomment)]
  simp only [List.filterMap_cons, blockName?_headerLine (fun c hc => h.not_isBlank hc)]
  rfl

/-- An enum declares no model. -/
theorem blockNames_enumBlock
    {e : EnumDecl}
    (h : OneLine (enumTexts e)) :
    blockNames (enumBlock e) = [] := by
  have hopen : '\n' ∉ enumLine e :=
    lineFeed_not_mem_append (lineFeed_not_mem_append (by decide)
      (Naming.lineFeed_not_mem_toPascal _)) (by decide)
  refine blockNames_eq_nil (fun line hline => ?_)
  rw [enumBlock_eq, lines_append_cons, lines_append_cons, lines_eq_singleton hopen,
    lines_eq_singleton (by decide : '\n' ∉ "    \x7d".toList)] at hline
  simp only [List.mem_append, List.mem_singleton] at hline
  rcases hline with rfl | hmember | rfl
  · have hsplit : "    enum ".toList = "    ".toList ++ 'e' :: "num ".toList := by decide
    unfold enumLine
    rw [hsplit, List.append_assoc, List.append_assoc]
    exact blockName?_of_head (by decide) (by decide) (by decide) _
  · by_cases hvalues : e.values = []
    · rw [hvalues] at hmember
      rw [List.mem_singleton.1 hmember]
      rfl
    · rw [lines_join_lineFeed (by simpa using hvalues), List.mem_flatMap] at hmember
      obtain ⟨row, hrow, hline⟩ := hmember
      obtain ⟨v, hv, rfl⟩ := List.mem_map.1 hrow
      have hone : '\n' ∉ enumMemberLine v :=
        lineFeed_not_mem_append (lineFeed_not_mem_append (by decide)
          (lineFeed_not_mem_enumMember (h v (by simp [enumTexts, hv])))) (by decide)
      rw [lines_eq_singleton hone] at hline
      rw [List.mem_singleton.1 hline]
      exact blockName?_of_last (by decide) (by decide) _
  · decide

/-- A namespace of enums declares no model. -/
theorem blockNames_enumNamespace
    {modelName : Text}
    {enums : List EnumDecl}
    (hname : '\n' ∉ modelName)
    (h : ∀ e ∈ enums, OneLine (enumTexts e)) :
    blockNames (enumNamespace modelName enums) = [] := by
  have hopen : '\n' ∉ namespaceLine modelName :=
    lineFeed_not_mem_append (lineFeed_not_mem_append (by decide)
      (lineFeed_not_mem_append hname (by decide))) (by decide)
  have hheader : blockName? (namespaceLine modelName) = none := by
    have hsplit : "  namespace ".toList = "  ".toList ++ 'n' :: "amespace ".toList := by decide
    unfold namespaceLine
    rw [hsplit, List.append_assoc, List.append_assoc]
    exact blockName?_of_head (by decide) (by decide) (by decide) _
  rw [enumNamespace_eq, blockNames_append_cons, blockNames_append_cons, blockNames_join_blank]
  have hclosing : blockNames closingLine = [] := by decide
  have hfirst : blockNames (namespaceLine modelName) = [] :=
    blockNames_eq_nil (fun line hline => by
      rw [lines_eq_singleton hopen] at hline
      rw [List.mem_singleton.1 hline]
      exact hheader)
  rw [hclosing, hfirst, List.nil_append, List.append_nil, List.flatMap_eq_nil_iff]
  intro t ht
  obtain ⟨e, he, rfl⟩ := List.mem_map.1 ht
  exact blockNames_enumBlock (h e he)

end Blocks

section Documents

variable {models : List TableModel} {enums : List EnumDecl} {optionalMarker : Bool}

/-- Blocks declare the models written. -/
theorem blockNames_blocksOf
    {shown : List EnumDecl}
    (hmodels : ∀ m ∈ models, m.IsRead)
    (hshown : ∀ e ∈ shown, OneLine (enumTexts e)) :
    (blocksOf shown enums optionalMarker models).flatMap blockNames
      = models.map TableModel.name := by
  have hnamespaces : (namespaces shown).flatMap blockNames = [] := by
    obtain ⟨names, -, hmem, hgroup⟩ := exists_group_eq shown
    rw [List.flatMap_eq_nil_iff]
    unfold namespaces
    rw [hgroup]
    intro t ht
    obtain ⟨g, hg, rfl⟩ := List.mem_map.1 ht
    obtain ⟨n, hn, rfl⟩ := List.mem_map.1 hg
    obtain ⟨e, he, rfl⟩ := List.mem_map.1 ((hmem n).1 hn)
    refine blockNames_enumNamespace (hshown e he e.modelName List.mem_cons_self) (fun d hd => ?_)
    exact hshown d (List.mem_filter.1 hd).1
  have hblocks : (models.map (modelBlock enums optionalMarker)).flatMap blockNames
      = models.map TableModel.name := by
    rw [List.flatMap_map, ← List.flatMap_singleton' (models.map TableModel.name), List.flatMap_map]
    exact List.flatMap_congr (fun m hm => blockNames_modelBlock (hmodels m hm) enums optionalMarker)
  unfold blocksOf
  rw [List.flatMap_append, hnamespaces, hblocks, List.nil_append]

theorem blockNames_opening
    {s : Settings}
    (h : OneLine (settingTexts s)) :
    blockNames (opening s) = [] := by
  have hhead : ∀ {c : Char} {rest : Text}, isBlank c = false → c ≠ 'm' →
      blockName? (c :: rest) = none := fun hc hm => blockName?_of_head allBlank_nil hc hm _
  have hrows : ∀ row ∈ openingRows s, blockName? row = none := by
    unfold openingRows
    simp only [List.forall_mem_cons]
    refine ⟨by decide, by decide, by decide, by decide, hhead (by decide) (by decide),
      hhead (by decide) (by decide), hhead (by decide) (by decide), hhead (by decide) (by decide), ?_⟩
    exact fun row hrow => absurd hrow List.not_mem_nil
  refine blockNames_eq_nil (fun line hline => ?_)
  rw [lines_opening h] at hline
  exact hrows line hline

/-- A fresh document declares the models written. -/
theorem blockNames_render
    {s : Settings}
    (hsettings : OneLine (settingTexts s))
    (hmodels : ∀ m ∈ models, m.IsRead)
    (henums : ∀ e ∈ enums, OneLine (enumTexts e)) :
    blockNames (render s models enums) = models.map TableModel.name := by
  have hshown : (shownBlocks s models enums).flatMap blockNames = models.map TableModel.name := by
    cases models with
    | nil =>
        have hnamespaces : (blocksOf enums enums true []).flatMap blockNames
            = ([] : List TableModel).map TableModel.name := blockNames_blocksOf (by simp) henums
        have hplaceholder : blockNames placeholder = [] := by decide
        rw [blocksOf, List.map_nil, List.append_nil] at hnamespaces
        rw [shownBlocks, List.flatMap_append, hnamespaces]
        simp [hplaceholder]
    | cons m ms =>
        exact blockNames_blocksOf hmodels henums
  rw [render_eq, blockNames_append_closing (by decide), body_eq, blockNames_append_cons,
    blockNames_opening hsettings, blockNames_append_closing (by decide), blockNames_join_blank,
    hshown, List.nil_append]

/-- The line that stands for missing models opens no block. -/
theorem filterMap_blockName?_filter
    (ls : List Text) :
    (ls.filter (fun line => line != placeholder)).filterMap blockName? = ls.filterMap blockName? := by
  have hplaceholder : blockName? placeholder = none := by decide
  induction ls with
  | nil =>
      rfl
  | cons line ls ih =>
      by_cases hline : line = placeholder
      · rw [hline, List.filter_cons_of_neg (by simp), List.filterMap_cons, hplaceholder, ih]
      · rw [List.filter_cons_of_pos (by simpa using hline), List.filterMap_cons,
          List.filterMap_cons, ih]

/-- Nothing that declares a model goes from a document when it is extended. -/
theorem blockNames_kept
    (t : Text) :
    blockNames (kept t) = blockNames t := by
  obtain ⟨u, hu, hall⟩ := exists_dropEnd_append (fun c => c == '\n') (dropPlaceholders t)
  have hclosing : AllClosing u := by
    intro c hc
    have hfeed : c = '\n' := by simpa using hall c hc
    rw [hfeed]
    decide
  have hsame : blockNames (kept t) = blockNames (dropPlaceholders t) := by
    rw [hu]
    exact (blockNames_append_closing hclosing).symm
  rw [hsame, dropPlaceholders, blockNames_join_lineFeed, filterMap_blockName?_filter]
  · rfl
  · exact fun line hline => lineFeed_not_mem_of_mem_lines (List.mem_filter.1 hline).1

theorem blockNames_separator
    (today : Date) :
    blockNames (separator today) = [] := by
  have hslash : "  // ---- appended at ".toList
      = "  ".toList ++ '/' :: "/ ---- appended at ".toList := by decide
  have hrow : blockName? (separator today) = none := by
    unfold separator
    rw [hslash, List.append_assoc, List.append_assoc]
    exact blockName?_of_head (by decide) (by decide) (by decide) _
  unfold blockNames
  rw [lines_separator, List.filterMap_cons, hrow]
  rfl

/-- An extended document declares what it declared before, and the new models. -/
theorem blockNames_merge
    (hmodels : ∀ m ∈ models, m.IsRead)
    (henums : ∀ e ∈ enums, OneLine (enumTexts e))
    {document : Text}
    {today : Date}
    {r : Merged}
    (h : merge document models enums today optionalMarker = .ok r) :
    blockNames r.content
      = blockNames document ++ (newModels document models).map TableModel.name := by
  rcases merge_eq_ok h with ⟨hnone, rfl⟩ | ⟨hsome, before, blanks, hdocument, hblanks, rfl⟩
  · rw [hnone, List.map_nil, List.append_nil]
  · have hending : AllClosing ('\x7d' :: blanks) := by
      intro c hc
      rcases List.mem_cons.1 hc with rfl | hc
      · decide
      · simp [isClosing, hblanks c hc]
    have hold : blockNames document = blockNames before := by
      rw [hdocument, blockNames_append_closing hending]
    have hnew : ∀ m ∈ newModels document models, m.IsRead := fun m hm =>
      hmodels m (List.mem_filter.1 hm).1
    have hshown : ∀ e ∈ newEnums document (newModels document models) enums,
        OneLine (enumTexts e) := fun e he => henums e (List.mem_filter.1 he).1
    dsimp only
    rw [blockNames_append_closing hending, blockNames_append_cons, blockNames_kept, ← hold,
      addition_blocks hsome]
    have hfeed : ∀ t, blockNames ('\n' :: t) = blockNames t := blockNames_append_cons []
    rw [hfeed, blockNames_append_cons, hfeed, blockNames_append_closing (by decide),
      blockNames_join_blank, blockNames_blocksOf hnew hshown, blockNames_separator,
      List.nil_append]

/-- A block whose name is a word is found when the text is searched for declarations. -/
theorem mem_modelNames_of_mem_blockNames
    {document name : Text}
    (hname : IsWordRun name)
    (h : name ∈ blockNames document) :
    name ∈ modelNames document := by
  obtain ⟨line, hline, hblock⟩ := List.mem_filterMap.1 h
  obtain ⟨indent, gap, space, tail, rfl, hindent, hgap, hspace, -⟩ := exists_of_blockName? hblock
  obtain ⟨before, after, rfl, hbefore⟩ := exists_of_mem_lines hline
  have hdeclared : DeclaresModel name
      ("model".toList ++ gap ++ name ++ space ++ '\x7b' :: tail) :=
    ⟨[], "model".toList ++ gap ++ name ++ space ++ ['\x7b'], tail, by simp, rfl, gap, space, hgap,
      hname, hspace, rfl⟩
  rw [mem_modelNames_iff]
  exact (((declares_of_blank_append hindent).2 hdeclared).append_left hbefore).append_right after

/-- In the document of a listing, a name is declared once if no two tables of the listing share it.
In an extended document, a name is declared once if no two of the new models share it, and none that
is no word has a block already.  New models are not compared with each other, and words alone are
found in the document. -/
theorem nodup_blockNames_iff
    {listing : Text}
    (hparse : Schema.parse listing = .ok models)
    (henums : ∀ e ∈ enums, OneLine (enumTexts e)) :
    (∀ s, OneLine (settingTexts s) →
      ((blockNames (render s models enums)).Nodup ↔ (models.map TableModel.name).Nodup))
      ∧ ∀ document today optionalMarker r, (blockNames document).Nodup →
        merge document models enums today optionalMarker = .ok r →
          ((blockNames r.content).Nodup ↔ ((newModels document models).map TableModel.name).Nodup
            ∧ ∀ m ∈ newModels document models, ¬ IsWordRun m.name → m.name ∉ blockNames document) := by
  have hmodels := Schema.isRead_of_parse hparse
  refine ⟨fun s hsettings => by rw [blockNames_render hsettings hmodels henums], ?_⟩
  intro document today optionalMarker r hdocument hmerge
  rw [blockNames_merge hmodels henums hmerge, List.nodup_append', and_iff_right hdocument]
  refine and_congr_right (fun _ => ⟨fun hdisjoint m hm _ hmem => ?_, fun hout n hn hmem => ?_⟩)
  · exact hdisjoint hmem (List.mem_map_of_mem hm)
  · obtain ⟨m, hm, rfl⟩ := List.mem_map.1 hmem
    by_cases hword : IsWordRun m.name
    · exact (mem_newModels.1 hm).2 (mem_modelNames_iff.1 (mem_modelNames_of_mem_blockNames hword hn))
    · exact hout m hm hword hn

/-- A listing of two tables of one name, in two database schemas. -/
def twiceListing : Text :=
  "create_table \"users\" do |t|
end
create_table \"public.users\" do |t|
end
".toList

/-- The table of the listing above that has the given name. -/
def userTable (tableName : Text) : TableModel where
  name := "User".toList
  tableName := tableName
  primaryKey := some "id".toList
  fields := [{ name := "id".toList, typeName := "int64".toList, nullable := false }]

/-- A fresh document and an extended one declare a model twice if two tables share its name. -/
theorem model_declared_twice :
    ∃ models r, Schema.parse twiceListing = .ok models
      ∧ ¬ (blockNames (render {} models [])).Nodup
      ∧ (blockNames (render {} [tag] [])).Nodup
      ∧ merge (render {} [tag] []) models [] ⟨2024, 5, 1⟩ false = .ok r
      ∧ ¬ (blockNames r.content).Nodup := by
  have hparse : Schema.parse twiceListing
      = .ok [userTable "users".toList, userTable "public.users".toList] := by
    decide +kernel
  have hmerge := merge_closed (body {} [tag] []) [userTable "users".toList,
    userTable "public.users".toList] [] ⟨2024, 5, 1⟩ false
  rw [← render_eq] at hmerge
  exact ⟨_, _, hparse, by decide +kernel, by decide +kernel, hmerge, by decide +kernel⟩

/-- Of one table, a document declares the model once, and so does a document extended by it. -/
theorem nodup_blockNames_iff_user :
    Schema.parse usersListing = .ok [user]
      ∧ (blockNames (render {} [user] [])).Nodup
      ∧ ∃ r, merge (render {} [tag] []) [user] [] ⟨2024, 5, 1⟩ false = .ok r
        ∧ (blockNames r.content).Nodup := by
  have hparse : Schema.parse usersListing = .ok [user] := by decide +kernel
  have hmerge := merge_closed (body {} [tag] []) [user] [] ⟨2024, 5, 1⟩ false
  have hnew : newModels (render {} [tag] []) [user] = [user] := by decide +kernel
  rw [← render_eq] at hmerge
  have hnone : ∀ e ∈ ([] : List EnumDecl), OneLine (enumTexts e) := by simp
  obtain ⟨hfresh, hextended⟩ := nodup_blockNames_iff hparse hnone
  refine ⟨hparse, (hfresh {} (by decide)).2 (by decide), _, hmerge, ?_⟩
  refine (hextended _ _ _ _ (by decide +kernel) hmerge).2 ?_
  rw [hnew]
  exact ⟨by decide, by decide +kernel⟩

end Documents

end Document
end SchemaSpec
