import SchemaSpec.Proofs.Document.Bodies

/-!
# The blocks of a document

The blocks of a document are read off its lines: a block starts at a line that opens one, with the
comment line before it if there is one, and ends at the next closing line.

* `blocks`: the blocks of a document.
* `readBlocks_join`: the reading of blocks with empty lines between them.
* `blocks_render`: a fresh document has the blocks of its enums and models, and no others.
* `nodup_blocksOf`: blocks of models with different names are different.
-/

namespace SchemaSpec
namespace Document

open Text

/-- Where the reading of blocks stands. -/
inductive Reading
  /-- Between blocks; the comment line that has just been read, if any. -/
  | outside (above : List Text)
  /-- In a block; its lines so far. -/
  | inside (rows : List Text)

/-- The blocks of lines. -/
def readBlocks : Reading → List Text → List Text
  | _, [] => []
  | .outside above, line :: rest =>
      if opensBlock line then readBlocks (.inside (above ++ [line])) rest
      else if isBlockComment line then readBlocks (.outside [line]) rest
      else readBlocks (.outside []) rest
  | .inside rows, line :: rest =>
      if line = closingLine then join ['\n'] (rows ++ [line]) :: readBlocks (.outside []) rest
      else readBlocks (.inside (rows ++ [line])) rest

/-- The blocks of a document. -/
def blocks (document : Text) : List Text :=
  readBlocks (.outside []) (lines document)

/-- A line between blocks. -/
def IsPlain (line : Text) : Prop :=
  opensBlock line = false ∧ isBlockComment line = false

section Reading

variable {rest : List Text}

theorem readBlocks_plain
    {ls : List Text}
    (h : ∀ line ∈ ls, IsPlain line) :
    readBlocks (.outside []) (ls ++ rest) = readBlocks (.outside []) rest := by
  induction ls with
  | nil =>
      rfl
  | cons line ls ih =>
      obtain ⟨hopens, hcomment⟩ := h line List.mem_cons_self
      rw [List.cons_append, readBlocks, hopens, hcomment]
      exact ih (fun l hl => h l (List.mem_cons_of_mem _ hl))

theorem isInner_ne_closingLine
    {line : Text}
    (h : IsInner line) :
    line ≠ closingLine := by
  rintro rfl
  rcases h with h | h
  · exact absurd h (by decide)
  · exact absurd (List.isPrefixOf_iff_prefix.2 h) (by decide)

/-- In a block, the inner lines are gathered up to the closing line. -/
theorem readBlocks_inside
    {inner : List Text}
    (h : ∀ line ∈ inner, IsInner line)
    (rows : List Text) :
    readBlocks (.inside rows) (inner ++ closingLine :: rest)
      = join ['\n'] (rows ++ inner ++ [closingLine]) :: readBlocks (.outside []) rest := by
  induction inner generalizing rows with
  | nil =>
      rw [List.nil_append, readBlocks, if_pos rfl, List.append_nil]
  | cons line inner ih =>
      have hline := isInner_ne_closingLine (h line List.mem_cons_self)
      have hrest := ih (fun l hl => h l (List.mem_cons_of_mem _ hl)) (rows ++ [line])
      rw [List.cons_append, readBlocks, if_neg hline, hrest]
      simp only [List.append_assoc, List.singleton_append]

theorem opensBlock_of_isBlockComment
    {line : Text}
    (h : isBlockComment line = true) :
    opensBlock line = false := by
  obtain ⟨t, rfl⟩ := List.isPrefixOf_iff_prefix.1 h
  rfl

/-- A block is read as itself. -/
theorem readBlocks_block
    {t : Text}
    (h : IsBlock t) :
    readBlocks (.outside []) (lines t ++ rest) = t :: readBlocks (.outside []) rest := by
  obtain ⟨above, opener, inner, hlines, habove, hopener, hinner⟩ := h
  have htext : t = join ['\n'] (above ++ opener :: (inner ++ [closingLine])) := by
    rw [← hlines, join_lines]
  have hcut : lines t ++ rest = above ++ opener :: (inner ++ closingLine :: rest) := by
    rw [hlines]
    simp
  have hgather : readBlocks (.inside (above ++ [opener])) (inner ++ closingLine :: rest)
      = t :: readBlocks (.outside []) rest := by
    rw [readBlocks_inside hinner, htext]
    simp only [List.append_assoc, List.cons_append, List.nil_append]
  rw [hcut]
  rcases habove with rfl | ⟨comment, rfl, hcomment⟩
  · rw [List.nil_append, readBlocks, if_pos hopener]
    exact hgather
  · rw [List.singleton_append, readBlocks, opensBlock_of_isBlockComment hcomment, hcomment,
      readBlocks, if_pos hopener]
    exact hgather

/-- Blocks with empty lines between them are read one by one. -/
theorem readBlocks_join
    {ts : List Text}
    (hne : ts ≠ [])
    (h : ∀ t ∈ ts, IsBlock t) :
    readBlocks (.outside []) (lines (join ['\n', '\n'] ts) ++ rest)
      = ts ++ readBlocks (.outside []) rest := by
  induction ts with
  | nil =>
      exact absurd rfl hne
  | cons t ts ih =>
      have ht := h t List.mem_cons_self
      by_cases hts : ts = []
      · subst hts
        exact readBlocks_block ht
      · have hrest := ih hts (fun u hu => h u (List.mem_cons_of_mem _ hu))
        have hempty : ∀ line ∈ [([] : Text)], IsPlain line := by
          intro line hline
          rw [List.mem_singleton.1 hline]
          exact ⟨rfl, rfl⟩
        have hskip : readBlocks (.outside []) ([] :: (lines (join ['\n', '\n'] ts) ++ rest))
            = readBlocks (.outside []) (lines (join ['\n', '\n'] ts) ++ rest) :=
          readBlocks_plain hempty
        rw [lines_join_blank hts, List.append_assoc, readBlocks_block ht, List.cons_append, hskip,
          hrest, List.cons_append]

end Reading

section Plain

theorem isPlain_of_head
    {line : Text}
    (h : line.head? ≠ some ' ') :
    IsPlain line := by
  constructor
  · rw [← Bool.not_eq_true]
    intro hopens
    unfold opensBlock at hopens
    rcases Bool.or_eq_true_iff.1 hopens with hmodel | hnamespace
    · obtain ⟨t, rfl⟩ := List.isPrefixOf_iff_prefix.1 hmodel
      exact h rfl
    · obtain ⟨t, rfl⟩ := List.isPrefixOf_iff_prefix.1 hnamespace
      exact h rfl
  · rw [← Bool.not_eq_true]
    intro hcomment
    obtain ⟨t, rfl⟩ := List.isPrefixOf_iff_prefix.1 hcomment
    exact h rfl

theorem isPlain_lineFeeds
    (n : Nat) :
    ∀ line ∈ List.replicate n ([] : Text), IsPlain line := by
  intro line hline
  rw [List.eq_of_mem_replicate hline]
  exact ⟨rfl, rfl⟩

theorem isPlain_separator
    (today : Date) :
    IsPlain (separator today) := by
  unfold separator
  rw [List.append_assoc]
  exact ⟨rfl, rfl⟩

end Plain

section Documents

variable {s : Settings} {models : List TableModel} {enums : List EnumDecl} {rest : List Text}

theorem readBlocks_opening
    (hs : OneLine (settingTexts s)) :
    readBlocks (.outside []) (lines (opening s) ++ rest) = readBlocks (.outside []) rest := by
  rw [lines_opening hs]
  exact readBlocks_plain (fun row hrow => isPlain_of_head (head?_openingRows s row hrow))

/-- The opening of a document has no blocks, and behind it stand those that are put there. -/
theorem readBlocks_framed
    (hs : OneLine (settingTexts s))
    {ts : List Text}
    (h : ∀ t ∈ ts, IsBlock t) :
    readBlocks (.outside []) (lines (framed s ts) ++ rest)
      = ts ++ readBlocks (.outside []) rest := by
  cases ts with
  | nil =>
      exact readBlocks_opening hs
  | cons t ts =>
      unfold framed
      rw [lines_append_cons, List.append_assoc, readBlocks_opening hs,
        readBlocks_join (List.cons_ne_nil t ts) h]

/-- The line that stands for missing models is no block. -/
theorem readBlocks_placeholder
    {ts : List Text}
    (h : ∀ t ∈ ts, IsBlock t) :
    readBlocks (.outside []) (lines (join ['\n', '\n'] (ts ++ [placeholder])) ++ rest)
      = ts ++ readBlocks (.outside []) rest := by
  have hplain : ∀ line ∈ [placeholder], IsPlain line := by
    intro line hline
    rw [List.mem_singleton.1 hline]
    exact ⟨rfl, rfl⟩
  have hempty : ∀ line ∈ [[], placeholder], IsPlain line := by
    intro line hline
    rcases List.mem_cons.1 hline with rfl | hline
    · exact ⟨rfl, rfl⟩
    · exact hplain line hline
  have hone : lines placeholder = [placeholder] := by decide
  by_cases hts : ts = []
  · subst hts
    have hjoin : join ['\n', '\n'] ([] ++ [placeholder]) = placeholder := rfl
    rw [hjoin, hone]
    exact readBlocks_plain hplain
  · have hcut : lines (join ['\n', '\n'] (ts ++ [placeholder]))
        = lines (join ['\n', '\n'] ts) ++ [[], placeholder] := by
      have hjoin : join ['\n', '\n'] (ts ++ [placeholder])
          = join ['\n', '\n'] ts ++ '\n' :: ([] ++ '\n' :: placeholder) := by
        rw [join_append hts (List.cons_ne_nil _ _), List.append_assoc]
        rfl
      rw [hjoin, lines_append_cons, lines_append_cons, hone]
      rfl
    rw [hcut, List.append_assoc, readBlocks_join hts h, readBlocks_plain hempty]

theorem readBlocks_shown
    (hmodels : ∀ m ∈ models, OneLine (modelTexts m))
    (henums : ∀ e ∈ enums, OneLine (enumTexts e)) :
    readBlocks (.outside []) (lines (join ['\n', '\n'] (shownBlocks s models enums)) ++ rest)
      = blocksOf enums enums s.optionalMarker.isOn models ++ readBlocks (.outside []) rest := by
  cases models with
  | nil =>
      have hall : blocksOf enums enums s.optionalMarker.isOn [] = namespaces enums := by
        simp [blocksOf]
      rw [hall]
      exact readBlocks_placeholder (isBlock_namespaces henums)
  | cons m ms =>
      have hne : blocksOf enums enums s.optionalMarker.isOn (m :: ms) ≠ [] := by
        simp [blocksOf]
      exact readBlocks_join hne (isBlock_blocksOf henums hmodels)

/-- A fresh document has the blocks of its enums and models, and no others. -/
theorem blocks_render
    (hs : OneLine (settingTexts s))
    (hmodels : ∀ m ∈ models, OneLine (modelTexts m))
    (henums : ∀ e ∈ enums, OneLine (enumTexts e)) :
    blocks (render s models enums) = blocksOf enums enums s.optionalMarker.isOn models := by
  have hcut : lines (render s models enums)
      = lines (opening s) ++ (lines (join ['\n', '\n'] (shownBlocks s models enums))
        ++ lines closing) := by
    rw [render_eq, body_eq, List.append_assoc, List.cons_append, lines_append_cons,
      List.append_assoc, List.singleton_append, lines_append_cons]
  have hend : readBlocks (.outside []) (lines closing) = [] := by decide
  rw [blocks, hcut, readBlocks_opening hs, readBlocks_shown hmodels henums, hend, List.append_nil]

/-- The blocks of a document before those that are added. -/
theorem blocks_head
    (hs : OneLine (settingTexts s))
    {ts : List Text}
    (h : ∀ t ∈ ts, IsBlock t) :
    blocks (framed s ts ++ ['\n', '\n']) = ts := by
  have hfeeds : ∀ c ∈ ['\n', '\n'], c = '\n' := by simp
  have hend : readBlocks (.outside []) (List.replicate ['\n', '\n'].length []) = [] := by decide
  rw [blocks, lines_append_of_lineFeeds hfeeds, readBlocks_framed hs h, hend, List.append_nil]

theorem readBlocks_tail
    {us : List Text}
    (hne : us ≠ [])
    (h : ∀ u ∈ us, IsBlock u)
    {feeds : Text}
    (hfeeds : ∀ c ∈ feeds, c = '\n') :
    readBlocks (.outside []) (lines (feeds ++ (join ['\n', '\n'] us ++ '\n' :: closing))) = us := by
  have hend : readBlocks (.outside []) (lines closing) = [] := by decide
  rw [lines_lineFeeds_append hfeeds, lines_append_cons, readBlocks_plain (isPlain_lineFeeds _),
    readBlocks_join hne h, hend, List.append_nil]

/-- The blocks that are added to a document. -/
theorem blocks_tail
    {us : List Text}
    (hne : us ≠ [])
    (h : ∀ u ∈ us, IsBlock u) :
    blocks (['\n', '\n'] ++ (join ['\n', '\n'] us ++ '\n' :: closing)) = us :=
  readBlocks_tail hne h (by simp)

/-- A document that is put together from two such parts has the blocks of both. -/
theorem blocks_append
    (hs : OneLine (settingTexts s))
    {ts us : List Text}
    (hts : ∀ t ∈ ts, IsBlock t)
    (hne : us ≠ [])
    (hus : ∀ u ∈ us, IsBlock u)
    (today : Date) :
    blocks (framed s ts ++ ['\n', '\n'] ++ separator today
      ++ (['\n', '\n'] ++ (join ['\n', '\n'] us ++ '\n' :: closing))) = ts ++ us := by
  have hbetween : ∀ line ∈ [[], separator today], IsPlain line := by
    intro line hline
    rcases List.mem_cons.1 hline with rfl | hline
    · exact ⟨rfl, rfl⟩
    · rw [List.mem_singleton.1 hline]
      exact isPlain_separator today
  have hcut : lines (framed s ts ++ ['\n', '\n'] ++ separator today
      ++ (['\n', '\n'] ++ (join ['\n', '\n'] us ++ '\n' :: closing)))
        = lines (framed s ts) ++ ([[], separator today]
          ++ lines (['\n'] ++ (join ['\n', '\n'] us ++ '\n' :: closing))) := by
    have hsplit : framed s ts ++ ['\n', '\n'] ++ separator today
        ++ (['\n', '\n'] ++ (join ['\n', '\n'] us ++ '\n' :: closing))
          = framed s ts ++ '\n' :: ([] ++ '\n' :: (separator today
            ++ '\n' :: (['\n'] ++ (join ['\n', '\n'] us ++ '\n' :: closing)))) := by
      simp only [List.append_assoc, List.cons_append, List.nil_append]
    rw [hsplit, lines_append_cons, lines_append_cons, lines_append_cons, lines_separator]
    rfl
  have htail : readBlocks (.outside [])
      (lines (['\n'] ++ (join ['\n', '\n'] us ++ '\n' :: closing))) = us :=
    readBlocks_tail hne hus (by simp)
  rw [blocks, hcut, readBlocks_framed hs hts, readBlocks_plain hbetween, htail]

end Documents

section Distinct

/-- The line that opens a block. -/
def opener? (t : Text) : Option Text :=
  (lines t).find? opensBlock

theorem opener?_modelBlock
    {m : TableModel}
    (h : OneLine (modelTexts m))
    (enums : List EnumDecl)
    (optionalMarker : Bool) :
    opener? (modelBlock enums optionalMarker m) = some (headerLine m.name) := by
  have hname : '\n' ∉ m.name := h m.name List.mem_cons_self
  have hcomment : OneLine m.comment.toList := fun t ht =>
    h t (List.mem_cons_of_mem _ (List.mem_append_left _ ht))
  have hheader : '\n' ∉ headerLine m.name :=
    lineFeed_not_mem_append (lineFeed_not_mem_append (by decide) hname) (by decide)
  have hopens : opensBlock (headerLine m.name) = true := by
    unfold opensBlock headerLine
    rw [List.append_assoc]
    rfl
  unfold opener?
  rw [lines_modelBlock, lines_eq_singleton hheader, List.singleton_append]
  rcases commentRows_cases (by decide : '\n' ∉ "  ".toList) hcomment with
    hnil | ⟨row, hrow, ⟨t, rfl⟩, hone⟩
  · rw [hnil, List.flatMap_nil, List.nil_append]
    exact List.find?_cons_of_pos hopens
  · have hno : ¬ opensBlock ("  ".toList ++ "/** ".toList ++ t) = true := by
      rw [List.append_assoc]
      exact Bool.false_ne_true
    rw [hrow, List.flatMap_singleton, hone, List.singleton_append, List.find?_cons_of_neg hno]
    exact List.find?_cons_of_pos hopens

theorem opener?_enumNamespace
    {modelName : Text}
    (h : '\n' ∉ modelName)
    (enums : List EnumDecl) :
    opener? (enumNamespace modelName enums) = some (namespaceLine modelName) := by
  have hopen : '\n' ∉ namespaceLine modelName :=
    lineFeed_not_mem_append (lineFeed_not_mem_append (by decide)
      (lineFeed_not_mem_append h (by decide))) (by decide)
  have hopens : opensBlock (namespaceLine modelName) = true := by
    unfold opensBlock namespaceLine
    rw [List.append_assoc]
    rfl
  unfold opener?
  rw [enumNamespace_eq, lines_append_cons, lines_eq_singleton hopen]
  exact List.find?_cons_of_pos hopens

theorem headerLine_injective :
    Function.Injective headerLine := by
  intro n n' h
  unfold headerLine at h
  rw [List.append_assoc, List.append_assoc] at h
  exact List.append_cancel_right (List.append_cancel_left h)

theorem namespaceLine_injective :
    Function.Injective namespaceLine := by
  intro n n' h
  unfold namespaceLine enumNamespaceName at h
  simp only [List.append_assoc] at h
  exact List.append_cancel_right (List.append_cancel_left h)

theorem headerLine_ne_namespaceLine
    (n n' : Text) :
    headerLine n ≠ namespaceLine n' := by
  intro h
  have hcut := congrArg (List.take 3) h
  unfold headerLine namespaceLine at hcut
  rw [List.append_assoc, List.append_assoc, List.take_append_of_le_length (by decide),
    List.take_append_of_le_length (by decide)] at hcut
  exact absurd hcut (by decide)

/-- The blocks of models with different names are different. -/
theorem nodup_blocksOf
    {shown enums : List EnumDecl}
    {optionalMarker : Bool}
    {models : List TableModel}
    (hshown : ∀ e ∈ shown, OneLine (enumTexts e))
    (hmodels : ∀ m ∈ models, OneLine (modelTexts m))
    (hnames : (models.map TableModel.name).Nodup) :
    (blocksOf shown enums optionalMarker models).Nodup := by
  obtain ⟨names, hnodup, hmem, hgroup⟩ := exists_group_eq shown
  have hnamespaces : (namespaces shown).map opener? = names.map (some ∘ namespaceLine) := by
    unfold namespaces
    rw [hgroup, List.map_map, List.map_map]
    refine List.map_congr_left (fun n hn => ?_)
    obtain ⟨e, he, rfl⟩ := List.mem_map.1 ((hmem n).1 hn)
    exact opener?_enumNamespace (hshown e he e.modelName List.mem_cons_self) _
  have hblocks : (models.map (modelBlock enums optionalMarker)).map opener?
      = (models.map TableModel.name).map (some ∘ headerLine) := by
    rw [List.map_map, List.map_map]
    exact List.map_congr_left (fun m hm => opener?_modelBlock (hmodels m hm) enums optionalMarker)
  refine List.Nodup.of_map opener? ?_
  rw [blocksOf, List.map_append, hnamespaces, hblocks, List.nodup_append']
  refine ⟨hnodup.map ((Option.some_injective _).comp namespaceLine_injective),
    hnames.map ((Option.some_injective _).comp headerLine_injective), fun t ht ht' => ?_⟩
  obtain ⟨n, -, rfl⟩ := List.mem_map.1 ht
  obtain ⟨n', -, heq⟩ := List.mem_map.1 ht'
  exact headerLine_ne_namespaceLine n' n (Option.some.inj heq)

end Distinct

end Document
end SchemaSpec
