import SchemaSpec.Proofs.Document.Rows
import SchemaSpec.Proofs.Document.Groups
import SchemaSpec.Proofs.Text.Digits

/-!
# Bodies on which a document is extended

* `opening_eq`: the lines of a document before its blocks.
* `blocksOf`: the blocks of some models and enums; `body_eq` and `addition_blocks` say where they
  stand.
* `placeholder_not_mem_of_isBlock`: no block has the line that stands for missing models.
* `body_framed`: what stands behind the blocks of a fresh document.
* `kept_body`: what is kept of the body of a fresh document.  The line that stands for missing
  models goes, with the empty lines before it.
* `extendedFrame`, `kept_extended`: the same for an extended document.
-/

namespace SchemaSpec
namespace Document

open Text

section Opening

/-- The lines of a document before its blocks. -/
def openingRows (s : Settings) : List Text :=
  ["import \"@typespec/http\";".toList, "import \"@typespec/openapi3\";".toList,
    "using TypeSpec.Http;".toList, [],
    "@service(#\x7b title: \"".toList ++ s.serviceTitle.toText ++ "\" \x7d)".toList,
    "@server(\"".toList ++ s.serverUrl.toText ++ "\", \"".toList ++ s.serverDescription.toText
      ++ "\")".toList,
    "@route(\"".toList ++ s.routePrefix.toText ++ "\")".toList,
    "namespace ".toList ++ s.namespaceName.toText ++ " \x7b".toList]

theorem opening_eq
    (s : Settings) :
    opening s = join ['\n'] (openingRows s) := by
  have hhttp : "import \"@typespec/http\";\n".toList
      = "import \"@typespec/http\";".toList ++ ['\n'] := by decide
  have hopenapi : "import \"@typespec/openapi3\";\n".toList
      = "import \"@typespec/openapi3\";".toList ++ ['\n'] := by decide
  have husing : "using TypeSpec.Http;\n".toList = "using TypeSpec.Http;".toList ++ ['\n'] := by
    decide
  have hservice : "\" \x7d)\n".toList = "\" \x7d)".toList ++ ['\n'] := by decide
  have hclose : "\")\n".toList = "\")".toList ++ ['\n'] := by decide
  have hfeed : "\n".toList = ['\n'] := by decide
  unfold opening preamble openingRows
  rw [hhttp, hopenapi, husing, hservice, hclose, hfeed]
  simp only [join, List.append_assoc, List.nil_append]

theorem lineFeed_not_mem_openingRows
    {s : Settings}
    (h : OneLine (settingTexts s)) :
    ∀ row ∈ openingRows s, '\n' ∉ row := by
  have htitle : '\n' ∉ s.serviceTitle.toText := h _ (by simp [settingTexts])
  have hurl : '\n' ∉ s.serverUrl.toText := h _ (by simp [settingTexts])
  have hdescription : '\n' ∉ s.serverDescription.toText := h _ (by simp [settingTexts])
  have hroute : '\n' ∉ s.routePrefix.toText := h _ (by simp [settingTexts])
  have hnamespace : '\n' ∉ s.namespaceName.toText := h _ (by simp [settingTexts])
  have hsurround : ∀ {left t right : Text}, '\n' ∉ left → '\n' ∉ t → '\n' ∉ right →
      '\n' ∉ left ++ t ++ right := fun hl ht hr =>
    lineFeed_not_mem_append (lineFeed_not_mem_append hl ht) hr
  unfold openingRows
  simp only [List.forall_mem_cons]
  refine ⟨by decide, by decide, by decide, by decide, hsurround (by decide) htitle (by decide), ?_,
    hsurround (by decide) hroute (by decide), hsurround (by decide) hnamespace (by decide), ?_⟩
  · exact hsurround (hsurround (by decide) hurl (by decide)) hdescription (by decide)
  · exact fun row hrow => absurd hrow List.not_mem_nil

theorem lines_opening
    {s : Settings}
    (h : OneLine (settingTexts s)) :
    lines (opening s) = openingRows s := by
  have hne : openingRows s ≠ [] := List.cons_ne_nil _ _
  rw [opening_eq, lines_join hne (lineFeed_not_mem_openingRows h)]

/-- No line before the blocks is indented. -/
theorem head?_openingRows
    (s : Settings) :
    ∀ row ∈ openingRows s, row.head? ≠ some ' ' := by
  unfold openingRows
  simp only [List.forall_mem_cons, List.append_assoc]
  refine ⟨by decide, by decide, by decide, by decide, ?_, ?_, ?_, ?_, ?_⟩
  · rw [List.head?_append_of_ne_nil _ (by decide)]
    decide
  · rw [List.head?_append_of_ne_nil _ (by decide)]
    decide
  · rw [List.head?_append_of_ne_nil _ (by decide)]
    decide
  · rw [List.head?_append_of_ne_nil _ (by decide)]
    decide
  · exact fun row hrow => absurd hrow List.not_mem_nil

end Opening

section Placeholders

theorem placeholder_not_mem_openingRows
    (s : Settings) :
    placeholder ∉ openingRows s := fun h =>
  head?_openingRows s _ h (by decide)

theorem isInner_ne_placeholder
    {line : Text}
    (h : IsInner line) :
    line ≠ placeholder := by
  rintro rfl
  rcases h with h | h
  · exact absurd h (by decide)
  · exact absurd (List.isPrefixOf_iff_prefix.2 h) (by decide)

/-- No block has the line that stands for missing models. -/
theorem placeholder_not_mem_of_isBlock
    {t : Text}
    (h : IsBlock t) :
    placeholder ∉ lines t := by
  obtain ⟨above, opener, inner, hlines, habove, hopener, hinner⟩ := h
  rw [hlines, List.mem_append, List.mem_cons, List.mem_append]
  rintro (hmem | rfl | hmem | hmem)
  · rcases habove with rfl | ⟨comment, rfl, hcomment⟩
    · cases hmem
    · rw [← List.mem_singleton.1 hmem] at hcomment
      exact absurd hcomment (by decide)
  · exact absurd hopener (by decide)
  · exact isInner_ne_placeholder (hinner _ hmem) rfl
  · exact absurd (List.mem_singleton.1 hmem) (by decide)

theorem placeholder_not_mem_join
    {ts : List Text}
    (h : ∀ t ∈ ts, placeholder ∉ lines t) :
    placeholder ∉ lines (join ['\n', '\n'] ts) := by
  intro hmem
  rcases mem_lines_join_blank hmem with hnil | ⟨t, ht, hmem⟩
  · exact absurd hnil (by decide)
  · exact h t ht hmem

end Placeholders

section Separators

theorem not_mem_paddedNat
    {c : Char}
    (hc : isWord c = false)
    (width n : Nat) :
    c ∉ paddedNat width n := by
  unfold paddedNat
  rw [List.mem_append, not_or]
  refine ⟨fun hmem => ?_, (isWordRun_ofNat n).not_mem hc⟩
  rw [List.eq_of_mem_replicate hmem] at hc
  exact absurd hc (by decide)

/-- A day is written with word characters and dashes. -/
theorem not_mem_iso
    {c : Char}
    (hc : isWord c = false)
    (hdash : c ≠ '-')
    (today : Date) :
    c ∉ today.iso := by
  unfold Date.iso
  simp only [List.mem_append, List.mem_singleton, not_or]
  exact ⟨⟨⟨⟨not_mem_paddedNat hc 4 _, hdash⟩, not_mem_paddedNat hc 2 _⟩, hdash⟩,
    not_mem_paddedNat hc 2 _⟩

theorem lines_separator
    (today : Date) :
    lines (separator today) = [separator today] :=
  lines_eq_singleton (lineFeed_not_mem_append
    (lineFeed_not_mem_append (by decide) (not_mem_iso (by decide) (by decide) today)) (by decide))

theorem separator_ne_placeholder
    (today : Date) :
    separator today ≠ placeholder := by
  intro h
  have hcut := congrArg (List.take 6) h
  unfold separator at hcut
  rw [List.append_assoc, List.take_append_of_le_length (by decide)] at hcut
  exact absurd hcut (by decide)

end Separators

section Kept

theorem filter_placeholder_eq_self
    {ls : List Text}
    (h : placeholder ∉ ls) :
    ls.filter (fun line => line != placeholder) = ls := by
  rw [List.filter_eq_self]
  intro line hline
  have hne : line ≠ placeholder := fun heq => h (heq ▸ hline)
  simpa using hne

theorem dropPlaceholders_eq_self
    {t : Text}
    (h : placeholder ∉ lines t) :
    dropPlaceholders t = t := by
  rw [dropPlaceholders, filter_placeholder_eq_self h, join_lines]

/-- Nothing but the line feeds at the end goes from a text without placeholders. -/
theorem kept_append_lineFeeds
    {t u : Text}
    (h : placeholder ∉ lines t)
    (hlast : ∀ c, t.getLast? = some c → c ≠ '\n')
    (hu : ∀ c ∈ u, c = '\n') :
    kept (t ++ u) = t := by
  have hnone : placeholder ∉ lines (t ++ u) := by
    rw [lines_append_of_lineFeeds hu, List.mem_append]
    rintro (hmem | hmem)
    · exact h hmem
    · exact absurd (List.eq_of_mem_replicate hmem) (by decide)
  rw [kept, dropPlaceholders_eq_self hnone, dropEnd_append_of_all (fun c hc => by simp [hu c hc])]
  exact dropEnd_eq_self (fun c hc => by simpa using hlast c hc)

/-- A placeholder at the end of a text goes, with the line feeds before it. -/
theorem kept_append_placeholder
    {t u : Text}
    (h : placeholder ∉ lines t)
    (hlast : ∀ c, t.getLast? = some c → c ≠ '\n')
    (hu : ∀ c ∈ u, c = '\n') :
    kept (t ++ '\n' :: (u ++ (placeholder ++ ['\n']))) = t := by
  have hfeeds : ∀ c ∈ '\n' :: u, c = '\n' := by
    intro c hc
    rcases List.mem_cons.1 hc with rfl | hc
    · rfl
    · exact hu c hc
  have hone : lines (placeholder ++ ['\n']) = [placeholder, []] := by decide
  have hlines : lines (t ++ '\n' :: (u ++ (placeholder ++ ['\n'])))
      = lines t ++ (List.replicate u.length [] ++ [placeholder, []]) := by
    rw [lines_append_cons, lines_lineFeeds_append hu, hone]
  have hfilter : (lines (t ++ '\n' :: (u ++ (placeholder ++ ['\n'])))).filter
      (fun line => line != placeholder) = lines (t ++ '\n' :: u) := by
    have hempty : placeholder ∉ List.replicate u.length ([] : Text) := fun hmem =>
      absurd (List.eq_of_mem_replicate hmem) (by decide)
    have hend : [placeholder, []].filter (fun line => line != placeholder) = [[]] := by decide
    rw [hlines, lines_append_of_lineFeeds hfeeds, List.filter_append, List.filter_append,
      filter_placeholder_eq_self h, filter_placeholder_eq_self hempty, hend, List.length_cons,
      List.replicate_succ']
  have hdropped : dropPlaceholders (t ++ '\n' :: (u ++ (placeholder ++ ['\n'])))
      = t ++ '\n' :: u := by
    rw [dropPlaceholders, hfilter, join_lines]
  rw [kept, hdropped, dropEnd_append_of_all (fun c hc => by simp [hfeeds c hc])]
  exact dropEnd_eq_self (fun c hc => by simpa using hlast c hc)

end Kept

section Sections

/-- The namespaces of some enums. -/
def namespaces (enums : List EnumDecl) : List Text :=
  (group enums).map (fun g => enumNamespace g.1 g.2)

/-- The blocks of some models, with the namespaces of some of the enums before them. -/
def blocksOf (shown enums : List EnumDecl) (optionalMarker : Bool) (models : List TableModel) :
    List Text :=
  namespaces shown ++ models.map (modelBlock enums optionalMarker)

theorem namespaces_ne_nil
    {e : EnumDecl}
    {es : List EnumDecl} :
    namespaces (e :: es) ≠ [] := by
  obtain ⟨names, -, hmem, hgroup⟩ := exists_group_eq (e :: es)
  have hname : e.modelName ∈ names := (hmem _).2 (by simp)
  unfold namespaces
  rw [hgroup]
  simpa using List.ne_nil_of_mem hname

/-- The two sections of a document are its blocks. -/
theorem join_sections
    {enums : List EnumDecl}
    {ts : List Text}
    (h : ts ≠ []) :
    join ['\n', '\n'] (enumSection enums ++ [join ['\n', '\n'] ts])
      = join ['\n', '\n'] (namespaces enums ++ ts) := by
  cases enums with
  | nil =>
      rfl
  | cons e es =>
      have hblank : "\n\n".toList = ['\n', '\n'] := by decide
      have hsection : enumSection (e :: es) = [join ['\n', '\n'] (namespaces (e :: es))] := by
        unfold enumSection enumNamespaces namespaces
        rw [hblank]
      rw [hsection, List.singleton_append, join_cons (List.cons_ne_nil _ _),
        join_append namespaces_ne_nil h]
      rfl

/-- The blocks of a fresh document, or the namespaces and the line that stands for missing
models. -/
def shownBlocks (s : Settings) (models : List TableModel) (enums : List EnumDecl) : List Text :=
  match models with
  | [] => namespaces enums ++ [placeholder]
  | m :: ms => blocksOf enums enums s.optionalMarker.isOn (m :: ms)

theorem body_eq
    (s : Settings)
    (models : List TableModel)
    (enums : List EnumDecl) :
    body s models enums
      = opening s ++ '\n' :: (join ['\n', '\n'] (shownBlocks s models enums) ++ ['\n']) := by
  have hblank : "\n\n".toList = ['\n', '\n'] := by decide
  unfold body
  cases models with
  | nil =>
      have h : join ['\n', '\n'] (enumSection enums ++ [join ['\n', '\n'] [placeholder]])
          = join ['\n', '\n'] (namespaces enums ++ [placeholder]) :=
        join_sections (List.cons_ne_nil placeholder [])
      rw [shownBlocks, ← h]
      rfl
  | cons m ms =>
      have hne : (m :: ms).map (modelBlock enums s.optionalMarker.isOn) ≠ [] :=
        List.cons_ne_nil _ _
      rw [shownBlocks, blocksOf, ← join_sections hne, modelSection, modelBlocks, hblank]

theorem addition_blocks
    {new : List TableModel}
    (h : new ≠ [])
    (today : Date)
    (optionalMarker : Bool)
    (document : Text)
    (enums : List EnumDecl) :
    addition today optionalMarker document new enums
      = '\n' :: (separator today ++ '\n' :: '\n'
        :: (join ['\n', '\n'] (blocksOf (newEnums document new enums) enums optionalMarker new)
          ++ ['\n'])) := by
  have hblank : "\n\n".toList = ['\n', '\n'] := by decide
  have hne : new.map (modelBlock enums optionalMarker) ≠ [] := by
    simpa using h
  have hsections : enumSection (newEnums document new enums)
      ++ [join ['\n', '\n'] (new.map (modelBlock enums optionalMarker))] ≠ [] :=
    List.append_ne_nil_of_right_ne_nil _ (List.cons_ne_nil _ _)
  rw [addition_eq, modelBlocks, hblank, join_cons hsections, join_sections hne]
  simp only [blocksOf, List.append_assoc, List.cons_append, List.nil_append]

end Sections

section Fresh

/-- A block ends with a brace. -/
theorem getLast?_of_isBlock
    {t : Text}
    (h : IsBlock t) :
    t.getLast? = some '\x7d' := by
  obtain ⟨above, opener, inner, hlines, -, -, -⟩ := h
  have hsplit : lines t = (above ++ opener :: inner) ++ [closingLine] := by
    rw [hlines]
    simp
  rw [← join_lines t, hsplit, join_append (by simp) (List.cons_ne_nil _ _), List.append_assoc,
    List.getLast?_append_of_ne_nil _ (by simp)]
  rfl

/-- Joined blocks end with a brace. -/
theorem getLast?_join
    {ts : List Text}
    (hne : ts ≠ [])
    (h : ∀ t ∈ ts, IsBlock t) :
    (join ['\n', '\n'] ts).getLast? = some '\x7d' := by
  induction ts with
  | nil =>
      exact absurd rfl hne
  | cons t ts ih =>
      by_cases hts : ts = []
      · subst hts
        exact getLast?_of_isBlock (h t List.mem_cons_self)
      · have hrest := ih hts (fun u hu => h u (List.mem_cons_of_mem _ hu))
        have hsome : join ['\n', '\n'] ts ≠ [] := by
          intro hnil
          rw [hnil] at hrest
          cases hrest
        rw [join_cons hts, List.getLast?_append_of_ne_nil _ hsome, hrest]

/-- A document up to the end of its blocks. -/
def framed (s : Settings) (ts : List Text) : Text :=
  match ts with
  | [] => opening s
  | t :: ts => opening s ++ '\n' :: join ['\n', '\n'] (t :: ts)

theorem framed_of_ne_nil
    (s : Settings)
    {ts : List Text}
    (h : ts ≠ []) :
    framed s ts = opening s ++ '\n' :: join ['\n', '\n'] ts := by
  obtain ⟨t, ts, rfl⟩ := List.exists_cons_of_ne_nil h
  rfl

variable {s : Settings} {models : List TableModel} {enums shown : List EnumDecl}
variable {optionalMarker : Bool}

theorem isBlock_namespaces
    (h : ∀ e ∈ shown, OneLine (enumTexts e)) :
    ∀ t ∈ namespaces shown, IsBlock t := by
  obtain ⟨names, -, hmem, hgroup⟩ := exists_group_eq shown
  unfold namespaces
  rw [hgroup]
  intro t ht
  obtain ⟨g, hg, rfl⟩ := List.mem_map.1 ht
  obtain ⟨n, hn, rfl⟩ := List.mem_map.1 hg
  obtain ⟨e, he, rfl⟩ := List.mem_map.1 ((hmem n).1 hn)
  refine isBlock_enumNamespace (h e he e.modelName List.mem_cons_self) (fun d hd => ?_)
  exact h d (List.mem_filter.1 hd).1

theorem isBlock_blocksOf
    (hshown : ∀ e ∈ shown, OneLine (enumTexts e))
    (hmodels : ∀ m ∈ models, OneLine (modelTexts m)) :
    ∀ t ∈ blocksOf shown enums optionalMarker models, IsBlock t := by
  intro t ht
  rcases List.mem_append.1 ht with ht | ht
  · exact isBlock_namespaces hshown t ht
  · obtain ⟨m, hm, rfl⟩ := List.mem_map.1 ht
    exact isBlock_modelBlock (hmodels m hm) enums optionalMarker

theorem getLast?_opening
    (s : Settings) :
    (opening s).getLast? = some '\x7b' := by
  unfold opening
  rw [List.getLast?_append_of_ne_nil _ (by decide)]
  decide

theorem getLast?_framed
    {ts : List Text}
    (h : ∀ t ∈ ts, IsBlock t) :
    (framed s ts).getLast? = some '\x7b' ∨ (framed s ts).getLast? = some '\x7d' := by
  cases ts with
  | nil =>
      exact Or.inl (getLast?_opening s)
  | cons t ts =>
      refine Or.inr ?_
      have hlast := getLast?_join (List.cons_ne_nil t ts) h
      unfold framed
      rw [List.getLast?_append_of_ne_nil _ (List.cons_ne_nil _ _), List.getLast?_cons, hlast]
      rfl

theorem placeholder_not_mem_framed
    {ts : List Text}
    (hs : OneLine (settingTexts s))
    (h : ∀ t ∈ ts, IsBlock t) :
    placeholder ∉ lines (framed s ts) := by
  have hopening : placeholder ∉ lines (opening s) := by
    rw [lines_opening hs]
    exact placeholder_not_mem_openingRows s
  cases ts with
  | nil =>
      exact hopening
  | cons t ts =>
      unfold framed
      rw [mem_lines_append, not_or]
      exact ⟨hopening,
        placeholder_not_mem_join (fun u hu => placeholder_not_mem_of_isBlock (h u hu))⟩

/-- Behind the blocks of a fresh document stand line feeds only, or the line that stands for missing
models between line feeds. -/
theorem body_framed
    (s : Settings)
    (models : List TableModel)
    (enums : List EnumDecl) :
    ∃ u, (∀ c ∈ u, c = '\n')
      ∧ (body s models enums = framed s (blocksOf enums enums s.optionalMarker.isOn models) ++ u
        ∨ body s models enums = framed s (blocksOf enums enums s.optionalMarker.isOn models)
          ++ '\n' :: (u ++ (placeholder ++ ['\n']))) := by
  rw [body_eq]
  cases models with
  | nil =>
      have hall : blocksOf enums enums s.optionalMarker.isOn [] = namespaces enums := by
        simp [blocksOf]
      rw [hall]
      cases enums with
      | nil =>
          exact ⟨[], fun c hc => absurd hc List.not_mem_nil, Or.inr rfl⟩
      | cons e es =>
          have hsome : namespaces (e :: es) ≠ [] := namespaces_ne_nil
          refine ⟨['\n'], fun c hc => List.mem_singleton.1 hc, Or.inr ?_⟩
          rw [shownBlocks, join_append hsome (List.cons_ne_nil placeholder []),
            framed_of_ne_nil s hsome]
          simp only [join, List.append_assoc, List.cons_append, List.nil_append]
  | cons m ms =>
      have hne : blocksOf enums enums s.optionalMarker.isOn (m :: ms) ≠ [] := by
        simp [blocksOf]
      refine ⟨['\n'], fun c hc => List.mem_singleton.1 hc, Or.inl ?_⟩
      rw [framed_of_ne_nil s hne, List.append_assoc]
      rfl

/-- Of the body of a fresh document, its opening and its blocks are kept. -/
theorem kept_body
    (hs : OneLine (settingTexts s))
    (hmodels : ∀ m ∈ models, OneLine (modelTexts m))
    (henums : ∀ e ∈ enums, OneLine (enumTexts e)) :
    kept (body s models enums)
      = framed s (blocksOf enums enums s.optionalMarker.isOn models) := by
  have hblocks : ∀ t ∈ blocksOf enums enums s.optionalMarker.isOn models, IsBlock t :=
    isBlock_blocksOf henums hmodels
  have hnone := placeholder_not_mem_framed hs hblocks
  have hlast : ∀ c,
      (framed s (blocksOf enums enums s.optionalMarker.isOn models)).getLast? = some c → c ≠ '\n' := by
    intro c hc
    rcases getLast?_framed hblocks with hbrace | hbrace <;>
      rw [hbrace] at hc <;> rw [← Option.some.inj hc] <;> decide
  obtain ⟨u, hu, hbody | hbody⟩ := body_framed s models enums
  · rw [hbody]
    exact kept_append_lineFeeds hnone hlast hu
  · rw [hbody]
    exact kept_append_placeholder hnone hlast hu

end Fresh

section Extended

variable {t : Text} {new : List TableModel} {enums : List EnumDecl}

/-- The line that stands for missing models is not kept. -/
theorem placeholder_not_mem_kept
    (t : Text) :
    placeholder ∉ lines (kept t) := by
  have hdropped : placeholder ∉ lines (dropPlaceholders t) := by
    unfold dropPlaceholders
    by_cases hnil : (lines t).filter (fun line => line != placeholder) = []
    · rw [hnil]
      decide
    · rw [lines_join hnil
        (fun line hline => lineFeed_not_mem_of_mem_lines (List.mem_filter.1 hline).1)]
      intro hmem
      simpa using (List.mem_filter.1 hmem).2
  obtain ⟨k, hk⟩ := lines_dropPlaceholders t
  rw [hk, List.mem_append, not_or] at hdropped
  exact hdropped.1

/-- An extended document up to the end of its blocks. -/
def extendedFrame (t : Text) (today : Date) (blocks : List Text) : Text :=
  kept t ++ '\n' :: ([] ++ '\n' :: (separator today ++ '\n' :: ([] ++ '\n'
    :: join ['\n', '\n'] blocks)))

theorem extended_eq
    (hnew : new ≠ [])
    (t : Text)
    (today : Date)
    (optionalMarker : Bool)
    (enums : List EnumDecl) :
    extended t today optionalMarker new enums
      = extendedFrame t today
          (blocksOf (newEnums (t ++ closing) new enums) enums optionalMarker new) ++ ['\n'] := by
  unfold extended extendedFrame
  rw [addition_blocks hnew]
  simp only [List.append_assoc, List.cons_append, List.nil_append]

theorem placeholder_not_mem_extendedFrame
    {blocks : List Text}
    (h : ∀ b ∈ blocks, IsBlock b)
    (t : Text)
    (today : Date) :
    placeholder ∉ lines (extendedFrame t today blocks) := by
  have hkept := placeholder_not_mem_kept t
  have hadded : placeholder ∉ lines (join ['\n', '\n'] blocks) :=
    placeholder_not_mem_join (fun b hb => placeholder_not_mem_of_isBlock (h b hb))
  have hempty : placeholder ≠ [] := by decide
  unfold extendedFrame
  simp only [mem_lines_append, lines_separator, lines_nil, List.mem_singleton, not_or]
  exact ⟨hkept, hempty, (separator_ne_placeholder today).symm, hempty, hadded⟩

theorem suffix_extendedFrame
    (t : Text)
    (today : Date)
    (blocks : List Text) :
    join ['\n', '\n'] blocks <:+ extendedFrame t today blocks := by
  refine ⟨kept t ++ ['\n', '\n'] ++ separator today ++ ['\n', '\n'], ?_⟩
  unfold extendedFrame
  simp only [List.append_assoc, List.cons_append, List.nil_append]

theorem getLast?_extendedFrame
    {blocks : List Text}
    (hne : blocks ≠ [])
    (h : ∀ b ∈ blocks, IsBlock b)
    (t : Text)
    (today : Date) :
    (extendedFrame t today blocks).getLast? = some '\x7d' := by
  have hlast := getLast?_join hne h
  have hsome : join ['\n', '\n'] blocks ≠ [] := by
    intro hnil
    rw [hnil] at hlast
    cases hlast
  obtain ⟨before, hframe⟩ := suffix_extendedFrame t today blocks
  rw [← hframe, List.getLast?_append_of_ne_nil _ hsome, hlast]

/-- Of an extended document, all but the line feed at the end is kept. -/
theorem kept_extended
    (hnew : new ≠ [])
    (hmodels : ∀ m ∈ new, OneLine (modelTexts m))
    (henums : ∀ e ∈ enums, OneLine (enumTexts e))
    (t : Text)
    (today : Date)
    (optionalMarker : Bool) :
    kept (extended t today optionalMarker new enums)
      = extendedFrame t today
          (blocksOf (newEnums (t ++ closing) new enums) enums optionalMarker new) := by
  have hne : blocksOf (newEnums (t ++ closing) new enums) enums optionalMarker new ≠ [] :=
    List.append_ne_nil_of_right_ne_nil _ (by simpa using hnew)
  have hblocks : ∀ b ∈ blocksOf (newEnums (t ++ closing) new enums) enums optionalMarker new,
      IsBlock b :=
    isBlock_blocksOf (fun e he => henums e (List.mem_filter.1 he).1) hmodels
  rw [extended_eq hnew]
  refine kept_append_lineFeeds (placeholder_not_mem_extendedFrame hblocks t today) (fun c hc => ?_)
    (fun c hc => List.mem_singleton.1 hc)
  rw [getLast?_extendedFrame hne hblocks] at hc
  rw [← Option.some.inj hc]
  decide

end Extended

end Document
end SchemaSpec
