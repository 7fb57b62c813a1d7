import SchemaSpec.Proofs.Enumeration.Written
import SchemaSpec.Proofs.Options.Tails
import SchemaSpec.Proofs.Listing.Blocks
import SchemaSpec.Proofs.Listing.Failures
import SchemaSpec.Proofs.Listing.HeaderEnds
import SchemaSpec.Proofs.Listing.Renaming

/-!
# Layouts of a header

The header of a table can stand on one line or on several, with its arguments in parentheses or not,
and its block variable can have any name: the table is the same.

* `IsAttribute`: an attribute that can stand in a header.
* `IsLaidOut`: the lines of the arguments of a header, broken behind commas or before `do`.
* `IsTableText`: the lines of a table.
* `exists_isHeaderText`: no line of a header ends it but the last, and between the attributes that are
  read stand the blanks of the layout only.
* `pairs_attributes`: what the attributes say does not depend on these blanks.
* `parse_layout`: the table that is read.
-/

namespace SchemaSpec
namespace Schema

open Text Options EnumDecl

/-! ## Headers as they are written -/

/-- An attribute of a header: trimmed, with no comma outside its strings and groups, and not ending
in `do |w|`. -/
structure IsAttribute (a : Text) : Prop where
  trimmed : trim a = a
  closed : Closed isComma a
  stays_open : Header.close? a = none

/-- Texts with a comma behind each but the last, and a closing behind that; an empty last one is left
out. -/
def argumentTokens (closing : Text) : List Text → List Text
  | [] => []
  | [a] => if a ++ closing = [] then [] else [a ++ closing]
  | a :: b :: r => (a ++ [',']) :: argumentTokens closing (b :: r)

/-- The lines of the tokens of a header, the last of which goes on with `do |t|`.  A line may end
behind each token, and any blanks may stand between them. -/
inductive IsLaidOut (block : Text) : List Text → List Text → Prop
  | last {ws : List Text} {code : Text} :
      Spaced false ws code → (∀ c, code.getLast? = some c → isWord c = false) →
        IsLaidOut block ws [code ++ Header.opensBlock block]
  | line {ws us : List Text} {line : Text} {ls : List Text} :
      Spaced false ws line → IsLaidOut block us ls → IsLaidOut block (ws ++ us) (line :: ls)

/-- What stands between `create_table` and the table name, and behind the last argument: nothing but
blanks, or a pair of parentheses. -/
inductive IsEnclosed : Text → Text → Prop
  | bare {gap : Text} : AllBlank gap → IsEnclosed gap []
  | parenthesised {left right : Text} :
      AllBlank left → AllBlank right → IsEnclosed (left ++ '(' :: right) [')']

/-- The start of a header: the table name in quotes of either form, and what opens its arguments. -/
def headerStart (opening : Text) (quote : Char) (tableName : Text) : Text :=
  "create_table".toList ++ opening ++ quote :: (tableName ++ [quote])

/-- The lines of a table with these attributes, block variable and body, its header written in some
layout. -/
inductive IsTableText (tableName : Text) (attributes : List Text) (block : Text)
    (body : List Text) : List Text → Prop
  | intro {indent opening closing line ending : Text} {quote : Char} {ls : List Text} :
      AllBlank indent → IsEnclosed opening closing → isQuote quote = true →
        IsLaidOut block (argumentTokens closing ([] :: attributes)) (line :: ls) →
        Header.isBlockEnd (trim ending) = true →
        IsTableText tableName attributes block body
          ((indent ++ (headerStart opening quote tableName ++ line)) :: (ls ++ (body ++ [ending])))

/-! ## Lines that do not end a header -/

section Tokens

variable {closing : Text} {ws us as : List Text} {t : Text}

/-- Tokens that do not end a header: each but the last ends in a comma. -/
def StayOpen : List Text → Prop
  | [] => True
  | [w] => Header.close? w = none
  | w :: u :: us => (∃ p, w = p ++ [',']) ∧ StayOpen (u :: us)

/-- A text that ends in a comma or a parenthesis does not end a header. -/
theorem close?_append_singleton
    {c : Char}
    (hc : c = ',' ∨ c = ')')
    (p : Text) :
    Header.close? (p ++ [c]) = none := by
  have hstop : isWord c = false ∧ isBlank c = false ∧ c ≠ '|' := by
    rcases hc with rfl | rfl <;> decide
  exact Header.closeFrom?_append_cons_eq_none hstop.1 hstop.2.1 hstop.2.2 rfl p

theorem StayOpen.cons
    (h : StayOpen us)
    (p : Text) :
    StayOpen ((p ++ [',']) :: us) := by
  cases us with
  | nil =>
      exact close?_append_singleton (Or.inl rfl) p
  | cons u us =>
      exact ⟨⟨p, rfl⟩, h⟩

theorem StayOpen.of_append
    (h : StayOpen (ws ++ us)) :
    StayOpen ws ∧ StayOpen us := by
  induction ws with
  | nil =>
      exact ⟨trivial, h⟩
  | cons w ws ih =>
      cases hrest : ws ++ us with
      | nil =>
          obtain ⟨rfl, rfl⟩ := List.append_eq_nil_iff.1 hrest
          exact ⟨h, trivial⟩
      | cons u vs =>
          rw [List.cons_append, hrest] at h
          obtain ⟨⟨p, rfl⟩, hopen⟩ := h
          rw [← hrest] at hopen
          exact ⟨(ih hopen).1.cons p, (ih hopen).2⟩

/-- A line of such tokens does not end a header. -/
theorem close?_trimEnd_of_spaced
    (hopen : StayOpen ws)
    (hws : ∀ w ∈ ws, IsTrimmed w)
    (h : Spaced false ws t) :
    Header.close? (trimEnd t) = none := by
  induction ws generalizing t with
  | nil =>
      rw [trimEnd_of_allBlank h]
      rfl
  | cons w ws ih =>
      obtain ⟨hw, hrestTrimmed⟩ := List.forall_mem_cons.1 hws
      obtain ⟨gap, rest, rfl, hgap, -, hrest⟩ := h
      have hlast : ∀ c, (gap ++ w).getLast? = some c → isBlank c = false := by
        intro c hc
        rw [List.getLast?_append_of_ne_nil _ hw.1] at hc
        exact not_isBlank_last_of_trim_eq hw.2 hc
      have hline : trimEnd (gap ++ w ++ rest) = gap ++ w ++ trimEnd rest :=
        dropEnd_append_of_last hlast rest
      rw [hline]
      cases ws with
      | nil =>
          rw [trimEnd_of_allBlank hrest, List.append_nil]
          exact Header.closeFrom?_blank_append_eq_none hgap hopen
      | cons u us =>
          obtain ⟨⟨p, rfl⟩, hopen⟩ := hopen
          have hcut : Header.closeFrom? false (gap ++ p ++ ',' :: trimEnd rest) = none :=
            Header.closeFrom?_append_cons_eq_none (by decide) (by decide) (by decide)
              (ih hopen hrestTrimmed hrest) (gap ++ p)
          simpa [Header.close?] using hcut

/-- Nothing or a parenthesis stands behind the last argument. -/
theorem IsEnclosed.closing_eq
    {opening : Text}
    (h : IsEnclosed opening closing) :
    closing = [] ∨ closing = [')'] := by
  cases h with
  | bare _ =>
      exact Or.inl rfl
  | parenthesised _ _ =>
      exact Or.inr rfl

variable (hclosing : closing = [] ∨ closing = [')']) (has : ∀ a ∈ as, IsAttribute a)
include hclosing has

theorem stayOpen_argumentTokens :
    StayOpen (argumentTokens closing as) := by
  fun_induction argumentTokens closing as with
  | case1 =>
      trivial
  | case2 a hnil =>
      trivial
  | case3 a hne =>
      rcases hclosing with rfl | rfl
      · rw [List.append_nil]
        exact (has a List.mem_cons_self).stays_open
      · exact close?_append_singleton (Or.inr rfl) a
  | case4 a b r ih =>
      exact (ih (fun c hc => has c (List.mem_cons_of_mem a hc))).cons a

theorem isTrimmed_argumentTokens :
    ∀ w ∈ argumentTokens closing as, IsTrimmed w := by
  fun_induction argumentTokens closing as with
  | case1 =>
      intro w hw
      cases hw
  | case2 a hnil =>
      intro w hw
      cases hw
  | case3 a hne =>
      intro w hw
      obtain rfl := List.mem_singleton.1 hw
      refine ⟨hne, trim_append_of_trimmed (has a List.mem_cons_self).trimmed ?_⟩
      rcases hclosing with rfl | rfl <;> decide
  | case4 a b r ih =>
      intro w hw
      rcases List.mem_cons.1 hw with rfl | hw
      · exact ⟨by simp, trim_append_of_trimmed (has a List.mem_cons_self).trimmed (by decide)⟩
      · exact ih (fun c hc => has c (List.mem_cons_of_mem a hc)) w hw

end Tokens

section Lines

variable {block line : Text} {ws ls : List Text}

theorem trimStart_append_opensBlock
    (code block : Text) :
    trimStart (code ++ Header.opensBlock block) = trimStart code ++ Header.opensBlock block := by
  by_cases hblank : AllBlank code
  · have hself : trimStart (Header.opensBlock block) = Header.opensBlock block := by
      refine trimStart_eq_self (fun c hc => ?_)
      rw [← Option.some.inj hc]
      decide
    rw [trimStart_append_of_blank hblank, trimStart_of_allBlank hblank, hself]
    rfl
  · have hne : code.dropWhile isBlank ≠ [] := fun hnil => hblank (List.dropWhile_eq_nil_iff.1 hnil)
    unfold trimStart
    rw [List.dropWhile_append]
    simp [hne]

/-- Blanks before the first line of a layout do not matter. -/
theorem IsLaidOut.trimStart
    (hws : ∀ w ∈ ws, IsTrimmed w)
    (h : IsLaidOut block ws (line :: ls)) :
    IsLaidOut block ws (trimStart line :: ls) := by
  cases h with
  | last hcode hword =>
      rename_i code
      rw [trimStart_append_opensBlock]
      refine .last (hcode.trimStart hws) (fun c hc => hword c ?_)
      have hsplit : code.takeWhile isBlank ++ Text.trimStart code = code :=
        List.takeWhile_append_dropWhile
      have hne : Text.trimStart code ≠ [] := by
        intro hnil
        rw [hnil] at hc
        cases hc
      rw [← hsplit, List.getLast?_append_of_ne_nil _ hne]
      exact hc
  | line hline hrest =>
      exact .line (hline.trimStart (fun w hw => hws w (List.mem_append_left _ hw))) hrest

/-- No line of a layout ends the header but the last, and the tokens of the layout are the text of
the attributes, with blanks around them. -/
theorem IsLaidOut.isHeaderText
    (hblock : IsWordRun block)
    (hopen : StayOpen ws)
    (hws : ∀ w ∈ ws, IsTrimmed w)
    (h : IsLaidOut block ws (line :: ls)) :
    ∃ attributes, IsHeaderText block attributes (trimEnd line :: ls.map trim)
      ∧ Spaced false ws attributes ∧ StartsBlank attributes := by
  have hstart : ∀ t : Text, StartsBlank (' ' :: t) := by
    intro t c hc
    rw [← Option.some.inj hc]
    decide
  induction ls generalizing ws line with
  | nil =>
      cases h with
      | line _ hrest =>
          cases hrest
      | last hcode hword =>
          rename_i code
          have hline : trimEnd (code ++ Header.opensBlock block)
              = code ++ Header.opensBlock block := by
            refine dropEnd_eq_self (fun c hc => ?_)
            rw [Header.opensBlock, ← List.append_assoc, List.getLast?_concat] at hc
            rw [← Option.some.inj hc]
            decide
          have hboundary : (code.getLast?.map isWord).getD false = false := by
            cases hlast : code.getLast? with
            | none =>
                rfl
            | some c =>
                exact hword c hlast
          have hclose : Header.close? (code ++ Header.opensBlock block) = some (code, block) :=
            Header.closeFrom?_append hblock hboundary
          rw [hline]
          exact ⟨' ' :: code, .last hclose, hcode.blank_append allBlank_space, hstart code⟩
  | cons next ls ih =>
      cases h with
      | line hline hrest =>
          rename_i ws us
          obtain ⟨hopenLine, hopenRest⟩ := hopen.of_append
          have hwsLine : ∀ w ∈ ws, IsTrimmed w := fun w hw => hws w (List.mem_append_left us hw)
          have hwsRest : ∀ w ∈ us, IsTrimmed w := fun w hw => hws w (List.mem_append_right ws hw)
          obtain ⟨attributes, hheader, hspaced, hblank⟩ :=
            ih hopenRest hwsRest (hrest.trimStart hwsRest)
          have hclose := close?_trimEnd_of_spaced hopenLine hwsLine hline
          have hfirst : Spaced false ws (' ' :: trimEnd line) :=
            (hline.trimEnd hwsLine).blank_append allBlank_space
          exact ⟨' ' :: trimEnd line ++ attributes, .line hclose hheader,
            hfirst.append hspaced hblank, hstart _⟩

end Lines

/-! ## Attributes -/

section Attributes

variable {closing t : Text} {as : List Text}

/-- The attributes as they are read: closing parentheses at the end of the last one are taken for
the end of the arguments. -/
def withoutClosing : List Text → List Text
  | [] => []
  | [a] => [trim (dropEnd (fun c => c == ')') a)]
  | a :: b :: r => a :: withoutClosing (b :: r)

/-- A text without top-level commas is one piece, whether its groups are closed or not. -/
theorem pairs_of_quiet
    (h : Scan.quiet isComma .start t = true) :
    pairs t = [trim t].filterMap pair? := by
  unfold pairs
  rw [splitTopLevel_of_quiet h]
  cases htrim : trim t with
  | nil =>
      rfl
  | cons c r =>
      rfl

theorem pairs_append_cons
    {left : Text}
    (hleft : AllBlank left)
    {a : Text}
    (ha : Closed isComma a)
    (t : Text) :
    pairs (left ++ a ++ ',' :: t) = [trim a].filterMap pair? ++ pairs t := by
  have hclosed : Closed isComma (left ++ a) := (closed_of_allBlank hleft).append ha
  have htrim : trim (left ++ a) = trim a := by
    have hsame := trim_surround hleft allBlank_nil a
    rwa [List.append_nil] at hsame
  unfold pairs splitTopLevel splitTopLevelBy
  rw [pieces_closed_cons hclosed (by decide) (by decide), List.map_cons, htrim]
  cases trim a with
  | nil =>
      rfl
  | cons c r =>
      rw [List.filter_cons_of_pos rfl, ← List.singleton_append, List.filterMap_append]

/-- What the attributes of a header say does not depend on the blanks between them. -/
theorem pairs_attributes
    (hclosing : closing = [] ∨ closing = [')'])
    (has : ∀ a ∈ as, IsAttribute a)
    (h : Spaced false (argumentTokens closing as) t) :
    pairs (dropEnd (fun c => c == ')') (trimEnd t)) = (withoutClosing as).filterMap pair? := by
  have hparenthesis : ∀ c, isBlank c = true → (c == ')') = false := by
    intro c hc
    rw [beq_eq_false_iff_ne]
    rintro rfl
    exact absurd hc (by decide)
  fun_induction argumentTokens closing as generalizing t with
  | case1 =>
      rw [trimEnd_of_allBlank h]
      rfl
  | case2 a hnil =>
      obtain ⟨rfl, -⟩ := List.append_eq_nil_iff.1 hnil
      rw [trimEnd_of_allBlank h]
      rfl
  | case3 a hne =>
      obtain ⟨gap, rest, rfl, hgap, -, hrest⟩ := h
      have ha := has a List.mem_cons_self
      have hkept : trimEnd (gap ++ (a ++ closing) ++ rest) = gap ++ (a ++ closing) := by
        have htoken : trim (a ++ closing) = a ++ closing :=
          trim_append_of_trimmed ha.trimmed (by rcases hclosing with rfl | rfl <;> decide)
        rw [trimEnd_append_of_blank hrest]
        refine dropEnd_eq_self (fun c hc => ?_)
        rw [List.getLast?_append_of_ne_nil _ hne] at hc
        exact not_isBlank_last_of_trim_eq htoken hc
      have hdrop : dropEnd (fun c => c == ')') (gap ++ (a ++ closing))
          = gap ++ dropEnd (fun c => c == ')') a := by
        rw [← List.append_assoc, dropEnd_append_of_all (by rcases hclosing with rfl | rfl <;> simp)]
        exact dropEnd_append_of_last
          (fun c hc => hparenthesis c (hgap c (List.mem_of_getLast? hc))) a
      have hquiet : Scan.quiet isComma .start (dropEnd (fun c => c == ')') a) = true := by
        obtain ⟨u, hu, -⟩ := exists_dropEnd_append (fun c => c == ')') a
        have hwhole := ha.closed.1
        rw [hu, Scan.quiet_append, Bool.and_eq_true] at hwhole
        exact hwhole.1
      have hsurround := pairs_surround hgap allBlank_nil (dropEnd (fun c => c == ')') a)
      rw [List.append_nil] at hsurround
      rw [hkept, hdrop, hsurround, pairs_of_quiet hquiet]
      rfl
  | case4 a b r ih =>
      obtain ⟨gap, rest, rfl, hgap, -, hrest⟩ := h
      obtain ⟨ha, has⟩ := List.forall_mem_cons.1 has
      have hkept : dropEnd (fun c => c == ')') (trimEnd (gap ++ (a ++ [',']) ++ rest))
          = gap ++ a ++ ',' :: dropEnd (fun c => c == ')') (trimEnd rest) := by
        have hcomma : ∀ c, (gap ++ (a ++ [','])).getLast? = some c → c = ',' := by
          intro c hc
          rw [← List.append_assoc, List.getLast?_concat] at hc
          exact (Option.some.inj hc).symm
        have htrim : trimEnd (gap ++ (a ++ [',']) ++ rest)
            = gap ++ (a ++ [',']) ++ trimEnd rest :=
          dropEnd_append_of_last (fun c hc => by rw [hcomma c hc]; decide) rest
        have hdrop := dropEnd_append_of_last (p := fun c => c == ')')
          (fun c hc => by rw [hcomma c hc]; decide) (trimEnd rest)
        rw [htrim, hdrop]
        simp
      have hread : withoutClosing (a :: b :: r) = [a] ++ withoutClosing (b :: r) := rfl
      rw [hkept, pairs_append_cons hgap ha.closed, ha.trimmed, ih has hrest, hread,
        List.filterMap_append]

/-- A header is known by its options. -/
theorem ofAttributes_congr
    {tableName before before' : Text}
    (h : pairs (dropEnd (fun c => c == ')') (trim before))
      = pairs (dropEnd (fun c => c == ')') (trim before'))) :
    Header.ofAttributes tableName before = Header.ofAttributes tableName before' := by
  unfold Header.ofAttributes
  rw [parse_eq_ofPairs, parse_eq_ofPairs, h]

end Attributes

/-! ## Tables -/

section Tables

variable {tableName block listing : Text} {attributes body : List Text}

theorem skipParenthesis_append
    {opening closing t : Text}
    (h : IsEnclosed opening closing)
    (ht : ∀ c, t.head? = some c → isQuote c = true) :
    skipParenthesis (opening ++ t) = t := by
  have hstart : trimStart t = t := by
    refine trimStart_eq_self (fun c hc => ?_)
    have hq := ht c hc
    simp only [isQuote, Bool.or_eq_true, beq_iff_eq] at hq
    rcases hq with rfl | rfl <;> decide
  unfold skipParenthesis
  cases h with
  | bare hgap =>
      rw [trimStart_append_of_blank hgap, hstart]
      split
      · have hq := ht '(' rfl
        cases hq
      · rfl
  | @parenthesised left right hleft hright =>
      have hparen : trimStart (left ++ '(' :: right ++ t) = '(' :: (right ++ t) := by
        rw [List.append_assoc, trimStart_append_of_blank hleft]
        exact trimStart_eq_self (fun c hc => by rw [← Option.some.inj hc]; decide)
      rw [hparen]
      exact (trimStart_append_of_blank hright t).trans hstart

/-- The first line of a table opens a header. -/
theorem open?_headerStart
    {indent opening closing line : Text}
    {quote : Char}
    (hname : Column.IsName tableName)
    (hindent : AllBlank indent)
    (h : IsEnclosed opening closing)
    (hquote : isQuote quote = true)
    (hline : '\n' ∉ line) :
    Header.open? (trim (indent ++ (headerStart opening quote tableName ++ line)))
      = some (tableName, trimEnd line) := by
  have hends : trim [quote] = [quote] := by
    simp only [isQuote, Bool.or_eq_true, beq_iff_eq] at hquote
    rcases hquote with rfl | rfl <;> decide
  have hfront : trim (headerStart opening quote tableName)
      = headerStart opening quote tableName := by
    have hword : trim "create_table".toList = "create_table".toList := by decide
    have htext : headerStart opening quote tableName
        = "create_table".toList ++ (opening ++ quote :: tableName) ++ [quote] := by
      unfold headerStart
      generalize "create_table".toList = word
      simp
    rw [htext]
    exact trim_append_eq_self hword hends (by decide) (List.cons_ne_nil quote []) _
  have htrim : trim (indent ++ (headerStart opening quote tableName ++ line))
      = "create_table".toList ++ (opening ++ (quote :: (tableName ++ quote :: trimEnd line))) := by
    have hsurround := trim_surround hindent allBlank_nil
      (headerStart opening quote tableName ++ line)
    rw [List.append_nil] at hsurround
    have hne : headerStart opening quote tableName ≠ [] := by
      unfold headerStart
      exact List.append_ne_nil_of_right_ne_nil _ (List.cons_ne_nil quote _)
    rw [hsurround, trim_append_of_trimmed_left hfront hne]
    unfold headerStart
    generalize "create_table".toList = word
    simp
  have hafter : after? "create_table".toList
      ("create_table".toList ++ (opening ++ (quote :: (tableName ++ quote :: trimEnd line))))
      = some (opening ++ (quote :: (tableName ++ quote :: trimEnd line))) :=
    after?_eq_some_iff.2 rfl
  have hskip : skipParenthesis (opening ++ (quote :: (tableName ++ quote :: trimEnd line)))
      = quote :: (tableName ++ quote :: trimEnd line) :=
    skipParenthesis_append h (fun c hc => by rwa [← Option.some.inj hc])
  have hrest : (trimEnd line).contains '\n' = false := by
    simpa using fun hmem => hline (trimEnd_subset line hmem)
  unfold Header.open?
  rw [htrim, hafter]
  simp only [Option.bind_eq_bind, Option.bind_some, hskip,
    Column.quotedName?_append hquote hname, hrest]
  rfl

theorem ofLines_map_trim
    (block : Text)
    (body : List Text) :
    Column.ofLines block (body.map trim) = Column.ofLines block body := by
  have hline : ∀ line, Column.ofLine block (trim line) = Column.ofLine block line := by
    intro line
    unfold Column.ofLine
    rw [trim_trim]
  induction body with
  | nil =>
      rfl
  | cons line body ih =>
      rw [List.map_cons, Column.ofLines, Column.ofLines, hline, ih]

/-- The lines of a table are read as one table, of which the attributes are known. -/
theorem exists_parse_of_isTableText
    (hname : Column.IsName tableName)
    (hattributes : ∀ a ∈ attributes, IsAttribute a)
    (hblock : IsWordRun block)
    (hbody : ∀ line ∈ body, Header.isBlockEnd (trim line) = false)
    (h : IsTableText tableName attributes block body (lines listing)) :
    ∃ before, pairs (dropEnd (fun c => c == ')') (trim before))
          = (withoutClosing ([] :: attributes)).filterMap pair?
      ∧ parse listing
        = (blockModel (Header.ofAttributes tableName before) block body).map (fun m => [m]) := by
  generalize hlines : lines listing = ls at h
  obtain ⟨hindent, henclosed, hquote, hlayout, hending⟩ := h
  rename_i indent opening closing line ending quote header
  have hline : '\n' ∉ line := by
    intro hmem
    have hfirst : indent ++ (headerStart opening quote tableName ++ line) ∈ lines listing := by
      rw [hlines]
      exact List.mem_cons_self
    exact lineFeed_not_mem_of_mem_lines hfirst (by simp [hmem])
  have hopen := open?_headerStart hname hindent henclosed hquote hline
  have hnil : IsAttribute [] := ⟨rfl, closed_of_allBlank allBlank_nil, rfl⟩
  have hall : ∀ a ∈ [] :: attributes, IsAttribute a := List.forall_mem_cons.2 ⟨hnil, hattributes⟩
  have hclosing := henclosed.closing_eq
  have htrimmed := isTrimmed_argumentTokens hclosing hall
  obtain ⟨before, hheader, hspaced, -⟩ :=
    hlayout.isHeaderText hblock (stayOpen_argumentTokens hclosing hall) htrimmed
  refine ⟨before, pairs_attributes hclosing hall (hspaced.trimStart htrimmed), ?_⟩
  have hwritten : TableBlock.IsWritten ⟨tableName, before, block, body.map trim⟩ (lines listing) := by
    rw [hlines]
    exact .intro hopen hheader rfl hbody hending
  have htables := FallsInto.table hwritten .nil
  rw [List.append_nil] at htables
  have hmodel : TableBlock.model ⟨tableName, before, block, body.map trim⟩
      = blockModel (Header.ofAttributes tableName before) block body := by
    unfold TableBlock.model blockModel
    rw [ofLines_map_trim]
  rw [parse_eq_mapM htables, List.mapM_cons, List.mapM_nil, hmodel]
  cases blockModel (Header.ofAttributes tableName before) block body <;> rfl

/-- A table with a name is read the same whatever the layout of its header and the name of its block
variable: there is exactly one table, unless a column of the block has an oversized default.  Then every
layout fails on it. -/
theorem parse_layout
    {v w listing' : Text}
    {body' : List Text}
    (hname : Column.IsName tableName)
    (hattributes : ∀ a ∈ attributes, IsAttribute a)
    (hv : IsWordRun v)
    (hw : IsWordRun w)
    (hnew : w = v ∨ w ≠ "end".toList)
    (hbody : ∀ line ∈ body, Header.isBlockEnd (trim line) = false)
    (hrenamed : List.Forall₂ (Column.IsRenamed v w) body body')
    (h : IsTableText tableName attributes v body (lines listing))
    (h' : IsTableText tableName attributes w body' (lines listing')) :
    ∃ read : Except LiteralError TableModel,
      parse listing = read.map (fun m => [m]) ∧ parse listing' = read.map (fun m => [m])
        ∧ ((∃ m, read = .ok m) ↔ ∀ line ∈ body, ∀ n, ¬ Column.IsOversizedColumn v line n)
        ∧ ∀ e, read = .error e → ∃ line ∈ body, Column.IsOversizedColumn v line e.digits := by
  have hbody' : ∀ line ∈ body', Header.isBlockEnd (trim line) = false := by
    clear h h'
    induction hrenamed with
    | nil =>
        intro line hline
        cases hline
    | cons hline _ ih =>
        obtain ⟨hopen, hrest⟩ := List.forall_mem_cons.1 hbody
        exact List.forall_mem_cons.2 ⟨Column.isBlockEnd_renamed hw hnew hline hopen, ih hrest⟩
  obtain ⟨before, hpairs, hread⟩ := exists_parse_of_isTableText hname hattributes hv hbody h
  obtain ⟨before', hpairs', hread'⟩ := exists_parse_of_isTableText hname hattributes hw hbody' h'
  have hheader : Header.ofAttributes tableName before' = Header.ofAttributes tableName before :=
    ofAttributes_congr (hpairs'.trans hpairs.symm)
  have hcolumns := Column.ofLines_renamed hv hw hrenamed
  refine ⟨blockModel (Header.ofAttributes tableName before) v body, hread, ?_, ?_⟩
  · rw [hread', hheader, blockModel, blockModel, hcolumns]
  unfold blockModel
  cases hlines : Column.ofLines v body with
  | ok columns =>
      refine ⟨iff_of_true ⟨_, rfl⟩ (fun line hline n hsize => ?_), fun e he => by cases he⟩
      have hfails : Column.ofLine v line = .error ⟨n⟩ := Column.ofLine_eq_error_iff.2 hsize
      obtain ⟨e, he⟩ := Column.ofLines_eq_error_of_mem hline hfails
      rw [hlines] at he
      cases he
  | error e =>
      obtain ⟨line, hline, hfails⟩ := Column.exists_of_ofLines_eq_error hlines
      have hsize := Column.ofLine_eq_error_iff.1 hfails
      refine ⟨iff_of_false ?_ (fun hnone => hnone line hline e.digits hsize), fun d hd => ?_⟩
      · rintro ⟨m, hm⟩
        cases hm
      · rw [← Except.error.inj hd]
        exact ⟨line, hline, hsize⟩

/-- A table with its header on one line. -/
def teamsLine : Text :=
  "create_table 'teams', id: :uuid, comment: 'a, b' do |t|
  t.string 'name'
  # all teams
end".toList

/-- The table with its header on three lines, and with another block variable. -/
def teamsLines : Text :=
  "create_table(\x22teams\x22,
  id: :uuid, comment: 'a, b')
  do |row|
  row.string 'name'
  # all teams
end".toList

/-- The attributes of this table. -/
def teamsAttributes : List Text :=
  ["id: :uuid".toList, "comment: 'a, b'".toList]

theorem isAttribute_teams :
    ∀ a ∈ teamsAttributes, IsAttribute a := by
  intro a ha
  rcases List.mem_cons.1 ha with rfl | ha
  · exact ⟨by decide, ⟨by decide, by decide⟩, by decide⟩
  · obtain rfl := List.mem_singleton.1 ha
    exact ⟨by decide, ⟨by decide, by decide⟩, by decide⟩

theorem isTableText_teamsLine :
    IsTableText "teams".toList teamsAttributes "t".toList
      ["  t.string 'name'".toList, "  # all teams".toList] (lines teamsLine) := by
  have hlines : lines teamsLine
      = ([] ++ (headerStart [' '] '\x27' "teams".toList
          ++ (", id: :uuid, comment: 'a, b' ".toList ++ Header.opensBlock "t".toList)))
        :: ([] ++ (["  t.string 'name'".toList, "  # all teams".toList] ++ ["end".toList])) := by
    decide +kernel
  have hspaced : Spaced false (argumentTokens [] ([] :: teamsAttributes))
      ", id: :uuid, comment: 'a, b' ".toList :=
    ⟨[], " id: :uuid, comment: 'a, b' ".toList, by decide, by decide, by simp,
      [' '], " comment: 'a, b' ".toList, by decide, by decide, by simp,
      [' '], [' '], by decide, by decide, by simp, allBlank_space⟩
  have hlast : ∀ c, ", id: :uuid, comment: 'a, b' ".toList.getLast? = some c → isWord c = false := by
    intro c hc
    rw [← Option.some.inj hc]
    decide
  rw [hlines]
  exact .intro (by decide) (.bare allBlank_space) (by decide) (.last hspaced hlast) (by decide)

theorem isTableText_teamsLines :
    IsTableText "teams".toList teamsAttributes "row".toList
      ["  row.string 'name'".toList, "  # all teams".toList] (lines teamsLines) := by
  have hlines : lines teamsLines
      = ([] ++ (headerStart ([] ++ '(' :: []) '\x22' "teams".toList ++ [',']))
        :: (["  id: :uuid, comment: 'a, b')".toList, "  ".toList ++ Header.opensBlock "row".toList]
          ++ (["  row.string 'name'".toList, "  # all teams".toList] ++ ["end".toList])) := by
    decide +kernel
  have hfirst : Spaced false [[',']] [','] :=
    ⟨[], [], by decide, by decide, by simp, allBlank_nil⟩
  have hsecond : Spaced false ["id: :uuid,".toList, "comment: 'a, b')".toList]
      "  id: :uuid, comment: 'a, b')".toList :=
    ⟨"  ".toList, " comment: 'a, b')".toList, by decide, by decide, by simp,
      [' '], [], by decide, by decide, by simp, allBlank_nil⟩
  have hblank : Spaced false [] "  ".toList := (by decide : AllBlank "  ".toList)
  have htokens : argumentTokens [')'] ([] :: teamsAttributes)
      = [[',']] ++ (["id: :uuid,".toList, "comment: 'a, b')".toList] ++ []) := by
    decide
  have hlayout : IsLaidOut "row".toList (argumentTokens [')'] ([] :: teamsAttributes))
      [[','], "  id: :uuid, comment: 'a, b')".toList,
        "  ".toList ++ Header.opensBlock "row".toList] := by
    have hlast : ∀ c, "  ".toList.getLast? = some c → isWord c = false := by
      intro c hc
      rw [← Option.some.inj hc]
      decide
    rw [htokens]
    exact .line hfirst (.line hsecond (.last hblank hlast))
  rw [hlines]
  exact .intro (by decide) (.parenthesised allBlank_nil allBlank_nil) (by decide) hlayout (by decide)

theorem parse_layout_teams :
    ∃ m, parse teamsLine = .ok [m] ∧ parse teamsLines = .ok [m] := by
  have hrenamed : List.Forall₂ (Column.IsRenamed "t".toList "row".toList)
      ["  t.string 'name'".toList, "  # all teams".toList]
      ["  row.string 'name'".toList, "  # all teams".toList] := by
    have hstart : ∀ rest, trim "  # all teams".toList ≠ "row".toList ++ '.' :: rest := by
      intro rest hrest
      have hhead := congrArg List.head? hrest
      rw [List.head?_append_of_ne_nil _ (by decide)] at hhead
      exact absurd hhead (by decide)
    have hnamed : Column.IsRenamed "t".toList "row".toList
        ("  ".toList ++ "t".toList ++ '.' :: "string 'name'".toList)
        ("  ".toList ++ "row".toList ++ '.' :: "string 'name'".toList) :=
      .named (by decide)
    exact .cons hnamed (.cons (.other (by decide) hstart) .nil)
  obtain ⟨read, hread, hread', hsize, -⟩ := parse_layout (by decide) isAttribute_teams
    (by decide : IsWordRun "t".toList) (by decide : IsWordRun "row".toList) (Or.inr (by decide))
    (by decide) hrenamed isTableText_teamsLine isTableText_teamsLines
  obtain ⟨m, rfl⟩ := hsize.2 (by
    intro line hline n hsize
    have hfails : Column.ofLine "t".toList line = .error ⟨n⟩ :=
      Column.ofLine_eq_error_iff.2 hsize
    simp only [List.mem_cons, List.not_mem_nil, or_false] at hline
    rcases hline with rfl | rfl <;> cases hfails)
  exact ⟨m, hread, hread'⟩

/-! A header without a table name is none, and then a later line of it can start another table. -/

/-- A table without a name, its header on one line. -/
def namelessLine : Text :=
  "create_table '', create_table 'x' do |t|\nend".toList

/-- The table without a name, its header on two lines. -/
def namelessLines : Text :=
  "create_table '',\ncreate_table 'x' do |t|\nend".toList

theorem parse_layout_nameless :
    (∀ a ∈ ["create_table 'x'".toList], IsAttribute a)
      ∧ IsTableText [] ["create_table 'x'".toList] "t".toList [] (lines namelessLine)
      ∧ IsTableText [] ["create_table 'x'".toList] "t".toList [] (lines namelessLines)
      ∧ parse namelessLine = .ok []
      ∧ parse namelessLines = .ok [keyTable "X".toList "x".toList] := by
  have hline : lines namelessLine
      = ([] ++ (headerStart [' '] '\x27' []
          ++ (", create_table 'x' ".toList ++ Header.opensBlock "t".toList)))
        :: ([] ++ ([] ++ ["end".toList])) := by
    decide +kernel
  have hlines : lines namelessLines
      = ([] ++ (headerStart [' '] '\x27' [] ++ [',']))
        :: (["create_table 'x' ".toList ++ Header.opensBlock "t".toList]
          ++ ([] ++ ["end".toList])) := by
    decide +kernel
  have hwhole : Spaced false (argumentTokens [] ([] :: ["create_table 'x'".toList]))
      ", create_table 'x' ".toList :=
    ⟨[], " create_table 'x' ".toList, by decide, by decide, by simp,
      [' '], [' '], by decide, by decide, by simp, allBlank_space⟩
  have hfirst : Spaced false [[',']] [','] :=
    ⟨[], [], by decide, by decide, by simp, allBlank_nil⟩
  have hsecond : Spaced false ["create_table 'x'".toList] "create_table 'x' ".toList :=
    ⟨[], [' '], by decide, by decide, by simp, allBlank_space⟩
  have hblank : isWord ' ' = false := by decide
  have hlayout : IsLaidOut "t".toList ([[',']] ++ ["create_table 'x'".toList])
      [[','], "create_table 'x' ".toList ++ Header.opensBlock "t".toList] :=
    .line hfirst (.last hsecond (fun c hc => Option.some.inj hc ▸ hblank))
  refine ⟨?_, ?_, ?_, by decide +kernel, by decide +kernel⟩
  · intro a ha
    obtain rfl := List.mem_singleton.1 ha
    exact ⟨by decide, ⟨by decide, by decide⟩, by decide⟩
  · rw [hline]
    exact .intro (by decide) (.bare allBlank_space) (by decide)
      (.last hwhole (fun c hc => Option.some.inj hc ▸ hblank)) (by decide)
  · rw [hlines]
    exact .intro (by decide) (.bare allBlank_space) (by decide) hlayout (by decide)

end Tables

end Schema
end SchemaSpec
