import SchemaSpec.Proofs.Listing.Scanning

/-!
# The blocks of a listing

The lines of a listing fall into tables and other lines.  A table starts with a line that opens a
header and goes on to the first line that ends the header; behind it stands its block, up to the
first line that ends a block.  A table that is not finished at the end of the listing is none.

* `TableBlock`: a table as it stands in a listing, with nothing read of it yet.
* `FallsInto`: the tables of some lines, in their order; `exists_fallsInto` says that all lines fall
  into tables.
* `scan_isWritten`: what the lines of one table give, and where they lead to.
* `parse_eq_mapM`: a listing is read table by table.
-/

namespace SchemaSpec
namespace Schema

open Text

/-- A table as it stands in a listing: its name, the text of its attributes, its block variable, and
the trimmed lines of its block. -/
structure TableBlock where
  tableName : Text
  attributes : Text
  block : Text
  body : List Text

/-- The table that is read. -/
def TableBlock.model (b : TableBlock) : Except LiteralError TableModel :=
  blockModel (Header.ofAttributes b.tableName b.attributes) b.block b.body

/-- The lines of a header from behind its table name on, up to the one that ends it, and the text of
the attributes on them, with a space before each line. -/
inductive IsHeaderText (block : Text) : Text → List Text → Prop
  | last {line before : Text} :
      Header.close? line = some (before, block) → IsHeaderText block (' ' :: before) [line]
  | line {line attributes : Text} {ls : List Text} :
      Header.close? line = none → IsHeaderText block attributes ls →
        IsHeaderText block (' ' :: line ++ attributes) (line :: ls)

/-- The lines of a table: those of its header, those of its block, and the one that ends it. -/
inductive TableBlock.IsWritten (b : TableBlock) : List Text → Prop
  | intro {opening rest ending : Text} {header body : List Text} :
      Header.open? (trim opening) = some (b.tableName, rest) →
        IsHeaderText b.block b.attributes (rest :: header.map trim) → body.map trim = b.body →
        (∀ line ∈ body, Header.isBlockEnd (trim line) = false) →
        Header.isBlockEnd (trim ending) = true →
        b.IsWritten (opening :: (header ++ (body ++ [ending])))

/-- Lines that start a table and do not finish it: no line ends its header, or none its block. -/
inductive IsUnfinished : List Text → Prop
  | inHeader {opening tableName rest : Text} {header : List Text} :
      Header.open? (trim opening) = some (tableName, rest) →
        (∀ line ∈ rest :: header.map trim, Header.close? line = none) →
        IsUnfinished (opening :: header)
  | inBlock {opening tableName rest block attributes : Text} {header body : List Text} :
      Header.open? (trim opening) = some (tableName, rest) →
        IsHeaderText block attributes (rest :: header.map trim) →
        (∀ line ∈ body, Header.isBlockEnd (trim line) = false) →
        IsUnfinished (opening :: (header ++ body))

/-- The tables that lines fall into, in their order; all other lines are passed over. -/
inductive FallsInto : List Text → List TableBlock → Prop
  | nil : FallsInto [] []
  | aside {line : Text} {ls : List Text} {bs : List TableBlock} :
      Header.open? (trim line) = none → FallsInto ls bs → FallsInto (line :: ls) bs
  | table {b : TableBlock} {bs : List TableBlock} {ts ls : List Text} :
      b.IsWritten ts → FallsInto ls bs → FallsInto (ts ++ ls) (b :: bs)
  | unfinished {ls : List Text} : IsUnfinished ls → FallsInto ls []

/-! ## All lines fall into tables -/

section Existence

variable {ls : List Text}

/-- A header ends at a line, or at none. -/
theorem exists_isHeaderText
    (line : Text)
    (ls : List Text) :
    (∀ l ∈ line :: ls.map trim, Header.close? l = none)
      ∨ ∃ header behind block attributes, ls = header ++ behind
        ∧ IsHeaderText block attributes (line :: header.map trim) := by
  induction ls generalizing line with
  | nil =>
      cases hclose : Header.close? line with
      | none =>
          exact Or.inl (by simp [hclose])
      | some cut =>
          exact Or.inr ⟨[], [], cut.2, ' ' :: cut.1, rfl, .last hclose⟩
  | cons next ls ih =>
      cases hclose : Header.close? line with
      | some cut =>
          exact Or.inr ⟨[], next :: ls, cut.2, ' ' :: cut.1, rfl, .last hclose⟩
      | none =>
          rcases ih (trim next) with hall | ⟨header, behind, block, attributes, rfl, hheader⟩
          · exact Or.inl (List.forall_mem_cons.2 ⟨hclose, hall⟩)
          · exact Or.inr ⟨next :: header, behind, block, ' ' :: line ++ attributes, rfl,
              .line hclose hheader⟩

/-- A block ends at a line, or at none. -/
theorem exists_body
    (ls : List Text) :
    (∀ line ∈ ls, Header.isBlockEnd (trim line) = false)
      ∨ ∃ body ending behind, ls = body ++ ending :: behind
        ∧ (∀ line ∈ body, Header.isBlockEnd (trim line) = false)
        ∧ Header.isBlockEnd (trim ending) = true := by
  induction ls with
  | nil =>
      exact Or.inl (by simp)
  | cons line ls ih =>
      cases hend : Header.isBlockEnd (trim line) with
      | true =>
          exact Or.inr ⟨[], line, ls, rfl, by simp, hend⟩
      | false =>
          rcases ih with hall | ⟨body, ending, behind, rfl, hbody, hending⟩
          · exact Or.inl (List.forall_mem_cons.2 ⟨hend, hall⟩)
          · exact Or.inr ⟨line :: body, ending, behind, rfl,
              List.forall_mem_cons.2 ⟨hend, hbody⟩, hending⟩

/-- All lines fall into tables. -/
theorem exists_fallsInto
    (ls : List Text) :
    ∃ bs, FallsInto ls bs := by
  -- What stands behind a table has fewer lines.
  induction hn : ls.length using Nat.strongRecOn generalizing ls with
  | ind n ih =>
      cases ls with
      | nil =>
          exact ⟨[], .nil⟩
      | cons opening ls =>
          have hshorter : ∀ behind : List Text, behind.length ≤ ls.length →
              ∃ bs, FallsInto behind bs := by
            intro behind hle
            refine ih behind.length ?_ behind rfl
            rw [← hn, List.length_cons]
            omega
          cases hopen : Header.open? (trim opening) with
          | none =>
              obtain ⟨bs, hbs⟩ := hshorter ls (Nat.le_refl _)
              exact ⟨bs, .aside hopen hbs⟩
          | some start =>
              obtain ⟨tableName, rest⟩ := start
              rcases exists_isHeaderText rest ls with hall | ⟨header, lines, block, attributes, rfl, hheader⟩
              · exact ⟨[], .unfinished (.inHeader hopen hall)⟩
              rcases exists_body lines with hall | ⟨body, ending, behind, rfl, hbody, hending⟩
              · exact ⟨[], .unfinished (.inBlock hopen hheader hall)⟩
              obtain ⟨bs, hbs⟩ := hshorter behind (by simp; omega)
              have hwritten : TableBlock.IsWritten ⟨tableName, attributes, block, body.map trim⟩
                  (opening :: (header ++ (body ++ [ending]))) :=
                .intro hopen hheader rfl hbody hending
              refine ⟨⟨tableName, attributes, block, body.map trim⟩ :: bs, ?_⟩
              simpa using FallsInto.table hwritten hbs

end Existence

/-! ## Tables are read one by one -/

section Reading

variable {tableName attributes block line : Text} {ls header body : List Text}

/-- What a line without a table gives is what the lines behind it give. -/
theorem scan_cons_of_none
    {p q : Place}
    (h : step p (trim line) = .ok (none, q)) :
    scan p (line :: ls) = scan q ls := by
  rw [scan, h]
  simp only [bind, Except.bind]
  cases scan q ls <;> rfl

/-- Behind the lines of a header, its block is open. -/
theorem scan_isHeaderText
    (h : IsHeaderText block attributes (line :: header.map trim))
    (before : Text)
    (ls : List Text) :
    scan (headerLine tableName before line) (header ++ ls)
      = scan (.inBlock (Header.ofAttributes tableName (before ++ attributes)) block []) ls := by
  induction header generalizing line before attributes with
  | nil =>
      cases h with
      | last hclose =>
          rw [headerLine, hclose]
          rfl
      | line _ hrest =>
          cases hrest
  | cons next header ih =>
      cases h with
      | line hclose hrest =>
          have hstep : step (.inHeader tableName (before ++ ' ' :: line)) (trim next)
              = .ok (none, headerLine tableName (before ++ ' ' :: line) (trim next)) := rfl
          rw [headerLine, hclose, List.cons_append, scan_cons_of_none hstep, ih hrest]
          simp

/-- A block keeps its lines, trimmed. -/
theorem scan_body
    {header : Header}
    (h : ∀ line ∈ body, Header.isBlockEnd (trim line) = false)
    (kept : List Text) :
    scan (.inBlock header block kept) (body ++ ls)
      = scan (.inBlock header block (kept ++ body.map trim)) ls := by
  induction body generalizing kept with
  | nil =>
      rw [List.map_nil, List.append_nil, List.nil_append]
  | cons line body ih =>
      obtain ⟨hline, hrest⟩ := List.forall_mem_cons.1 h
      have hstep : step (.inBlock header block kept) (trim line)
          = .ok (none, .inBlock header block (kept ++ [trim line])) := by
        rw [step, hline]
        rfl
      rw [List.cons_append, scan_cons_of_none hstep, ih hrest]
      simp

/-- The lines of a table give its model, and the lines behind them are read on their own. -/
theorem scan_isWritten
    {b : TableBlock}
    {ts : List Text}
    (h : b.IsWritten ts)
    (ls : List Text) :
    scan .outside (ts ++ ls) = (do
      let m ← b.model
      let behind ← scan .outside ls
      return (m :: behind.1, behind.2)) := by
  obtain ⟨hopen, hheader, hbody, hinside, hending⟩ := h
  rename_i opening rest ending header body
  have hstep : step .outside (trim opening) = .ok (none, headerLine b.tableName [] rest) := by
    rw [step, hopen]
  have hend : ∀ h kept, step (.inBlock h b.block kept) (trim ending)
      = (blockModel h b.block kept).map (fun m => (some m, .outside)) := by
    intro h kept
    rw [step, hending]
    rfl
  rw [List.cons_append, scan_cons_of_none hstep, List.append_assoc, scan_isHeaderText hheader,
    List.append_assoc, scan_body hinside, List.nil_append, List.nil_append, hbody,
    List.singleton_append, scan, hend, TableBlock.model]
  cases blockModel (Header.ofAttributes b.tableName b.attributes) b.block b.body with
  | error e =>
      rfl
  | ok m =>
      rfl

/-- A table that is not finished gives none. -/
theorem scan_isUnfinished
    (h : IsUnfinished ls) :
    (scan .outside ls).map Prod.fst = .ok [] := by
  cases h with
  | @inHeader opening tableName rest header hopen hheader =>
      have hstep : step .outside (trim opening) = .ok (none, headerLine tableName [] rest) := by
        rw [step, hopen]
      have hrest : ∀ before, (scan (headerLine tableName before rest) header).map Prod.fst
          = .ok [] := by
        clear hstep hopen
        induction header generalizing rest with
        | nil =>
            intro before
            rfl
        | cons next header ih =>
            intro before
            obtain ⟨hclose, hnext⟩ := List.forall_mem_cons.1 hheader
            have hstep : step (.inHeader tableName (before ++ ' ' :: rest)) (trim next)
                = .ok (none, headerLine tableName (before ++ ' ' :: rest) (trim next)) := rfl
            rw [headerLine, hclose, scan_cons_of_none hstep]
            exact ih hnext _
      rw [scan_cons_of_none hstep]
      exact hrest []
  | @inBlock opening tableName rest block attributes header body hopen hheader hbody =>
      have hstep : step .outside (trim opening) = .ok (none, headerLine tableName [] rest) := by
        rw [step, hopen]
      have hinside : scan (.inBlock (Header.ofAttributes tableName ([] ++ attributes)) block [])
          (body ++ []) = _ :=
        scan_body hbody []
      rw [List.append_nil] at hinside
      rw [scan_cons_of_none hstep, scan_isHeaderText hheader, hinside]
      rfl

/-- Lines are read table by table. -/
theorem scan_fallsInto
    {bs : List TableBlock}
    (h : FallsInto ls bs) :
    (scan .outside ls).map Prod.fst = bs.mapM TableBlock.model := by
  induction h with
  | nil =>
      rfl
  | aside hopen _ ih =>
      have hstep : ∀ line, Header.open? (trim line) = none →
          step .outside (trim line) = .ok (none, .outside) := by
        intro line hline
        rw [step, hline]
      rw [scan_cons_of_none (hstep _ hopen), ih]
  | @table b bs ts ls hwritten _ ih =>
      rw [scan_isWritten hwritten, List.mapM_cons, ← ih]
      cases b.model with
      | error e =>
          rfl
      | ok m =>
          cases scan .outside ls <;> rfl
  | unfinished h =>
      exact scan_isUnfinished h

/-- A listing is read table by table. -/
theorem parse_eq_mapM
    {listing : Text}
    {bs : List TableBlock}
    (h : FallsInto (lines listing) bs) :
    parse listing = bs.mapM TableBlock.model :=
  scan_fallsInto h

end Reading

end Schema
end SchemaSpec
