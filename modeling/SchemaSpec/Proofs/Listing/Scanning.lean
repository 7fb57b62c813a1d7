import SchemaSpec.Proofs.Journal.Steps
import SchemaSpec.Proofs.Text.Lines
import SchemaSpec.Table.Schema

/-!
# Listings one behind the other

A listing is read line by line, and all that a line leaves to the next one is a place.

* `Place.behind`: the place behind some lines; no column is looked at for it.
* `scan_append`: lines are read on from the place behind the lines before them.
* `Registers`: a scanner that overwrites what it keeps only when it needs to; `scan_place` and
  `tables_eq_parse` say that the values left over do not matter.
* `parse_append`: what listings that are put together give.
-/

namespace SchemaSpec
namespace Schema

open Text

/-! ## Places -/

/-- The place behind a trimmed line. -/
def Place.next : Place → Text → Place
  | .outside, line =>
      match Header.open? line with
      | some (tableName, rest) => headerLine tableName [] rest
      | none => .outside
  | .inHeader tableName attributes, line => headerLine tableName attributes line
  | .inBlock header block body, line =>
      if Header.isBlockEnd line then .outside else .inBlock header block (body ++ [line])

/-- The place behind some lines. -/
def Place.behind (p : Place) (ls : List Text) : Place :=
  ls.foldl (fun q line => q.next (trim line)) p

/-- Behind a text, no block and no header is open. -/
def EndsOutside (t : Text) : Prop :=
  Place.outside.behind (lines t) = .outside

section Places

variable {p : Place} {line : Text} {ls ms : List Text}

@[simp] theorem Place.behind_nil : p.behind [] = p := rfl

@[simp] theorem Place.behind_cons :
    p.behind (line :: ls) = (p.next (trim line)).behind ls := rfl

theorem Place.behind_append :
    p.behind (ls ++ ms) = (p.behind ls).behind ms :=
  List.foldl_append

/-- A line that ends a block gives its table, and any other line gives the next place only. -/
theorem step_eq
    (p : Place)
    (line : Text) :
    (∃ header block body, p = .inBlock header block body ∧ Header.isBlockEnd line = true
        ∧ step p line = (blockModel header block body).map (fun m => (some m, p.next line)))
      ∨ step p line = .ok (none, p.next line) := by
  cases p with
  | outside =>
      cases hopen : Header.open? line with
      | none =>
          exact Or.inr (by simp only [step, Place.next, hopen])
      | some start =>
          exact Or.inr (by simp only [step, Place.next, hopen])
  | inHeader tableName attributes =>
      exact Or.inr rfl
  | inBlock header block body =>
      unfold step Place.next
      dsimp only
      by_cases hend : Header.isBlockEnd line = true
      · rw [if_pos hend, if_pos hend]
        exact Or.inl ⟨header, block, body, rfl, hend, rfl⟩
      · rw [if_neg hend, if_neg hend]
        exact Or.inr rfl

/-- The place behind a line does not depend on the columns of a table. -/
theorem place_of_step
    {read : Option TableModel × Place}
    (h : step p line = .ok read) :
    read.2 = p.next line := by
  rcases step_eq p line with ⟨header, block, body, -, -, hstep⟩ | hstep
  · rw [hstep] at h
    cases hmodel : blockModel header block body with
    | error e =>
        rw [hmodel] at h
        cases h
    | ok m =>
        rw [hmodel] at h
        exact congrArg Prod.snd (Except.ok.inj h).symm
  · rw [hstep] at h
    exact congrArg Prod.snd (Except.ok.inj h).symm

theorem place_of_scan
    {read : List TableModel × Place}
    (h : scan p ls = .ok read) :
    read.2 = p.behind ls := by
  induction ls generalizing p read with
  | nil =>
      exact congrArg Prod.snd (Except.ok.inj h).symm
  | cons line ls ih =>
      unfold scan at h
      obtain ⟨here, hhere, h⟩ := except_bind_eq_ok.1 h
      obtain ⟨behind, hbehind, h⟩ := except_bind_eq_ok.1 h
      have hlast := ih hbehind
      obtain rfl := Except.ok.inj h
      rw [Place.behind_cons, ← place_of_step hhere]
      exact hlast

end Places

/-! ## Reading on -/

/-- Lines behind others are read from the place that those lead to. -/
theorem scan_append
    (p : Place)
    (ls ms : List Text) :
    scan p (ls ++ ms) = (do
      let first ← scan p ls
      let rest ← scan first.2 ms
      return (first.1 ++ rest.1, rest.2)) := by
  induction ls generalizing p with
  | nil =>
      simp only [List.nil_append, scan]
      exact (bind_pure _).symm
  | cons line ls ih =>
      simp only [List.cons_append, scan, ih, bind_assoc, pure_bind, List.append_assoc]

/-- A listing behind another one. -/
theorem parse_append_eq
    (a b : Text) :
    parse (a ++ '\n' :: b) = (do
      let first ← parse a
      let rest ← scan (Place.outside.behind (lines a)) (lines b)
      return first ++ rest.1) := by
  unfold parse read
  rw [lines_append_cons, scan_append]
  cases hfirst : scan .outside (lines a) with
  | error e =>
      rfl
  | ok first =>
      rw [← place_of_scan hfirst]
      simp only [bind, Except.bind, Except.map]
      cases scan first.2 (lines b) <;> rfl

/-- A listing behind one that ends outside is read on its own. -/
theorem parse_append_of_endsOutside
    {a : Text}
    (h : EndsOutside a)
    (b : Text) :
    parse (a ++ '\n' :: b) = (do
      let first ← parse a
      let rest ← parse b
      return first ++ rest) := by
  rw [parse_append_eq, h]
  unfold parse read
  cases scan .outside (lines a) with
  | error e =>
      rfl
  | ok first =>
      cases scan .outside (lines b) <;> rfl

theorem EndsOutside.append
    {a b : Text}
    (ha : EndsOutside a)
    (hb : EndsOutside b) :
    EndsOutside (a ++ '\n' :: b) := by
  unfold EndsOutside at ha hb ⊢
  rw [lines_append_cons, Place.behind_append, ha, hb]

/-- A listing without tables in front of another one changes nothing. -/
theorem parse_append_of_empty
    {c : Text}
    (hc : parse c = .ok [])
    (hend : EndsOutside c)
    (b : Text) :
    parse (c ++ '\n' :: b) = parse b := by
  rw [parse_append_of_endsOutside hend, hc]
  simp only [bind, Except.bind]
  cases parse b <;> rfl

/-! ## What the scanner keeps -/

/-- What a scanner keeps between lines.  A value may be left over from an earlier table. -/
structure Registers where
  pendingName : Option Text := none
  pendingAttributes : Text := []
  header : Option Header := none
  block : Text := "t".toList
  body : List Text := []

namespace Registers

/-- The place that counts. -/
def place (r : Registers) : Place :=
  match r.header with
  | some header => .inBlock header r.block r.body
  | none =>
      match r.pendingName with
      | some tableName => .inHeader tableName r.pendingAttributes
      | none => .outside

/-- Lines are kept only of an open block, and no header is pending then. -/
structure Sound (r : Registers) : Prop where
  body : r.header = none → r.body = []
  pendingName : r.header ≠ none → r.pendingName = none

/-- The registers behind a further line of a header. -/
def headerLine (r : Registers) (tableName line : Text) : Registers :=
  match Header.close? line with
  | some (before, block) =>
      { r with
        pendingName := none
        pendingAttributes := r.pendingAttributes ++ ' ' :: before
        header := some (Header.ofAttributes tableName (r.pendingAttributes ++ ' ' :: before))
        block := block }
  | none => { r with pendingAttributes := r.pendingAttributes ++ ' ' :: line }

/-- The table that a trimmed line finishes, if it does, and the registers behind it. -/
def step (r : Registers) (line : Text) : Except LiteralError (Option TableModel × Registers) :=
  match r.header with
  | some header =>
      if Header.isBlockEnd line then
        (blockModel header r.block r.body).map
          (fun m => (some m, { r with header := none, body := [] }))
      else .ok (none, { r with body := r.body ++ [line] })
  | none =>
      match r.pendingName with
      | some tableName => .ok (none, r.headerLine tableName line)
      | none =>
          match Header.open? line with
          | some (tableName, rest) =>
              .ok (none, { r with pendingName := some tableName, pendingAttributes := [] }.headerLine
                tableName rest)
          | none => .ok (none, r)

/-- The tables of lines, and the registers behind them. -/
def scan (r : Registers) : List Text → Except LiteralError (List TableModel × Registers)
  | [] => .ok ([], r)
  | line :: rest => do
      let here ← r.step (trim line)
      let behind ← here.2.scan rest
      return (here.1.toList ++ behind.1, behind.2)

section Agreement

variable {r : Registers}

/-- Behind a line of a header, the registers stand where that line leads to. -/
theorem headerLine_place
    (tableName attributes block line : Text) :
    (headerLine ⟨some tableName, attributes, none, block, []⟩ tableName line).place
        = Schema.headerLine tableName attributes line
      ∧ (headerLine ⟨some tableName, attributes, none, block, []⟩ tableName line).Sound := by
  unfold headerLine Schema.headerLine
  cases Header.close? line with
  | some cut =>
      exact ⟨rfl, ⟨fun _ => rfl, fun _ => rfl⟩⟩
  | none =>
      exact ⟨rfl, ⟨fun _ => rfl, fun h => absurd rfl h⟩⟩

/-- In a block, a line finishes the same table and leads to the same place, whatever is left over in
the registers. -/
theorem step_inBlock
    (attributes block line : Text)
    (header : Header)
    (body : List Text) :
    (step ⟨none, attributes, some header, block, body⟩ line).map (Prod.map id place)
        = Schema.step (.inBlock header block body) line
      ∧ ∀ read, step ⟨none, attributes, some header, block, body⟩ line = .ok read →
        read.2.Sound := by
  by_cases hend : Header.isBlockEnd line = true
  · simp only [step, Schema.step, if_pos hend]
    cases blockModel header block body with
    | error e =>
        exact ⟨rfl, fun read hread => by cases hread⟩
    | ok m =>
        refine ⟨rfl, fun read hread => ?_⟩
        rw [← Except.ok.inj hread]
        exact ⟨fun _ => rfl, fun _ => rfl⟩
  · simp only [step, Schema.step, if_neg hend]
    refine ⟨rfl, fun read hread => ?_⟩
    rw [← Except.ok.inj hread]
    exact ⟨fun hno => absurd hno (Option.some_ne_none header), fun _ => rfl⟩

/-- In no block, a line leads to the same place, whatever is left over in the registers. -/
theorem step_no_block
    (pendingName : Option Text)
    (attributes block line : Text) :
    (step ⟨pendingName, attributes, none, block, []⟩ line).map (Prod.map id place)
        = Schema.step (place ⟨pendingName, attributes, none, block, []⟩) line
      ∧ ∀ read, step ⟨pendingName, attributes, none, block, []⟩ line = .ok read →
        read.2.Sound := by
  cases pendingName with
  | some tableName =>
      obtain ⟨hline, hsound⟩ := headerLine_place tableName attributes block line
      refine ⟨congrArg (fun p => Except.ok (none, p)) hline, fun read hread => ?_⟩
      rw [← Except.ok.inj hread]
      exact hsound
  | none =>
      simp only [step, place, Schema.step]
      cases Header.open? line with
      | none =>
          refine ⟨rfl, fun read hread => ?_⟩
          rw [← Except.ok.inj hread]
          exact ⟨fun _ => rfl, fun _ => rfl⟩
      | some start =>
          -- The attributes left over from an earlier header are dropped here.
          obtain ⟨hline, hsound⟩ := headerLine_place start.1 [] block start.2
          refine ⟨congrArg (fun p => Except.ok (none, p)) hline, fun read hread => ?_⟩
          rw [← Except.ok.inj hread]
          exact hsound

theorem step_place
    (h : r.Sound)
    (line : Text) :
    (r.step line).map (Prod.map id place) = Schema.step r.place line
      ∧ ∀ read, r.step line = .ok read → read.2.Sound := by
  obtain ⟨pendingName, attributes, header, block, body⟩ := r
  cases header with
  | some header =>
      obtain rfl : pendingName = none := h.pendingName (by simp)
      exact step_inBlock attributes block line header body
  | none =>
      obtain rfl : body = [] := h.body rfl
      exact step_no_block pendingName attributes block line

/-- Lines give the same tables and lead to the same place, whatever is left over in the
registers. -/
theorem scan_place
    (h : r.Sound)
    (ls : List Text) :
    (r.scan ls).map (Prod.map id place) = Schema.scan r.place ls := by
  induction ls generalizing r with
  | nil =>
      rfl
  | cons line ls ih =>
      obtain ⟨hstep, hsound⟩ := step_place h (trim line)
      rw [scan, Schema.scan, ← hstep]
      cases hread : r.step (trim line) with
      | error e =>
          rfl
      | ok here =>
          have hrest := ih (hsound here hread)
          simp only [bind, Except.bind, Except.map, Prod.map, ← hrest]
          cases here.2.scan ls <;> rfl

end Agreement

/-- The tables of a listing, read with registers that hold anything from earlier tables. -/
def tables (r : Registers) (listing : Text) : Except LiteralError (List TableModel) :=
  (r.scan (lines listing)).map Prod.fst

/-- Registers that stand outside read a listing as if nothing had been read before. -/
theorem tables_eq_parse
    {r : Registers}
    (h : r.Sound)
    (houtside : r.place = .outside)
    (listing : Text) :
    r.tables listing = parse listing := by
  have hscan := scan_place h (lines listing)
  rw [houtside] at hscan
  unfold tables parse read
  rw [← hscan]
  cases r.scan (lines listing) <;> rfl

end Registers

/-! ## Listings that are put together -/

/-- A listing and more lines behind it.  What the listing gives comes first; and if it ends outside,
the lines behind it are read on their own, and a listing without tables that ends outside can stand
between the two, before them or behind them. -/
theorem parse_append
    (a b : Text) :
    (∀ models, parse (a ++ '\n' :: b) = .ok models →
        ∃ first, parse a = .ok first ∧ first <+: models
          ∧ (EndsOutside a → ∃ rest, parse b = .ok rest ∧ models = first ++ rest))
      ∧ (EndsOutside a → ∀ c, parse c = .ok [] → EndsOutside c →
        parse (a ++ '\n' :: (c ++ '\n' :: b)) = parse (a ++ '\n' :: b)
          ∧ parse (c ++ '\n' :: a) = parse a ∧ parse (a ++ '\n' :: c) = parse a)
      ∧ ∀ r : Registers, r.Sound → r.place = .outside → r.tables b = parse b := by
  refine ⟨fun models h => ?_, fun hend c hc hcend => ⟨?_, ?_, ?_⟩,
    fun r hsound houtside => Registers.tables_eq_parse hsound houtside b⟩
  · have hread := h
    rw [parse_append_eq] at hread
    obtain ⟨first, hfirst, hread⟩ := except_bind_eq_ok.1 hread
    obtain ⟨rest, -, hread⟩ := except_bind_eq_ok.1 hread
    refine ⟨first, hfirst, ⟨rest.1, Except.ok.inj hread⟩, fun hend => ?_⟩
    rw [parse_append_of_endsOutside hend] at h
    obtain ⟨first', hfirst', h⟩ := except_bind_eq_ok.1 h
    obtain ⟨rest, hrest, h⟩ := except_bind_eq_ok.1 h
    obtain rfl := Except.ok.inj (hfirst.symm.trans hfirst')
    exact ⟨rest, hrest, (Except.ok.inj h).symm⟩
  · rw [parse_append_of_endsOutside hend, parse_append_of_endsOutside hend,
      parse_append_of_empty hc hcend]
  · exact parse_append_of_empty hc hcend a
  · rw [parse_append_of_endsOutside hend, hc]
    cases parse a with
    | error e =>
        rfl
    | ok first =>
        simp [bind, Except.bind, pure, Except.pure]

/-- A listing of one table, written with another block variable than the next one. -/
def tagsListing : Text :=
  "create_table 'tags' do |x|\nend".toList

/-- A listing of one table, with a header on two lines. -/
def usersListing : Text :=
  "create_table 'users',\n do |t|\nend".toList

/-- A table that has its key only. -/
def keyTable (name tableName : Text) : TableModel where
  name := name
  tableName := tableName
  primaryKey := some "id".toList
  fields := [{ name := "id".toList, typeName := "int64".toList, nullable := false }]

/-- The two tables one behind the other, with a comment between them. -/
theorem parse_append_tables :
    EndsOutside tagsListing
      ∧ parse usersListing = .ok [keyTable "User".toList "users".toList]
      ∧ parse (tagsListing ++ '\n' :: ("# users".toList ++ '\n' :: usersListing))
        = .ok [keyTable "Tag".toList "tags".toList, keyTable "User".toList "users".toList]
      ∧ Registers.tables ⟨none, "id: false".toList, none, "x".toList, []⟩ usersListing
        = .ok [keyTable "User".toList "users".toList] := by
  have hend : EndsOutside tagsListing := by
    unfold EndsOutside
    decide +kernel
  have hcomment : EndsOutside "# users".toList := by
    unfold EndsOutside
    decide +kernel
  have hboth : parse (tagsListing ++ '\n' :: usersListing)
      = .ok [keyTable "Tag".toList "tags".toList, keyTable "User".toList "users".toList] := by
    decide +kernel
  have htags : parse tagsListing = .ok [keyTable "Tag".toList "tags".toList] := by
    decide +kernel
  obtain ⟨hread, hinsert, hleft⟩ := parse_append tagsListing usersListing
  obtain ⟨first, hfirst, -, hrest⟩ := hread _ hboth
  obtain ⟨users, husers, hsplit⟩ := hrest hend
  obtain rfl := Except.ok.inj (htags.symm.trans hfirst)
  obtain rfl : [keyTable "User".toList "users".toList] = users :=
    (List.cons_eq_cons.1 hsplit).2
  refine ⟨hend, husers, ?_, ?_⟩
  · exact (hinsert hend "# users".toList (by decide +kernel) hcomment).1.trans hboth
  · exact (hleft _ ⟨fun _ => rfl, fun h => absurd rfl h⟩ rfl).trans husers

end Schema
end SchemaSpec
