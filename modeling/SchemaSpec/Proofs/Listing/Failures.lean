import SchemaSpec.Proofs.Options.Literals
import SchemaSpec.Proofs.Options.Spellings
import SchemaSpec.Proofs.Listing.Fronts
import SchemaSpec.Proofs.Listing.Scanning

/-!
# When a listing has no tables

Reading a listing goes wrong in one way only: a column in a closed block has an integer default with
too many digits.

* `ofParts_eq_error_iff`, `ofLine_eq_error_iff`: the lines that have no columns for that reason.
* `exists_of_scan_eq_error`, `scan_eq_error_of_step`: what a run over lines fails at.
* `parse_eq_error_iff`: the listings that fail, and with what.
-/

namespace SchemaSpec

open Text Options

namespace Column

/-- A column line whose last default is an integer of a number of digits, more than a literal may
have. -/
def IsOversizedColumn (block line : Text) (n : Nat) : Prop :=
  ∃ kind name tail left raw right,
    columnParts? block line = some (kind, name, tail) ∧ kind ∉ directives
      ∧ pairs tail = left ++ ("default".toList, raw) :: right
      ∧ "default".toList ∉ right.map Prod.fst ∧ IsOversized raw n

section Lines

variable {block kind name tail line : Text} {e : LiteralError}

theorem default?_eq_error_iff
    {options : OptionList} :
    default? options = .error e
      ↔ ∃ raw, get? "default".toList options = some raw ∧ IsOversized (trim raw) e.digits := by
  unfold default?
  cases get? "default".toList options with
  | none =>
      simp
  | some raw =>
      simp [asLiteral_eq_error_iff]

theorem ofReference_eq_error_iff :
    ofReference name tail = .error e ↔ default? (parse tail) = .error e := by
  unfold ofReference
  exact except_bind_eq_error (fun d => ⟨_, rfl⟩)

theorem ofKind_eq_error_iff :
    ofKind kind name tail = .error e ↔ default? (parse tail) = .error e := by
  unfold ofKind
  exact except_bind_eq_error (fun d => ⟨_, rfl⟩)

/-- Of a column, only the default can go wrong. -/
theorem ofParts_eq_error_iff :
    ofParts kind name tail = .error e
      ↔ kind ∉ directives ∧ default? (parse tail) = .error e := by
  unfold ofParts
  by_cases hdirective : directives.contains kind = true
  · rw [if_pos hdirective]
    have hmem : kind ∈ directives := by simpa using hdirective
    simp [hmem]
  · rw [if_neg hdirective]
    have hmem : kind ∉ directives := by simpa using hdirective
    split
    · simp [except_map_eq_error, ofReference_eq_error_iff, hmem]
    · simp [except_map_eq_error, ofKind_eq_error_iff, hmem]

/-- A line that is no column of a kind of its own always has its columns: none, or timestamps. -/
theorem exists_ofLine_of_columnParts?_eq_none
    (h : columnParts? block line = none) :
    ∃ fields, ofLine block line = .ok fields := by
  unfold columnParts? at h
  unfold ofLine
  cases htrim : trim line with
  | nil =>
      exact ⟨[], rfl⟩
  | cons c r =>
      simp only [htrim] at h
      by_cases hcomment : c = '#'
      · simp only [if_pos hcomment]
        exact ⟨[], rfl⟩
      · simp only [if_neg hcomment]
        unfold ofCode
        cases hstamps : timestampsTail? block (c :: r) with
        | some tail =>
            exact ⟨timestamps tail, rfl⟩
        | none =>
            simp only [hstamps, hcomment, Option.isSome_none, Bool.false_eq_true, or_self,
              if_false] at h
            rw [h]
            exact ⟨[], rfl⟩

/-- A line has no columns exactly if its last default has too many digits. -/
theorem ofLine_eq_error_iff :
    ofLine block line = .error e ↔ IsOversizedColumn block line e.digits := by
  cases hparts : columnParts? block line with
  | none =>
      obtain ⟨fields, hfields⟩ := exists_ofLine_of_columnParts?_eq_none hparts
      rw [hfields]
      constructor
      · intro h
        cases h
      · rintro ⟨kind, name, tail, left, raw, right, hsome, -⟩
        rw [hparts] at hsome
        cases hsome
  | some parts =>
      obtain ⟨kind, name, tail⟩ := parts
      rw [ofLine_of_columnParts? hparts, ofParts_eq_error_iff, default?_eq_error_iff,
        parse_eq_ofPairs]
      constructor
      · rintro ⟨hkind, raw, hget, hraw⟩
        obtain ⟨left, right, hpairs, hlast⟩ := get?_ofPairs_eq_some_iff.1 hget
        have hmem : ("default".toList, raw) ∈ pairs tail := by
          rw [hpairs]
          exact List.mem_append_right left List.mem_cons_self
        have htrim := trim_of_mem_pairs hmem
        rw [htrim] at hraw
        exact ⟨kind, name, tail, left, raw, right, hparts, hkind, hpairs, hlast, hraw⟩
      · rintro ⟨kind', name', tail', left, raw, right, hsome, hkind, hpairs, hlast, hraw⟩
        rw [hparts] at hsome
        cases hsome
        have hmem : ("default".toList, raw) ∈ pairs tail := by
          rw [hpairs]
          exact List.mem_append_right left List.mem_cons_self
        have htrim := trim_of_mem_pairs hmem
        refine ⟨hkind, raw, get?_ofPairs_eq_some_iff.2 ⟨left, right, hpairs, hlast⟩, ?_⟩
        rw [htrim]
        exact hraw

/-- Lines fail with one of them. -/
theorem exists_of_ofLines_eq_error
    {body : List Text}
    (h : ofLines block body = .error e) :
    ∃ line ∈ body, ofLine block line = .error e := by
  induction body with
  | nil =>
      cases h
  | cons line body ih =>
      unfold ofLines at h
      cases hline : ofLine block line with
      | error e' =>
          rw [hline] at h
          cases h
          exact ⟨line, List.mem_cons_self, hline⟩
      | ok here =>
          rw [hline] at h
          cases hrest : ofLines block body with
          | error e' =>
              simp only [bind, Except.bind, hrest] at h
              cases h
              obtain ⟨l, hl, hfails⟩ := ih hrest
              exact ⟨l, List.mem_cons_of_mem line hl, hfails⟩
          | ok behind =>
              simp only [bind, Except.bind, hrest] at h
              cases h

/-- Lines one of which fails fail. -/
theorem ofLines_eq_error_of_mem
    {body : List Text}
    (hmem : line ∈ body)
    (h : ofLine block line = .error e) :
    ∃ e', ofLines block body = .error e' := by
  cases hbody : ofLines block body with
  | error e' =>
      exact ⟨e', rfl⟩
  | ok fields =>
      -- Lines that do not fail are read to the end.
      exfalso
      induction body generalizing fields with
      | nil =>
          cases hmem
      | cons first body ih =>
          unfold ofLines at hbody
          obtain ⟨here, hhere, hbody⟩ := except_bind_eq_ok.1 hbody
          obtain ⟨behind, hbehind, -⟩ := except_bind_eq_ok.1 hbody
          rcases List.mem_cons.1 hmem with rfl | hmem
          · rw [h] at hhere
            cases hhere
          · exact ih hmem behind hbehind

end Lines

end Column

namespace Schema

/-- A block of a listing that a line ends: its header, its block variable and its trimmed lines. -/
def IsClosedBlock (listing : Text) (header : Header) (block : Text) (body : List Text) : Prop :=
  ∃ before line after, lines listing = before ++ line :: after
    ∧ Place.outside.behind before = .inBlock header block body
    ∧ Header.isBlockEnd (trim line) = true

/-- A closed block of a listing has a column whose last default is an integer of a number of digits,
more than a literal may have. -/
def HasOversizedDefault (listing : Text) (n : Nat) : Prop :=
  ∃ header block body, IsClosedBlock listing header block body
    ∧ ∃ line ∈ body, Column.IsOversizedColumn block line n

section Runs

variable {p : Place} {ls : List Text} {e : LiteralError}

/-- A line fails only by ending a block with a column that fails. -/
theorem step_eq_error_iff
    {line : Text} :
    step p line = .error e ↔ ∃ header block body, p = .inBlock header block body
      ∧ Header.isBlockEnd line = true ∧ Column.ofLines block body = .error e := by
  rcases step_eq p line with ⟨header, block, body, rfl, hend, hstep⟩ | hstep
  · rw [hstep, except_map_eq_error, blockModel, except_map_eq_error]
    constructor
    · intro h
      exact ⟨header, block, body, rfl, hend, h⟩
    · rintro ⟨header', block', body', hplace, -, h⟩
      cases hplace
      exact h
  · rw [hstep]
    constructor
    · intro h
      cases h
    · rintro ⟨header, block, body, rfl, hend, h⟩
      rw [step, if_pos hend, blockModel, h] at hstep
      cases hstep

/-- A run fails at a line that fails in its place. -/
theorem exists_of_scan_eq_error
    (h : scan p ls = .error e) :
    ∃ before line after, ls = before ++ line :: after
      ∧ step (p.behind before) (trim line) = .error e := by
  induction ls generalizing p with
  | nil =>
      cases h
  | cons line ls ih =>
      unfold scan at h
      cases hstep : step p (trim line) with
      | error e' =>
          rw [hstep] at h
          cases h
          exact ⟨[], line, ls, rfl, hstep⟩
      | ok here =>
          rw [hstep] at h
          cases hrest : scan here.2 ls with
          | error e' =>
              simp only [bind, Except.bind, hrest] at h
              cases h
              rw [place_of_step hstep] at hrest
              obtain ⟨before, l, after, rfl, hfails⟩ := ih hrest
              exact ⟨line :: before, l, after, rfl, hfails⟩
          | ok behind =>
              simp only [bind, Except.bind, hrest] at h
              cases h

/-- A run over a line that fails in its place fails. -/
theorem scan_eq_error_of_step
    {before : List Text}
    {line : Text}
    (h : step (p.behind before) (trim line) = .error e)
    (after : List Text) :
    ∃ e', scan p (before ++ line :: after) = .error e' := by
  rw [scan_append]
  cases hbefore : scan p before with
  | error e' =>
      exact ⟨e', rfl⟩
  | ok first =>
      rw [← place_of_scan hbefore] at h
      refine ⟨e, ?_⟩
      simp only [scan, bind, Except.bind, h]

end Runs

/-- A listing fails exactly if a closed block has a column whose last default has too many digits;
the failure names the digits of such a default, and any other listing gives its tables. -/
theorem parse_eq_error_iff
    (listing : Text) :
    ((∃ e, parse listing = .error e) ↔ ∃ n, HasOversizedDefault listing n)
      ∧ (∀ e, parse listing = .error e → HasOversizedDefault listing e.digits)
      ∧ ((∀ n, ¬ HasOversizedDefault listing n) → ∃ models, parse listing = .ok models) := by
  have hfails : ∀ e, parse listing = .error e → HasOversizedDefault listing e.digits := by
    intro e h
    obtain ⟨before, line, after, hlines, hstep⟩ :=
      exists_of_scan_eq_error (except_map_eq_error.1 h)
    obtain ⟨header, block, body, hplace, hend, hbody⟩ := step_eq_error_iff.1 hstep
    obtain ⟨column, hcolumn, hline⟩ := Column.exists_of_ofLines_eq_error hbody
    exact ⟨header, block, body, ⟨before, line, after, hlines, hplace, hend⟩, column, hcolumn,
      Column.ofLine_eq_error_iff.1 hline⟩
  have hconverse : ∀ n, HasOversizedDefault listing n → ∃ e, parse listing = .error e := by
    rintro n ⟨header, block, body, ⟨before, line, after, hlines, hplace, hend⟩, column, hcolumn, h⟩
    have hline : Column.ofLine block column = .error ⟨n⟩ := Column.ofLine_eq_error_iff.2 h
    obtain ⟨e, hbody⟩ := Column.ofLines_eq_error_of_mem hcolumn hline
    have hstep := step_eq_error_iff.2 ⟨header, block, body, hplace, hend, hbody⟩
    obtain ⟨e', hscan⟩ := scan_eq_error_of_step hstep after
    refine ⟨e', except_map_eq_error.2 ?_⟩
    rw [read, hlines]
    exact hscan
  refine ⟨⟨fun ⟨e, h⟩ => ⟨e.digits, hfails e h⟩, fun ⟨n, h⟩ => hconverse n h⟩, hfails, fun h => ?_⟩
  cases hparse : parse listing with
  | error e =>
      exact absurd (hfails e hparse) (h e.digits)
  | ok models =>
      exact ⟨models, rfl⟩

section Nines

/-- A number of nines. -/
def nines (n : Nat) : Text :=
  List.replicate n '9'

/-- A column line with a default of a number of nines. -/
def ninesLine (n : Nat) : Text :=
  Column.front "t".toList "integer".toList "count".toList
    ++ (comma ++ Spelling.label.write ("default".toList, nines n))

/-- The header of a table. -/
def countsHeader : Text :=
  "create_table 'counts' do |t|".toList

/-- A listing with the line in a table. -/
def ninesListing (n : Nat) : Text :=
  countsHeader ++ '\n' :: (ninesLine n ++ '\n' :: "end".toList)

variable {n : Nat}

theorem arrangeable_nines
    (n : Nat) :
    Arrangeable [("default".toList, nines n)] := by
  have hnine : ∀ c ∈ nines n, c = '9' := fun c hc => List.eq_of_mem_replicate hc
  have hblank : ∀ c ∈ nines n, isBlank c = false := fun c hc => hnine c hc ▸ by decide
  have hclosed : Closed isComma (nines n) :=
    closed_of_plain (fun c hc => hnine c hc ▸ by decide) (fun c hc => hnine c hc ▸ by decide)
  have hline : '\n' ∉ nines n := fun hmem => absurd (hnine _ hmem) (by decide)
  have htrim : trim (nines n) = nines n :=
    trim_eq_self (fun c hc => hblank c (List.mem_of_mem_head? hc))
      (fun c hc => hblank c (List.mem_of_getLast? hc))
  have hword : IsWordRun "default".toList := by decide
  exact ⟨List.nodup_singleton _, List.forall_mem_singleton.2 hword,
    List.forall_mem_singleton.2 htrim, List.forall_mem_singleton.2 hclosed,
    List.forall_mem_singleton.2 hline⟩

/-- Every number of digits above the limit is too many. -/
theorem isOversized_nines
    (h : digitLimit < n) :
    IsOversized (nines n) n :=
  ⟨nines n, List.length_replicate, h, fun _ hc => List.eq_of_mem_replicate hc ▸ by decide,
    Or.inl rfl⟩

theorem isOversizedColumn_ninesLine
    (h : digitLimit < n) :
    Column.IsOversizedColumn "t".toList (trim (ninesLine n)) n := by
  have hblock : IsWordRun "t".toList := by decide
  have hkind : Column.IsKind "integer".toList := ⟨by decide, by decide, by decide⟩
  have hname : Column.IsName "count".toList := by decide
  have hpieces : Interleaved [("default".toList, nines n)]
      [Spelling.label.write ("default".toList, nines n)] :=
    .option .label .nil
  obtain ⟨hline, hpairs⟩ := pairs_interleaved hpieces (arrangeable_nines n)
  have hparts := Column.columnParts?_front hblock hkind hname hline allBlank_nil allBlank_nil
  rw [List.nil_append, List.append_nil, List.flatMap_singleton] at hparts
  rw [List.flatMap_singleton] at hpairs
  exact ⟨_, _, _, [], nines n, [], (Column.columnParts?_trim _ _).trans hparts,
    hkind.not_directive, hpairs, List.not_mem_nil, isOversized_nines h⟩

theorem lines_ninesListing
    (n : Nat) :
    lines (ninesListing n) = [countsHeader, ninesLine n] ++ ["end".toList] := by
  have hheader : '\n' ∉ countsHeader := by decide
  have hend : '\n' ∉ "end".toList := by decide
  have hline : '\n' ∉ ninesLine n := by
    have hfront : '\n' ∉ Column.front "t".toList "integer".toList "count".toList := by decide
    have hcode : '\n' ∉ comma ++ (Spelling.label.code "default".toList ++ [' ']) := by decide
    have hnines := (arrangeable_nines n).lineFeed_not_mem _ List.mem_cons_self
    have hwhole := lineFeed_not_mem_append hfront (lineFeed_not_mem_append hcode hnines)
    simpa only [ninesLine, Spelling.write, List.append_assoc, List.singleton_append] using hwhole
  calc
    lines (ninesListing n)
      = lines countsHeader ++ lines (ninesLine n ++ '\n' :: "end".toList) :=
        lines_append_cons _ _
    _ = lines countsHeader ++ (lines (ninesLine n) ++ lines "end".toList) :=
        congrArg _ (lines_append_cons _ _)
    _ = [countsHeader, ninesLine n] ++ ["end".toList] := by
        rw [lines_eq_singleton hheader, lines_eq_singleton hline, lines_eq_singleton hend]
        rfl

theorem hasOversizedDefault_nines
    (h : digitLimit < n) :
    HasOversizedDefault (ninesListing n) n := by
  have hheader : Place.outside.next (trim countsHeader)
      = .inBlock ⟨"counts".toList, none, none, false, "bigint".toList⟩ "t".toList [] := by
    decide +kernel
  have hinside : Header.isBlockEnd (trim (ninesLine n)) = false := by
    have hblock : IsWordRun "t".toList := by decide
    have htrim : trim (ninesLine n) = Column.front "t".toList "integer".toList "count".toList
        ++ trimEnd (comma ++ Spelling.label.write ("default".toList, nines n)) :=
      trim_append_of_trimmed_left (Column.trim_front hblock) (by decide) _
    rw [htrim]
    rfl
  have hplace : Place.outside.behind [countsHeader, ninesLine n]
      = .inBlock ⟨"counts".toList, none, none, false, "bigint".toList⟩ "t".toList
        [trim (ninesLine n)] := by
    rw [Place.behind_cons, hheader, Place.behind_cons, Place.next, hinside]
    rfl
  exact ⟨_, _, _, ⟨_, _, [], lines_ninesListing n, hplace, by decide⟩, _,
    List.mem_singleton_self _, isOversizedColumn_ninesLine h⟩

/-- A listing with a default of one digit more than the limit fails. -/
theorem parse_eq_error_iff_nines :
    HasOversizedDefault (ninesListing 4301) 4301
      ∧ ∃ e, parse (ninesListing 4301) = .error e := by
  have hdefault : HasOversizedDefault (ninesListing 4301) 4301 :=
    hasOversizedDefault_nines (by decide)
  exact ⟨hdefault, (parse_eq_error_iff (ninesListing 4301)).1.2 ⟨4301, hdefault⟩⟩

end Nines

end Schema
end SchemaSpec
