import SchemaSpec.Proofs.Listing.Blocks
import SchemaSpec.Proofs.Options.Tails

/-!
# Primary keys

Each table has a primary key unless its header says `id: false`, and the columns of its block stand
in its model as they are: at most one column is put in front of them.

* `TableBlock.options`: what the header of a block says, pair by pair; of two pairs with one key the
  last one counts (`lastValue?`).
* `keyName`, `keyKind`: the name of the primary key, and the kind of its column.
* `HasKey`: how the primary key and the columns of a model go with its header and its block.
* `hasKey_of_parse`: each model of a listing goes with its block in this way.
-/

namespace SchemaSpec
namespace Schema

open Text Options

/-- The options of a header, in source order.  The parenthesis behind the arguments is none of
them. -/
def TableBlock.options (b : TableBlock) : List (Text × Text) :=
  pairs (dropEnd (fun c => c == ')') (trim b.attributes))

/-- The value of the last pair with a key. -/
def lastValue? (key : String) (options : List (Text × Text)) : Option Text :=
  options.reverse.lookup key.toList

/-- The name in a raw value: that of a symbol or string, if it is not empty. -/
def nameIn? (raw : Text) : Option Text :=
  match asSymbol raw with
  | some (c :: r) => some (c :: r)
  | _ => none

/-- The name of a primary key: the one that the options give, else `id`. -/
def keyName (options : List (Text × Text)) : Text :=
  match (lastValue? "primary_key" options).bind nameIn? with
  | some name => name
  | none => "id".toList

/-- The kind of an identity column: the one that the `id` option gives, by itself or as the type in
a group, else `bigint`. -/
def keyKind (options : List (Text × Text)) : Text :=
  match lastValue? "id" options with
  | none => "bigint".toList
  | some raw =>
      match nameIn? raw, (get? "type".toList (asGroup raw)).bind nameIn? with
      | some kind, _ => kind
      | none, some kind => kind
      | none, none => "bigint".toList

/-- The column of a primary key that the block does not declare. -/
def keyField (options : List (Text × Text)) : Field where
  name := keyName options
  typeName := ScalarType.ofKind (keyKind options)
  nullable := false

/-- How the primary key and the columns of a model go with the options of its header and the columns
of its block. -/
structure HasKey (options : List (Text × Text)) (columns : List Field) (m : TableModel) : Prop where
  keyless : lastValue? "id" options = some "false".toList →
    m.primaryKey = none ∧ m.fields = columns
  keyed : lastValue? "id" options ≠ some "false".toList →
    m.primaryKey = some (keyName options)
  declared : lastValue? "id" options ≠ some "false".toList →
    keyName options ∈ columns.map Field.name → m.fields = columns
  added : lastValue? "id" options ≠ some "false".toList →
    keyName options ∉ columns.map Field.name → m.fields = keyField options :: columns
  count : ∀ key, m.primaryKey = some key →
    m.fieldNames.count key = max 1 ((columns.map Field.name).count key)
  kept : columns <:+ m.fields

/-! ## Headers -/

section Headers

theorem nonEmpty?_asSymbol
    (raw : Option Text) :
    nonEmpty? (raw.bind asSymbol) = raw.bind nameIn? := by
  cases raw with
  | none =>
      rfl
  | some raw =>
      rw [Option.bind_some, Option.bind_some, nameIn?]
      cases asSymbol raw with
      | none =>
          rfl
      | some name =>
          cases name <;> rfl

theorem asFlag_eq_false_iff
    {raw : Text} :
    asFlag raw = some false ↔ raw = "false".toList := by
  unfold asFlag
  by_cases htrue : raw = "true".toList
  · subst htrue
    decide
  · rw [if_neg htrue]
    by_cases hfalse : raw = "false".toList <;> simp [hfalse]

variable (b : TableBlock)

/-- A key of a header has the value of its last pair. -/
theorem get?_attributes
    (key : String) :
    get? key.toList (Options.parse (dropEnd (fun c => c == ')') (trim b.attributes)))
      = lastValue? key b.options := by
  rw [parse_eq_ofPairs, get?_ofPairs]
  rfl

/-- The header of a block has no primary key just if its `id` is `false`, and else that of its
options. -/
theorem primaryKey_ofAttributes :
    (Header.ofAttributes b.tableName b.attributes).primaryKey
      = if lastValue? "id" b.options = some "false".toList then none
        else some (keyName b.options) := by
  have hkeyless : (Header.ofAttributes b.tableName b.attributes).keyless = true
      ↔ lastValue? "id" b.options = some "false".toList := by
    have hflag : (Header.ofAttributes b.tableName b.attributes).keyless
        = ((lastValue? "id" b.options).bind asFlag == some false) := by
      rw [← get?_attributes]
      rfl
    rw [hflag, beq_iff_eq, Option.bind_eq_some_iff]
    simp only [asFlag_eq_false_iff]
    simp
  have hown : (nonEmpty? (Header.ofAttributes b.tableName b.attributes).ownKey).getD "id".toList
      = keyName b.options := by
    have hraw : (Header.ofAttributes b.tableName b.attributes).ownKey
        = (lastValue? "primary_key" b.options).bind asSymbol := by
      rw [← get?_attributes]
      rfl
    rw [hraw, nonEmpty?_asSymbol, keyName]
    cases (lastValue? "primary_key" b.options).bind nameIn? <;> rfl
  rw [Header.primaryKey, hown]
  by_cases hid : lastValue? "id" b.options = some "false".toList
  · rw [if_pos hid, if_pos (hkeyless.2 hid)]
  · rw [if_neg hid, if_neg (fun h => hid (hkeyless.1 h))]

theorem keyType_ofAttributes :
    (Header.ofAttributes b.tableName b.attributes).keyType = keyKind b.options := by
  have hraw : (Header.ofAttributes b.tableName b.attributes).keyType
      = ((nonEmpty? ((lastValue? "id" b.options).bind asSymbol)).or
          (nonEmpty? (((lastValue? "id" b.options).map asGroup).bind
            (fun g => (get? "type".toList g).bind asSymbol)))).getD "bigint".toList := by
    rw [← get?_attributes]
    rfl
  rw [hraw, nonEmpty?_asSymbol, keyKind]
  cases lastValue? "id" b.options with
  | none =>
      rfl
  | some raw =>
      rw [Option.map_some, Option.bind_some, Option.bind_some, nonEmpty?_asSymbol]
      dsimp only
      cases nameIn? raw with
      | some kind =>
          rfl
      | none =>
          cases (get? "type".toList (asGroup raw)).bind nameIn? <;> rfl

end Headers

/-! ## Models -/

section Models

variable {options : List (Text × Text)} {columns : List Field}

theorem any_name_iff
    {key : Text} :
    columns.any (fun f => f.name == key) = true ↔ key ∈ columns.map Field.name := by
  rw [List.any_eq_true, List.mem_map]
  simp only [beq_iff_eq]

/-- At most one column is put in front of those of the block. -/
theorem suffix_withPrimaryKey
    (h : Header)
    (columns : List Field) :
    columns <:+ h.withPrimaryKey columns := by
  unfold Header.withPrimaryKey
  cases h.primaryKey with
  | none =>
      exact List.suffix_refl columns
  | some key =>
      dsimp only
      split
      · exact List.suffix_refl columns
      · exact List.suffix_cons _ columns

/-- A primary key is among the columns: as often as the block declares it, or else once. -/
theorem count_withPrimaryKey
    {h : Header}
    {key : Text}
    (hkey : h.primaryKey = some key) :
    ((h.withPrimaryKey columns).map Field.name).count key
      = max 1 ((columns.map Field.name).count key) := by
  rw [Header.withPrimaryKey, hkey]
  dsimp only
  by_cases hmem : key ∈ columns.map Field.name
  · rw [if_pos (any_name_iff.2 hmem)]
    have hpos := List.count_pos_iff.2 hmem
    omega
  · rw [if_neg (fun h => hmem (any_name_iff.1 h)), List.map_cons, List.count_cons_self,
      List.count_eq_zero.2 hmem]
    rfl

/-- The model of a table goes with its header and its block. -/
theorem hasKey_toModel
    (b : TableBlock)
    (columns : List Field) :
    HasKey b.options columns
      ((Header.ofAttributes b.tableName b.attributes).toModel columns) := by
  have hkey := primaryKey_ofAttributes b
  have hkind := keyType_ofAttributes b
  generalize hheader : Header.ofAttributes b.tableName b.attributes = h at hkey hkind
  have hfields : (h.toModel columns).fields = h.withPrimaryKey columns := rfl
  have hprimary : (h.toModel columns).primaryKey = h.primaryKey := rfl
  refine ⟨fun hid => ?_, fun hid => ?_, fun hid hmem => ?_, fun hid hmem => ?_,
    fun key hsome => ?_, ?_⟩
  · rw [if_pos hid] at hkey
    exact ⟨hkey, by rw [hfields, Header.withPrimaryKey, hkey]⟩
  · rw [hprimary, hkey, if_neg hid]
  · rw [if_neg hid] at hkey
    rw [hfields, Header.withPrimaryKey, hkey]
    exact if_pos (any_name_iff.2 hmem)
  · rw [if_neg hid] at hkey
    rw [hfields, Header.withPrimaryKey, hkey, hkind]
    exact if_neg (fun h => hmem (any_name_iff.1 h))
  · exact count_withPrimaryKey hsome
  · exact suffix_withPrimaryKey h columns

/-- Each model of a listing is that of a block, and goes with the header of the block and with the
columns on its lines. -/
theorem hasKey_of_parse
    {listing : Text}
    {models : List TableModel}
    (h : parse listing = .ok models) :
    ∃ blocks, FallsInto (lines listing) blocks
      ∧ List.Forall₂ (fun b m => ∃ columns, Column.ofLines b.block b.body = .ok columns
          ∧ HasKey b.options columns m) blocks models := by
  obtain ⟨blocks, hblocks⟩ := exists_fallsInto (lines listing)
  refine ⟨blocks, hblocks, ?_⟩
  rw [parse_eq_mapM hblocks] at h
  clear hblocks
  induction blocks generalizing models with
  | nil =>
      obtain rfl := Except.ok.inj h
      exact .nil
  | cons b blocks ih =>
      rw [List.mapM_cons] at h
      obtain ⟨m, hm, h⟩ := except_bind_eq_ok.1 h
      obtain ⟨ms, hms, h⟩ := except_bind_eq_ok.1 h
      obtain rfl := Except.ok.inj h
      refine .cons ?_ (ih hms)
      unfold TableBlock.model blockModel at hm
      cases hcolumns : Column.ofLines b.block b.body with
      | error e =>
          rw [hcolumns] at hm
          cases hm
      | ok columns =>
          rw [hcolumns] at hm
          obtain rfl := Except.ok.inj hm
          exact ⟨columns, rfl, hasKey_toModel b columns⟩

/-- A table whose header gives its `id` twice, and its key a name. -/
def cardsListing : Text :=
  "create_table 'cards', id: false, primary_key: :code, id: \x7b type: :uuid \x7d do |t|
    t.references 'user'
  end".toList

/-- The model of this table. -/
def cardsModel : TableModel where
  name := "Card".toList
  tableName := "cards".toList
  primaryKey := some "code".toList
  fields :=
    [{ name := "code".toList, typeName := "string".toList, nullable := false },
      { name := "user_id".toList, typeName := "int64".toList, metadata := some "ref: user".toList }]

theorem hasKey_of_parse_cards :
    parse cardsListing = .ok [cardsModel]
      ∧ ∃ blocks, FallsInto (lines cardsListing) blocks
        ∧ List.Forall₂ (fun b m => ∃ columns, Column.ofLines b.block b.body = .ok columns
            ∧ HasKey b.options columns m) blocks [cardsModel] := by
  have hread : parse cardsListing = .ok [cardsModel] := by decide +kernel
  exact ⟨hread, hasKey_of_parse hread⟩

end Models

end Schema
end SchemaSpec
