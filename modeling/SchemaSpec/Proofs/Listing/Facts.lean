import Mathlib.Data.List.Forall2
import SchemaSpec.Proofs.Journal.Steps
import SchemaSpec.Table.Schema

/-!
# Columns apart from their facts

Precision, scale, limit, default and referenced table say nothing about a column but in its metadata.

* `Field.plain`, `TableModel.plain`: a column and a table without metadata.
* `Column.SameButFacts`: two lines of a table block that differ in such options at most.
* `Column.plain_ofLines`, `Schema.plain_blockModel`: blocks with such lines give the same columns and
  the same table, but for metadata.
-/

namespace SchemaSpec

open Text Options

/-- A column without metadata, and without the default that stands in it. -/
def Field.plain (f : Field) : Field :=
  { f with metadata := none, default := none }

/-- A table with plain columns. -/
def TableModel.plain (m : TableModel) : TableModel :=
  { m with fields := m.fields.map Field.plain }

namespace Column

/-- The options that only the metadata of a column shows. -/
def factKeys : List Text :=
  ["precision", "scale", "limit", "default", "foreign_key"].map String.toList

/-- Two tails with the same options, but for those that only metadata shows. -/
def AgreeBesideFacts (tail tail' : Text) : Prop :=
  ∀ key, key ∉ factKeys → get? key (parse tail) = get? key (parse tail')

/-- Kind, name and options of a line that is a column of a kind of its own. -/
def columnParts? (block line : Text) : Option (Text × Text × Text) :=
  match trim line with
  | [] => none
  | c :: r =>
      if c = '#' ∨ (timestampsTail? block (c :: r)).isSome then none else parts? block (c :: r)

/-- Two lines of a block that are equal, or columns of one kind and name with options that agree but
for those that only metadata shows. -/
inductive SameButFacts (block : Text) : Text → Text → Prop
  | same (line : Text) : SameButFacts block line line
  | facts
      {line line' kind name tail tail' : Text}
      (h : columnParts? block line = some (kind, name, tail))
      (h' : columnParts? block line' = some (kind, name, tail'))
      (hagree : AgreeBesideFacts tail tail') :
      SameButFacts block line line'

/-- The column that a kind, a name and options give. -/
def ofParts (kind name tail : Text) : Except LiteralError (List Field) :=
  if directives.contains kind then .ok []
  else if ScalarType.isAssociation kind then (ofReference name tail).map (fun f => [f])
  else (ofKind kind name tail).map (fun f => [f])

theorem ofLine_of_columnParts?
    {block line kind name tail : Text}
    (h : columnParts? block line = some (kind, name, tail)) :
    ofLine block line = ofParts kind name tail := by
  cases htrim : trim line with
  | nil =>
      simp only [columnParts?, htrim] at h
      cases h
  | cons c r =>
      simp only [columnParts?, htrim] at h
      split at h
      · cases h
      · rename_i hno
        obtain ⟨hcomment, hstamps⟩ := not_or.1 hno
        have hnone : timestampsTail? block (c :: r) = none := by simpa using hstamps
        simp only [ofLine, htrim, if_neg hcomment, ofCode, hnone, h]
        rfl

section Plain

variable {kind name tail tail' : Text}

theorem AgreeBesideFacts.nullable
    (h : AgreeBesideFacts tail tail') :
    nullable (parse tail) = nullable (parse tail') := by
  unfold Column.nullable
  rw [h "null".toList (by decide)]

theorem AgreeBesideFacts.referenceType
    (h : AgreeBesideFacts tail tail') :
    referenceType (parse tail) = referenceType (parse tail') := by
  unfold Column.referenceType
  rw [h "type".toList (by decide)]

theorem plain_ofReference
    (h : AgreeBesideFacts tail tail')
    {f f' : Field}
    (hread : ofReference name tail = .ok f)
    (hread' : ofReference name tail' = .ok f') :
    f.plain = f'.plain := by
  unfold ofReference at hread hread'
  obtain ⟨default, -, hf⟩ := except_bind_eq_ok.1 hread
  obtain ⟨default', -, hf'⟩ := except_bind_eq_ok.1 hread'
  rw [← Except.ok.inj hf, ← Except.ok.inj hf']
  simp only [Field.plain, h.nullable, h.referenceType, h "comment".toList (by decide)]

theorem plain_ofKind
    (h : AgreeBesideFacts tail tail')
    {f f' : Field}
    (hread : ofKind kind name tail = .ok f)
    (hread' : ofKind kind name tail' = .ok f') :
    f.plain = f'.plain := by
  unfold ofKind at hread hread'
  obtain ⟨default, -, hf⟩ := except_bind_eq_ok.1 hread
  obtain ⟨default', -, hf'⟩ := except_bind_eq_ok.1 hread'
  rw [← Except.ok.inj hf, ← Except.ok.inj hf']
  simp only [Field.plain, h.nullable, h "comment".toList (by decide)]

theorem plain_ofParts
    (h : AgreeBesideFacts tail tail')
    {fields fields' : List Field}
    (hread : ofParts kind name tail = .ok fields)
    (hread' : ofParts kind name tail' = .ok fields') :
    fields.map Field.plain = fields'.map Field.plain := by
  have hsingle : ∀ read read' : Except LiteralError Field,
      read.map (fun f => [f]) = .ok fields → read'.map (fun f => [f]) = .ok fields' →
      (∀ f f', read = .ok f → read' = .ok f' → f.plain = f'.plain) →
      fields.map Field.plain = fields'.map Field.plain := by
    intro read read' hfields hfields' hall
    cases read with
    | error e =>
        cases hfields
    | ok f =>
        cases read' with
        | error e =>
            cases hfields'
        | ok f' =>
            cases hfields
            cases hfields'
            exact congrArg (fun g => [g]) (hall f f' rfl rfl)
  unfold ofParts at hread hread'
  split at hread
  · rename_i hdirective
    rw [if_pos hdirective] at hread'
    cases hread
    cases hread'
    rfl
  · rename_i hdirective
    rw [if_neg hdirective] at hread'
    split at hread
    · rename_i hassociation
      rw [if_pos hassociation] at hread'
      exact hsingle _ _ hread hread' (fun f f' => plain_ofReference h)
    · rename_i hassociation
      rw [if_neg hassociation] at hread'
      exact hsingle _ _ hread hread' (fun f f' => plain_ofKind h)

/-- Lines that differ in facts at most give the same columns, but for metadata. -/
theorem plain_ofLines
    {block : Text}
    {body body' : List Text}
    (h : List.Forall₂ (SameButFacts block) body body')
    {fields fields' : List Field}
    (hread : ofLines block body = .ok fields)
    (hread' : ofLines block body' = .ok fields') :
    fields.map Field.plain = fields'.map Field.plain := by
  induction h generalizing fields fields' with
  | nil =>
      cases hread
      cases hread'
      rfl
  | cons hline hrest ih =>
      -- Both blocks are read to the end, so that each line of one has its columns in the other.
      unfold ofLines at hread hread'
      obtain ⟨here, hhere, hread⟩ := except_bind_eq_ok.1 hread
      obtain ⟨behind, hbehind, hread⟩ := except_bind_eq_ok.1 hread
      obtain ⟨here', hhere', hread'⟩ := except_bind_eq_ok.1 hread'
      obtain ⟨behind', hbehind', hread'⟩ := except_bind_eq_ok.1 hread'
      have hfirst : here.map Field.plain = here'.map Field.plain := by
        cases hline with
        | same =>
            rw [hhere] at hhere'
            rw [Except.ok.inj hhere']
        | facts h h' hagree =>
            rw [ofLine_of_columnParts? h] at hhere
            rw [ofLine_of_columnParts? h'] at hhere'
            exact plain_ofParts hagree hhere hhere'
      rw [← Except.ok.inj hread, ← Except.ok.inj hread', List.map_append, List.map_append, hfirst,
        ih hbehind hbehind']

end Plain

end Column

namespace Header

/-- The identity column has no facts, and it is looked for by name. -/
theorem map_plain_withPrimaryKey
    (h : Header)
    (fields : List Field) :
    (h.withPrimaryKey fields).map Field.plain = h.withPrimaryKey (fields.map Field.plain) := by
  unfold withPrimaryKey
  cases h.primaryKey with
  | none =>
      rfl
  | some key =>
      have hnames : (fields.map Field.plain).any (fun f => f.name == key)
          = fields.any (fun f => f.name == key) := by
        rw [List.any_map]
        rfl
      dsimp only
      rw [hnames]
      split
      · rfl
      · rfl

theorem plain_toModel
    (h : Header)
    (fields : List Field) :
    (h.toModel fields).plain = h.toModel (fields.map Field.plain) := by
  simp only [TableModel.plain, toModel, map_plain_withPrimaryKey]

end Header

namespace Schema

/-- Two blocks behind one header whose lines differ in facts at most give the same table, but for
metadata. -/
theorem plain_blockModel
    {header : Header}
    {block : Text}
    {body body' : List Text}
    (h : List.Forall₂ (Column.SameButFacts block) body body')
    {m m' : TableModel}
    (hread : blockModel header block body = .ok m)
    (hread' : blockModel header block body' = .ok m') :
    m.plain = m'.plain := by
  unfold blockModel at hread hread'
  cases hfields : Column.ofLines block body with
  | error e =>
      rw [hfields] at hread
      cases hread
  | ok fields =>
      cases hfields' : Column.ofLines block body' with
      | error e =>
          rw [hfields'] at hread'
          cases hread'
      | ok fields' =>
          rw [hfields] at hread
          rw [hfields'] at hread'
          cases hread
          cases hread'
          rw [Header.plain_toModel, Header.plain_toModel, Column.plain_ofLines h hfields hfields']

end Schema
end SchemaSpec
