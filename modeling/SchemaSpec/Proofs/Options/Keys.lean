import Mathlib.Data.List.Perm.Basic
import SchemaSpec.Proofs.Keyed
import SchemaSpec.Options.Pairs

/-!
# Keys

What an option list says does not depend on its order, as long as no key comes twice.

* `get?_of_perm`: the same keys and values in another order.
* `ofPairs_of_nodup`: a list without repeated keys is an option list as it is.
-/

namespace SchemaSpec
namespace Options

open Text

variable {options options' : OptionList} {key value : Text}

/-- The order of the options does not matter to the value of a key. -/
theorem get?_of_perm
    (hperm : options.Perm options')
    (h : (options.map Prod.fst).Nodup) :
    get? key options = get? key options' := by
  have h' : (options'.map Prod.fst).Nodup := (hperm.map Prod.fst).nodup_iff.1 h
  refine Option.ext (fun value => ?_)
  unfold get?
  rw [lookup_eq_some_iff_mem h, lookup_eq_some_iff_mem h', hperm.mem_iff]

theorem assign_of_not_mem
    (h : key ∉ options.map Prod.fst) :
    assign key value options = options ++ [(key, value)] := by
  induction options with
  | nil =>
      rfl
  | cons o options ih =>
      rw [List.map_cons, List.mem_cons, not_or] at h
      simp [assign, Ne.symm h.1, ih h.2]

theorem ofPairs_append_of_nodup
    (h : ((options ++ options').map Prod.fst).Nodup) :
    options'.foldl (fun ps p => assign p.1 p.2 ps) options = options ++ options' := by
  induction options' generalizing options with
  | nil =>
      simp
  | cons o options' ih =>
      have hout : o.1 ∉ options.map Prod.fst := by
        rw [List.map_append, List.nodup_append'] at h
        exact fun hmem => h.2.2 hmem (by simp)
      have hrest : ((options ++ [o] ++ options').map Prod.fst).Nodup := by
        simpa using h
      rw [List.foldl_cons, assign_of_not_mem hout, ih hrest]
      simp

/-- A list without repeated keys is an option list as it is. -/
theorem ofPairs_of_nodup
    (h : (options.map Prod.fst).Nodup) :
    ofPairs options = options := by
  have hnone : (([] ++ options).map Prod.fst).Nodup := h
  exact ofPairs_append_of_nodup hnone

end Options
end SchemaSpec
