import SchemaSpec.Document.EnumBlock
import Mathlib.Data.List.Nodup
import Mathlib.Data.List.Induction
import Mathlib.Data.List.Perm.Basic

/-!
# Enums by model

* `pairwise_distinct`: the distinct members of a list stand in the order of their first occurrence.
* `group_eq`: the groups are the enums of each model, models in the order of their first enum.
* `exists_group_eq`: each model that has enums has one group.
* `group_perm_append`: the groups of enums of two disjoint sets of models are the groups of each.
-/

namespace SchemaSpec

namespace EnumDecl

variable {v : Text} {vs : List Text}

theorem mem_distinct :
    v ∈ distinct vs ↔ v ∈ vs := by
  induction vs with
  | nil =>
      rfl
  | cons w vs ih =>
      rw [distinct, List.mem_cons, List.mem_cons, List.mem_filter, ih]
      by_cases h : v = w
      · simp [h]
      · simp [h]

theorem distinct_sublist
    (vs : List Text) :
    List.Sublist (distinct vs) vs := by
  induction vs with
  | nil =>
      exact List.Sublist.refl []
  | cons w vs ih =>
      exact (List.filter_sublist.trans ih).cons_cons w

theorem nodup_distinct
    (vs : List Text) :
    (distinct vs).Nodup := by
  induction vs with
  | nil =>
      exact List.nodup_nil
  | cons w vs ih =>
      refine List.nodup_cons.2 ⟨fun hmem => ?_, ih.filter _⟩
      simpa using (List.mem_filter.1 hmem).2

/-- A further member comes last, unless it is there. -/
theorem distinct_concat
    (vs : List Text)
    (v : Text) :
    distinct (vs ++ [v]) = if v ∈ distinct vs then distinct vs else distinct vs ++ [v] := by
  induction vs with
  | nil =>
      rfl
  | cons w vs ih =>
      by_cases hw : v = w
      · subst hw
        have hgone : [v].filter (fun k => k != v) = [] := by simp
        rw [List.cons_append, distinct, distinct, ih, if_pos List.mem_cons_self]
        split
        · rfl
        · rw [List.filter_append, hgone, List.append_nil]
      · have hkept : [v].filter (fun k => k != w) = [v] := by simp [hw]
        have hmem : v ∈ distinct (w :: vs) ↔ v ∈ distinct vs := by
          rw [mem_distinct, mem_distinct, List.mem_cons]
          exact or_iff_right hw
        rw [List.cons_append, distinct, ih]
        by_cases hin : v ∈ distinct vs
        · rw [if_pos hin, if_pos (hmem.2 hin)]
          rfl
        · rw [if_neg hin, if_neg (fun h => hin (hmem.1 h)), List.filter_append, hkept]
          rfl

/-- Distinct members stand in the order of their first occurrence. -/
theorem pairwise_distinct
    (vs : List Text) :
    (distinct vs).Pairwise (fun v w => vs.idxOf v < vs.idxOf w) := by
  induction vs with
  | nil =>
      exact List.Pairwise.nil
  | cons u vs ih =>
      -- Members other than the first are found one place further on.
      have hlater : ∀ w ∈ (distinct vs).filter (fun k => k != u),
          (u :: vs).idxOf w = vs.idxOf w + 1 := by
        intro w hw
        have hne : w ≠ u := by simpa using (List.mem_filter.1 hw).2
        exact List.idxOf_cons_ne vs (Ne.symm hne)
      refine List.pairwise_cons.2 ⟨fun w hw => ?_, ?_⟩
      · rw [hlater w hw, List.idxOf_cons_self]
        exact Nat.succ_pos _
      · refine (ih.filter _).imp_of_mem (fun {v w} hv hw hlt => ?_)
        rw [hlater v hv, hlater w hw]
        exact Nat.succ_lt_succ hlt

end EnumDecl

namespace Document

open Text

/-- The enums of one model. -/
def enumsOf (enums : List EnumDecl) (modelName : Text) : List EnumDecl :=
  enums.filter (fun e => e.modelName == modelName)

section Groups

variable {e : EnumDecl} {enums : List EnumDecl}

theorem enumsOf_eq_nil
    {name : Text}
    (h : name ∉ enums.map EnumDecl.modelName) :
    enumsOf enums name = [] := by
  unfold enumsOf
  rw [List.filter_eq_nil_iff]
  intro e he hname
  exact h (List.mem_map.2 ⟨e, he, by simpa using hname⟩)

theorem enumsOf_concat
    (name : Text) :
    enumsOf (enums ++ [e]) name
      = if name = e.modelName then enumsOf enums name ++ [e] else enumsOf enums name := by
  unfold enumsOf
  rw [List.filter_append]
  by_cases h : name = e.modelName
  · simp [h]
  · have hne : (e.modelName == name) = false := by
      simpa using Ne.symm h
    simp [h, hne]

/-- Adding an enum to groups that hold one list for each of some names. -/
theorem insertGrouped_map
    {names : List Text}
    {values : Text → List EnumDecl}
    (hnames : names.Nodup)
    (hout : e.modelName ∉ names → values e.modelName = []) :
    insertGrouped e (names.map (fun n => (n, values n)))
      = (if e.modelName ∈ names then names else names ++ [e.modelName]).map
          (fun n => (n, if n = e.modelName then values n ++ [e] else values n)) := by
  induction names with
  | nil =>
      simp [insertGrouped, hout]
  | cons n names ih =>
      obtain ⟨hn, hrest⟩ := List.nodup_cons.1 hnames
      by_cases hname : n = e.modelName
      · subst hname
        have hothers : ∀ k ∈ names, (k, values k)
            = (k, if k = e.modelName then values k ++ [e] else values k) := by
          intro k hk
          have hne : k ≠ e.modelName := fun heq => hn (heq ▸ hk)
          rw [if_neg hne]
        rw [if_pos List.mem_cons_self, List.map_cons, List.map_cons, insertGrouped, if_pos rfl,
          if_pos rfl, List.map_congr_left hothers]
      · have hmem : e.modelName ∈ n :: names ↔ e.modelName ∈ names := by
          rw [List.mem_cons]
          exact or_iff_right (Ne.symm hname)
        have htail := ih hrest (fun hno => hout (fun hin => hno (hmem.1 hin)))
        rw [List.map_cons, insertGrouped, if_neg hname, htail]
        by_cases hin : e.modelName ∈ names
        · rw [if_pos hin, if_pos (hmem.2 hin), List.map_cons, if_neg hname]
        · rw [if_neg hin, if_neg (fun h => hin (hmem.1 h)), List.cons_append, List.map_cons,
            if_neg hname]

/-- The groups are the enums of each model, models in the order of their first enum. -/
theorem group_eq
    (enums : List EnumDecl) :
    group enums
      = (EnumDecl.distinct (enums.map EnumDecl.modelName)).map (fun n => (n, enumsOf enums n)) := by
  induction enums using List.reverseRecOn with
  | nil =>
      rfl
  | append_singleton enums e ih =>
      have hinsert : group (enums ++ [e]) = insertGrouped e (group enums) := by
        simp [group]
      have hvalues : e.modelName ∉ EnumDecl.distinct (enums.map EnumDecl.modelName) →
          enumsOf enums e.modelName = [] := fun hno =>
        enumsOf_eq_nil (fun hin => hno (EnumDecl.mem_distinct.2 hin))
      rw [hinsert, ih, insertGrouped_map (EnumDecl.nodup_distinct _) hvalues, List.map_append,
        List.map_singleton, EnumDecl.distinct_concat]
      refine List.map_congr_left (fun n _ => ?_)
      rw [enumsOf_concat]

/-- Each model that has enums has one group. -/
theorem exists_group_eq
    (enums : List EnumDecl) :
    ∃ names : List Text, names.Nodup ∧ (∀ n, n ∈ names ↔ n ∈ enums.map EnumDecl.modelName)
      ∧ group enums = names.map (fun n => (n, enumsOf enums n)) :=
  ⟨_, EnumDecl.nodup_distinct _, fun _ => EnumDecl.mem_distinct, group_eq enums⟩

/-- Enums that belong to some models. -/
def enumsAmong (enums : List EnumDecl) (names : List Text) : List EnumDecl :=
  enums.filter (fun e => names.contains e.modelName)

theorem enumsOf_enumsAmong
    {names : List Text}
    {n : Text}
    (h : n ∈ names) :
    enumsOf (enumsAmong enums names) n = enumsOf enums n := by
  unfold enumsOf enumsAmong
  rw [List.filter_filter]
  refine List.filter_congr (fun e _ => ?_)
  by_cases hn : e.modelName = n
  · simp [hn, h]
  · simp [hn]

theorem mem_map_enumsAmong
    {names : List Text}
    {n : Text} :
    n ∈ (enumsAmong enums names).map EnumDecl.modelName
      ↔ n ∈ names ∧ n ∈ enums.map EnumDecl.modelName := by
  simp only [enumsAmong, List.mem_map, List.mem_filter, List.contains_iff_mem]
  constructor
  · rintro ⟨e, ⟨he, hin⟩, rfl⟩
    exact ⟨hin, e, he, rfl⟩
  · rintro ⟨hin, e, he, rfl⟩
    exact ⟨e, ⟨he, hin⟩, rfl⟩

/-- Enums that belong to disjoint sets of models are grouped apart. -/
theorem group_perm_append
    {left right : List Text}
    (hdisjoint : left.Disjoint right)
    (howned : ∀ e ∈ enums, e.modelName ∈ left ++ right) :
    (group enums).Perm (group (enumsAmong enums left) ++ group (enumsAmong enums right)) := by
  obtain ⟨names, hnodup, hmem, hgroup⟩ := exists_group_eq enums
  obtain ⟨lnames, hlnodup, hlmem, hlgroup⟩ := exists_group_eq (enumsAmong enums left)
  obtain ⟨rnames, hrnodup, hrmem, hrgroup⟩ := exists_group_eq (enumsAmong enums right)
  have hl : group (enumsAmong enums left) = lnames.map (fun n => (n, enumsOf enums n)) := by
    rw [hlgroup]
    refine List.map_congr_left (fun n hn => ?_)
    rw [enumsOf_enumsAmong (mem_map_enumsAmong.1 ((hlmem n).1 hn)).1]
  have hr : group (enumsAmong enums right) = rnames.map (fun n => (n, enumsOf enums n)) := by
    rw [hrgroup]
    refine List.map_congr_left (fun n hn => ?_)
    rw [enumsOf_enumsAmong (mem_map_enumsAmong.1 ((hrmem n).1 hn)).1]
  have hsplit : names.Perm (lnames ++ rnames) := by
    have happend : (lnames ++ rnames).Nodup := by
      rw [List.nodup_append']
      refine ⟨hlnodup, hrnodup, fun n hn hn' => ?_⟩
      exact hdisjoint (mem_map_enumsAmong.1 ((hlmem n).1 hn)).1
        (mem_map_enumsAmong.1 ((hrmem n).1 hn')).1
    rw [List.perm_ext_iff_of_nodup hnodup happend]
    intro n
    rw [List.mem_append, hmem, hlmem, hrmem, mem_map_enumsAmong, mem_map_enumsAmong,
      ← or_and_right]
    refine ⟨fun h => ⟨?_, h⟩, fun h => h.2⟩
    obtain ⟨e, he, rfl⟩ := List.mem_map.1 h
    exact List.mem_append.1 (howned e he)
  rw [hgroup, hl, hr, ← List.map_append]
  exact hsplit.map _

end Groups

end Document
end SchemaSpec
