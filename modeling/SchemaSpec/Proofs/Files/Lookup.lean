import SchemaSpec.Proofs.Files.Walking

/-!
# Looking up directories

Whether a directory is there can be told, unless its path is too long, or a name in it.

* `IsRefused`: the system refuses to look a path up.
* `walkFrom_eq_nameTooLong_iff`: a walk is stopped by a long name in a directory that is there.
* `isDirectory?_of_isRefused`, `isDirectory?_of_not_isRefused`: what is told about a directory.
-/

namespace SchemaSpec
namespace FileTree

open Text

/-- The system refuses to look a path up, since it is too long as a whole, or a name is too long
that is looked up in a directory that is there.  A path with a null character is not even tried. -/
def IsRefused (t : FileTree) (segments : List Text) : Prop :=
  (∀ s ∈ segments, '\x00' ∉ s)
    ∧ (SystemFault.pathLimit < (encode (Path.toText segments)).length
      ∨ ∃ front s behind, segments = front ++ s :: behind ∧ t.entry? front = some .directory
        ∧ SystemFault.nameLimit < (encode s).length)

variable {t : FileTree} {segments : List Text}

/-- A walk is stopped by a name that is too long if the directory before it is there. -/
theorem walkFrom_eq_nameTooLong_iff
    (ht : t.IsRooted)
    (hdown : Path.above ∉ segments)
    (place : Path) :
    t.walkFrom place segments = .error .nameTooLong
      ↔ ∃ front s behind, segments = front ++ s :: behind
        ∧ t.entry? (place ++ front) = some .directory
        ∧ SystemFault.nameLimit < (encode s).length := by
  induction segments generalizing place with
  | nil =>
      simp [walkFrom]
  | cons s rest ih =>
      obtain ⟨hs, hrest⟩ := not_or.1 (mt List.mem_cons.2 hdown)
      have henter : Path.enter place s = place ++ [s] := if_neg (Ne.symm hs)
      have hhere : ∀ front, t.entry? (place ++ front) = some .directory →
          t.entry? place = some .directory := by
        intro front hfront
        by_cases hnil : front = []
        · rwa [hnil, List.append_nil] at hfront
        · exact ht.above hnil (by simp [hfront])
      rw [walkFrom, henter]
      cases hentry : t.entry? place with
      | none =>
          refine iff_of_false (by simp) ?_
          rintro ⟨front, -, -, -, hfront, -⟩
          rw [hhere front hfront] at hentry
          cases hentry
      | some e =>
          cases e with
          | file content =>
              refine iff_of_false (by simp) ?_
              rintro ⟨front, -, -, -, hfront, -⟩
              rw [hhere front hfront] at hentry
              cases hentry
          | directory =>
              dsimp only
              by_cases hlong : SystemFault.isLongName s = true
              · rw [if_pos hlong]
                refine iff_of_true rfl ⟨[], s, rest, rfl, by simpa using hentry, ?_⟩
                exact of_decide_eq_true hlong
              · rw [if_neg hlong, ih hrest]
                constructor
                · rintro ⟨front, u, behind, rfl, hfront, hu⟩
                  exact ⟨s :: front, u, behind, rfl, by simpa using hfront, hu⟩
                · rintro ⟨front, u, behind, hwhole, hfront, hu⟩
                  cases front with
                  | nil =>
                      obtain ⟨rfl, rfl⟩ := List.cons_eq_cons.1 hwhole
                      exact absurd (decide_eq_true hu) hlong
                  | cons v front =>
                      obtain ⟨rfl, rfl⟩ := List.cons_eq_cons.1 hwhole
                      exact ⟨front, u, behind, rfl, by simpa using hfront, hu⟩

/-- A refused path is too long for the system. -/
theorem isDirectory?_of_isRefused
    (ht : t.IsRooted)
    (hdown : Path.above ∉ segments)
    (h : t.IsRefused segments) :
    t.isDirectory? segments = .error ⟨.nameTooLong, segments⟩ := by
  obtain ⟨hnull, hlong⟩ := h
  have hany : segments.any (fun s => s.contains '\x00') = false := by
    rw [List.any_eq_false]
    intro s hs
    simpa using hnull s hs
  have hwalk : t.walk? segments = .error .nameTooLong := by
    unfold walk? SystemFault.ofSegments?
    rw [hany]
    by_cases hpath : SystemFault.pathLimit < (encode (Path.toText segments)).length
    · simp [hpath]
    · simp only [Bool.false_eq_true, if_false, if_neg hpath]
      rw [walkFrom_eq_nameTooLong_iff ht hdown]
      simpa using hlong.resolve_left hpath
  rw [isDirectory?, at?, hwalk]
  rfl

/-- Of a path that is not refused, it can be told whether it leads to a directory. -/
theorem isDirectory?_of_not_isRefused
    (ht : t.IsListed)
    (hdown : Path.above ∉ segments)
    (h : ¬ t.IsRefused segments) :
    t.isDirectory? segments = .ok (decide (t.entry? segments = some .directory)) := by
  unfold isDirectory? at? walk? SystemFault.ofSegments?
  by_cases hany : segments.any (fun s => s.contains '\x00') = true
  · -- Nothing in the tree has a null character in its path.
    obtain ⟨s, hs, hnull⟩ := List.any_eq_true.1 hany
    have hno : t.entry? segments ≠ some .directory := by
      intro hentry
      have hmem := (ht.entry?_eq_some_iff (List.ne_nil_of_mem hs)).1 hentry
      exact (ht.named _ hmem s hs).2.2 (by simpa using hnull)
    rw [decide_eq_false hno, if_pos hany]
    rfl
  · have hfree : ∀ s ∈ segments, '\x00' ∉ s := by
      rw [List.any_eq_true] at hany
      exact fun s hs hnull => hany ⟨s, hs, by simpa using hnull⟩
    have hshort : ¬ SystemFault.pathLimit < (encode (Path.toText segments)).length := fun hlong =>
      h ⟨hfree, Or.inl hlong⟩
    have hwalk : t.walkFrom [] segments ≠ .error .nameTooLong := fun hlong =>
      h ⟨hfree, Or.inr (by simpa using (walkFrom_eq_nameTooLong_iff ht.rooted hdown []).1 hlong)⟩
    rw [if_neg hany, if_neg hshort]
    dsimp only
    cases hresult : t.walkFrom [] segments with
    | ok p =>
        obtain rfl : p = segments := ((walkFrom_eq_ok_iff hdown).1 hresult).1
        exact congrArg Except.ok (beq_eq_decide _ _)
    | error fault =>
        have hno : t.entry? segments ≠ some .directory := by
          intro hentry
          have hway := walkFrom_of_directories hdown (ht.rooted.way (by simp [hentry]))
          rcases hway with hok | hlong
          · rw [hok] at hresult
            cases hresult
          · exact hwalk hlong
        rw [decide_eq_false hno]
        cases fault with
        | nameTooLong =>
            exact absurd hresult hwalk
        | _ =>
            rfl

end FileTree
end SchemaSpec
