import Mathlib.Tactic.Common
import SchemaSpec.Journal.Basic

/-!
# Computations that succeed

What the parts of a computation gave, if the whole of it succeeded.
-/

namespace SchemaSpec

section Failing

variable {ε δ α β : Type} {x : Except ε α}

theorem except_bind_eq_ok
    {f : α → Except ε β}
    {b : β} :
    (x >>= f) = .ok b ↔ ∃ a, x = .ok a ∧ f a = .ok b := by
  cases x <;> simp [bind, Except.bind]

/-- What always goes on fails only with its first part. -/
theorem except_bind_eq_error
    {f : α → Except ε β}
    (hf : ∀ a, ∃ b, f a = .ok b)
    {e : ε} :
    (x >>= f) = .error e ↔ x = .error e := by
  cases x with
  | error e =>
      simp [bind, Except.bind]
  | ok a =>
      obtain ⟨b, hb⟩ := hf a
      simp [bind, Except.bind, hb]

theorem except_map_eq_error
    {f : α → β}
    {e : ε} :
    x.map f = .error e ↔ x = .error e := by
  cases x <;> simp [Except.map]

theorem mapError_eq_ok
    {f : ε → δ}
    {a : α} :
    x.mapError f = .ok a ↔ x = .ok a := by
  cases x <;> simp [Except.mapError]

theorem mapError_eq_error
    {f : ε → δ}
    {d : δ} :
    x.mapError f = .error d ↔ ∃ e, x = .error e ∧ f e = d := by
  cases x <;> simp [Except.mapError]

end Failing

namespace Logged

variable {ε α β : Type} {j i : Journal} {a : α} {b : β}

theorem bind_eq_ok
    {x : Logged ε α}
    {f : α → Logged ε β} :
    (x >>= f) j = .ok b i ↔ ∃ a k, x j = .ok a k ∧ f a k = .ok b i := by
  change EStateM.bind x f j = _ ↔ _
  unfold EStateM.bind
  cases x j <;> simp

theorem lift_bind_eq_ok
    {x : Except ε α}
    {f : α → Logged ε β} :
    (lift x >>= f) j = .ok b i ↔ ∃ a, x = .ok a ∧ f a j = .ok b i := by
  cases x with
  | ok a =>
      change f a j = _ ↔ _
      simp
  | error e =>
      change EStateM.Result.error e j = _ ↔ _
      simp

theorem pure_eq_ok
    {c : α} :
    (pure c : Logged ε α) j = .ok a i ↔ c = a ∧ j = i := by
  change EStateM.Result.ok c j = _ ↔ _
  simp

theorem throw_ne_ok
    {e : ε} :
    (throw e : Logged ε α) j ≠ .ok a i := by
  change EStateM.Result.error e j ≠ _
  simp

/-- An operation gives what is inside it. -/
theorem operation_eq_ok
    [Described ε]
    {channel name : Text}
    {values : List (Text × Json)}
    {body : Logged ε α}
    (h : operation channel name values body j = .ok a i) :
    ∃ k l, body k = .ok a l := by
  unfold operation at h
  dsimp only at h
  split at h
  · rename_i c after hbody
    rw [(EStateM.Result.ok.inj h).1] at hbody
    exact ⟨_, _, hbody⟩
  · split at h <;> cases h

end Logged
end SchemaSpec
