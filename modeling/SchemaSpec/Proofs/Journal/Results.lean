import SchemaSpec.Proofs.Journal.Steps

/-!
# Results without the journal

What a computation comes to does not depend on what is in the journal, and the lines that it leaves do
not matter to what it comes to.

* `Logged.ComesTo`: a computation comes to one result, whatever is in the journal.
* `comesTo_lift`, `comesTo_leave`, `comesTo_tell`, `ComesTo.bind`, `ComesTo.operation`: what the parts
  come to, the whole comes to.
-/

namespace SchemaSpec
namespace Logged

variable {ε α β : Type}

/-- The result of a computation that starts with a journal. -/
def result (x : Logged ε α) (j : Journal) : Except ε α :=
  match x j with
  | .ok a _ => .ok a
  | .error e _ => .error e

/-- A computation comes to a result, whatever is in the journal. -/
def ComesTo (x : Logged ε α) (r : Except ε α) : Prop :=
  ∀ j, x.result j = r

theorem comesTo_pure
    (a : α) :
    (pure a : Logged ε α).ComesTo (.ok a) := fun _ =>
  rfl

theorem comesTo_throw
    (e : ε) :
    (throw e : Logged ε α).ComesTo (.error e) := fun _ =>
  rfl

theorem comesTo_lift
    (x : Except ε α) :
    (lift x).ComesTo x := by
  cases x with
  | ok a =>
      exact comesTo_pure a
  | error e =>
      exact comesTo_throw e

/-- How telling a line ends: only a report can be refused. -/
def told (refusal? : Report → Option ε) : Line → Except ε Unit
  | .record _ => .ok ()
  | .report r =>
      match refusal? r with
      | none => .ok ()
      | some e => .error e

theorem comesTo_leave
    (line : Line) :
    (leave line : Logged ε Unit).ComesTo (.ok ()) := fun _ =>
  rfl

/-- One computation after another comes to what the second makes of the result of the first. -/
theorem ComesTo.bind
    {x : Logged ε α}
    {r : Except ε α}
    {f : α → Logged ε β}
    {g : α → Except ε β}
    (hx : x.ComesTo r)
    (hf : ∀ a, r = .ok a → (f a).ComesTo (g a)) :
    (x >>= f).ComesTo (r >>= g) := by
  intro j
  have hfirst := hx j
  change (match EStateM.bind x f j with
    | .ok b _ => Except.ok b
    | .error e _ => .error e) = _
  unfold result at hfirst
  unfold EStateM.bind
  cases hrun : x j with
  | error e k =>
      rw [hrun] at hfirst
      rw [← hfirst]
      rfl
  | ok a k =>
      rw [hrun] at hfirst
      have hsecond := hf a hfirst.symm k
      rw [← hfirst]
      exact hsecond

/-- An operation comes to what is inside it. -/
theorem ComesTo.operation
    [Described ε]
    {body : Logged ε α}
    {r : Except ε α}
    (h : body.ComesTo r)
    (channel name : Text)
    (values : List (Text × Json)) :
    (operation channel name values body).ComesTo r := by
  intro j
  have hbody := h (j.tick.2.leave (operationRecord channel "Starting" name values))
  unfold result at hbody ⊢
  unfold SchemaSpec.operation
  dsimp only
  cases hrun : body (j.tick.2.leave (operationRecord channel "Starting" name values)) with
  | ok a after =>
      rw [hrun] at hbody
      exact hbody
  | error e after =>
      rw [hrun] at hbody
      dsimp only
      cases Described.isOrdinary e <;> exact hbody

theorem comesTo_tell
    (refusal? : Report → Option ε)
    (line : Line) :
    (tell refusal? line).ComesTo (told refusal? line) := by
  cases line with
  | record r =>
      exact comesTo_leave _
  | report r =>
      unfold tell told
      dsimp only
      cases refusal? r with
      | none =>
          exact comesTo_leave _
      | some e =>
          exact comesTo_throw e

/-- Computations one after the other come to what comes of them one after the other. -/
theorem comesTo_forM
    {γ : Type}
    {f : γ → Logged ε Unit}
    {g : γ → Except ε Unit}
    (h : ∀ c, (f c).ComesTo (g c))
    (cs : List γ) :
    (cs.forM f).ComesTo (cs.forM g) := by
  induction cs with
  | nil =>
      exact comesTo_pure ()
  | cons c cs ih =>
      exact (h c).bind (fun _ _ => ih)

end Logged
end SchemaSpec
