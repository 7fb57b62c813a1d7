import SchemaSpec.Enumeration.Values

/-!
# Brackets without regard to strings

Where a value list ends is found by its brackets alone: a bracket in a string counts like any other.

* `openAfter?`: how many brackets are open behind a text, if none is closed that was not opened.
* `Paired`: the brackets of a text pair up.
* `brackets`: the brackets of a text, which are all that matters to pairing.
* `exists_of_openAfter?_flatten_eq_none`: the text among several in which one bracket too many is
  closed.
* `inner?_paired`: a list ends at the closing bracket behind a paired text.
* `inner?_gather_of_openAfter?`: a list that leaves brackets open takes the following lines along.
-/

namespace SchemaSpec
namespace EnumDecl

open Text Options

/-- How many brackets are open behind a text, if `depth` of them are open before it; none if a
bracket is closed in it that was not opened. -/
def openAfter? (opener closer : Char) : (depth : Nat) → Text → Option Nat
  | depth, [] => some depth
  | depth, c :: r =>
      if c = opener then openAfter? opener closer (depth + 1) r
      else if c = closer then
        match depth with
        | d + 1 => openAfter? opener closer d r
        | 0 => none
      else openAfter? opener closer depth r

/-- Whether each bracket that is opened in a text is closed in it, and no other. -/
def Paired (opener closer : Char) (t : Text) : Prop :=
  openAfter? opener closer 0 t = some 0

instance (opener closer : Char) (t : Text) : Decidable (Paired opener closer t) :=
  inferInstanceAs (Decidable (openAfter? opener closer 0 t = some 0))

/-- Whether a character opens or closes a group. -/
def isBracket (c : Char) : Bool :=
  isOpener c || isCloser c

/-- The brackets of a text. -/
def brackets (t : Text) : Text :=
  t.filter isBracket

section Brackets

variable {opener closer : Char} {d e : Nat} {t u : Text}

@[simp] theorem brackets_append :
    brackets (t ++ u) = brackets t ++ brackets u :=
  List.filter_append t u

theorem brackets_eq_nil
    (h : ∀ c ∈ t, isBracket c = false) :
    brackets t = [] :=
  List.filter_eq_nil_iff.2 (fun c hc => by simp [h c hc])

theorem openAfter?_cons
    (c : Char) :
    openAfter? opener closer d (c :: t)
      = if c = opener then openAfter? opener closer (d + 1) t
        else if c = closer then
          match d with
          | d + 1 => openAfter? opener closer d t
          | 0 => none
        else openAfter? opener closer d t := by
  cases d <;> rfl

theorem openAfter?_append
    (d : Nat)
    (t u : Text) :
    openAfter? opener closer d (t ++ u)
      = (openAfter? opener closer d t).bind (fun e => openAfter? opener closer e u) := by
  induction t generalizing d with
  | nil =>
      rfl
  | cons c t ih =>
      rw [List.cons_append, openAfter?_cons, openAfter?_cons]
      split
      · exact ih _
      · split
        · cases d with
          | zero => rfl
          | succ d => exact ih d
        · exact ih d

theorem openAfter?_of_not_mem
    (hopen : opener ∉ t)
    (hclose : closer ∉ t)
    (d : Nat) :
    openAfter? opener closer d t = some d := by
  induction t with
  | nil =>
      rfl
  | cons c t ih =>
      simp only [List.mem_cons, not_or] at hopen hclose
      rw [openAfter?_cons, if_neg (Ne.symm hopen.1), if_neg (Ne.symm hclose.1), ih hopen.2 hclose.2]

/-- Only its brackets matter to the pairing of a text. -/
theorem openAfter?_brackets
    (hopener : isBracket opener = true)
    (hcloser : isBracket closer = true)
    (d : Nat)
    (t : Text) :
    openAfter? opener closer d (brackets t) = openAfter? opener closer d t := by
  induction t generalizing d with
  | nil =>
      rfl
  | cons c t ih =>
      unfold brackets at ih ⊢
      by_cases hc : isBracket c = true
      · rw [List.filter_cons_of_pos hc]
        simp only [openAfter?_cons, ih]
      · have hout : c ≠ opener ∧ c ≠ closer := by
          constructor <;> rintro rfl <;> contradiction
        rw [List.filter_cons_of_neg hc, ih, openAfter?_cons, if_neg hout.1, if_neg hout.2]

/-- Where a bracket is closed that was not opened, the text in front of it is paired with the open
ones. -/
theorem exists_of_openAfter?_eq_none
    (h : openAfter? opener closer d t = none) :
    ∃ p r, t = p ++ closer :: r ∧ openAfter? opener closer d p = some 0 := by
  induction t generalizing d with
  | nil =>
      cases h
  | cons c t ih =>
      rw [openAfter?_cons] at h
      split at h
      · rename_i hopen
        obtain ⟨p, r, rfl, hp⟩ := ih h
        exact ⟨c :: p, r, rfl, by rw [openAfter?_cons, if_pos hopen, hp]⟩
      · rename_i hopen
        split at h
        · rename_i hclose
          cases d with
          | zero =>
              exact ⟨[], t, by rw [hclose]; rfl, rfl⟩
          | succ d =>
              obtain ⟨p, r, rfl, hp⟩ := ih h
              refine ⟨c :: p, r, rfl, ?_⟩
              rw [openAfter?_cons, if_neg hopen, if_pos hclose]
              exact hp
        · rename_i hclose
          obtain ⟨p, r, rfl, hp⟩ := ih h
          exact ⟨c :: p, r, rfl, by rw [openAfter?_cons, if_neg hopen, if_neg hclose, hp]⟩

/-- In texts one behind the other, the bracket that was not opened stands in one of them. -/
theorem exists_of_openAfter?_flatten_eq_none
    {ts : List Text}
    (h : openAfter? opener closer d ts.flatten = none) :
    ∃ earlier shown hidden later, ts = earlier ++ (shown ++ closer :: hidden) :: later
      ∧ openAfter? opener closer d (earlier ++ [shown]).flatten = some 0 := by
  induction ts generalizing d with
  | nil =>
      cases h
  | cons t ts ih =>
      rw [List.flatten_cons, openAfter?_append] at h
      cases ht : openAfter? opener closer d t with
      | none =>
          obtain ⟨p, r, rfl, hp⟩ := exists_of_openAfter?_eq_none ht
          exact ⟨[], p, r, ts, rfl, by simpa using hp⟩
      | some e =>
          rw [ht] at h
          obtain ⟨earlier, shown, hidden, later, rfl, hopen⟩ := ih h
          refine ⟨t :: earlier, shown, hidden, later, rfl, ?_⟩
          rw [List.cons_append, List.flatten_cons, openAfter?_append, ht]
          exact hopen

theorem untilClosed_cons
    (c : Char) :
    untilClosed opener closer (d + 1) (c :: t)
      = if c = opener then c :: untilClosed opener closer (d + 2) t
        else if c = closer then
          match d with
          | d + 1 => c :: untilClosed opener closer (d + 1) t
          | 0 => []
        else c :: untilClosed opener closer (d + 1) t := by
  cases d <;> rfl

/-- A text that closes no more brackets than are open is part of the list. -/
theorem untilClosed_of_openAfter?
    (h : openAfter? opener closer d t = some e)
    (u : Text) :
    untilClosed opener closer (d + 1) (t ++ u) = t ++ untilClosed opener closer (e + 1) u := by
  induction t generalizing d with
  | nil =>
      cases h
      rfl
  | cons c t ih =>
      rw [openAfter?_cons] at h
      rw [List.cons_append, untilClosed_cons]
      split at h
      · rename_i hopen
        rw [if_pos hopen, ih h]
        rfl
      · rename_i hopen
        rw [if_neg hopen]
        split at h
        · rename_i hclose
          cases d with
          | zero =>
              cases h
          | succ d =>
              rw [if_pos hclose]
              exact congrArg (c :: ·) (ih h)
        · rename_i hclose
          rw [if_neg hclose, ih h]
          rfl

theorem balance_of_openAfter?
    (hne : closer ≠ opener)
    (h : openAfter? opener closer d t = some e) :
    balance opener closer t = (e : Int) - d := by
  unfold balance
  induction t generalizing d with
  | nil =>
      cases h
      simp
  | cons c t ih =>
      rw [openAfter?_cons] at h
      split at h
      · rename_i hopen
        have hrest := ih h
        rw [hopen, List.count_cons_self, List.count_cons_of_ne hne.symm]
        push_cast at hrest ⊢
        omega
      · rename_i hopen
        split at h
        · rename_i hclose
          cases d with
          | zero =>
              cases h
          | succ d =>
              have hrest := ih h
              rw [hclose, List.count_cons_self, List.count_cons_of_ne hne]
              push_cast at hrest ⊢
              omega
        · rename_i hclose
          rw [List.count_cons_of_ne hopen, List.count_cons_of_ne hclose]
          exact ih h

end Brackets

/-! ## Where a list ends -/

section Ends

variable {opener closer : Char} {t : Text}

theorem inner?_cons
    (opener closer : Char)
    (t : Text) :
    inner? opener closer (opener :: t) = some (untilClosed opener closer 1 t) := by
  simp [inner?, cutAt?, after?]

/-- A list ends at the closing bracket behind a paired text, whatever stands behind it. -/
theorem inner?_paired
    (hne : closer ≠ opener)
    (h : Paired opener closer t)
    (u : Text) :
    inner? opener closer (opener :: (t ++ closer :: u)) = some t := by
  rw [inner?_cons, untilClosed_of_openAfter? h, untilClosed_cons, if_neg hne, if_pos rfl,
    List.append_nil]

/-- A list with brackets left open does not end at its own closing bracket. -/
theorem inner?_gather_of_openAfter?
    {d : Nat}
    (hne : closer ≠ opener)
    (h : openAfter? opener closer 0 t = some (d + 1))
    (following : List Text) :
    inner? opener closer (gather opener closer (opener :: (t ++ [closer])) following)
      = some (t ++ closer :: untilClosed opener closer (d + 1)
          (continuation opener closer (d + 1) following)) := by
  have hbalance : balance opener closer (opener :: (t ++ [closer])) = (d : Int) + 1 := by
    have hopen : openAfter? opener closer 1 [closer] = some 0 := by
      rw [openAfter?_cons, if_neg hne, if_pos rfl]
      rfl
    have hinside := balance_of_openAfter? hne h
    have hcloser := balance_of_openAfter? hne hopen
    unfold balance at hinside hcloser ⊢
    rw [List.count_cons_self, List.count_cons_of_ne hne.symm, List.count_append, List.count_append]
    push_cast at hinside hcloser ⊢
    omega
  rw [gather, hbalance, List.cons_append, List.append_assoc, inner?_cons,
    untilClosed_of_openAfter? h, List.cons_append, List.nil_append, untilClosed_cons, if_neg hne,
    if_pos rfl]

end Ends

end EnumDecl
end SchemaSpec
