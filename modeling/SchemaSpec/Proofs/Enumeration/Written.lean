import Mathlib.Data.List.Forall2
import SchemaSpec.Proofs.Options.Closed
import SchemaSpec.Enumeration.Declaration

/-!
# Enum declarations as they are written

The lines of an enum declaration: a marker with the field name, and the value list behind it in any
of its forms.  A list in brackets may go on over several lines, with blanks around its tokens, empty
lines, and comments at the ends of lines.

* `Spaced`: tokens one behind the other, with blanks around them.
* `ListForm`: the three forms in brackets, with the entry of a value and the tokens of entries.
* `IsListed`: the lines of a list in brackets, from behind its opening bracket on.
* `IsWritten`: the lines of a declaration.
-/

namespace SchemaSpec
namespace EnumDecl

open Text Options

/-! ## Tokens and blanks -/

/-- A text that starts with a blank, or is empty. -/
def StartsBlank (t : Text) : Prop :=
  ∀ c, t.head? = some c → isBlank c = true

/-- Tokens one behind the other, with any blanks around them.  If they must stand `apart`, a blank
or nothing stands behind each. -/
def Spaced (apart : Bool) : List Text → Text → Prop
  | [], t => AllBlank t
  | w :: ws, t => ∃ gap rest, t = gap ++ w ++ rest ∧ AllBlank gap
      ∧ (apart = true → StartsBlank rest) ∧ Spaced apart ws rest

/-- A text that is not empty and has no blank at its ends. -/
def IsTrimmed (t : Text) : Prop :=
  t ≠ [] ∧ trim t = t

section Spaced

variable {apart : Bool} {ws us : List Text} {t u gap : Text}

theorem StartsBlank.append
    (ht : StartsBlank t)
    (hu : StartsBlank u) :
    StartsBlank (t ++ u) := by
  cases t with
  | nil =>
      exact hu
  | cons c t =>
      exact ht

theorem Spaced.blank_append
    (hgap : AllBlank gap)
    (h : Spaced apart ws t) :
    Spaced apart ws (gap ++ t) := by
  cases ws with
  | nil =>
      exact hgap.append h
  | cons w ws =>
      obtain ⟨left, rest, rfl, hleft, hrest⟩ := h
      exact ⟨gap ++ left, rest, by simp, hgap.append hleft, hrest⟩

/-- Tokens go on behind tokens. -/
theorem Spaced.append
    (ht : Spaced apart ws t)
    (hu : Spaced apart us u)
    (hstart : StartsBlank u) :
    Spaced apart (ws ++ us) (t ++ u) := by
  induction ws generalizing t with
  | nil =>
      exact hu.blank_append ht
  | cons w ws ih =>
      obtain ⟨left, rest, rfl, hleft, hrest, hws⟩ := ht
      exact ⟨left, rest ++ u, by simp, hleft, fun h => (hrest h).append hstart, ih hws⟩

theorem trimStart_append
    (ht : IsTrimmed t)
    (u : Text) :
    trimStart (t ++ u) = t ++ u := by
  refine trimStart_eq_self (fun c hc => ?_)
  rw [List.head?_append_of_ne_nil _ ht.1] at hc
  exact not_isBlank_head_of_trim_eq ht.2 hc

theorem Spaced.trimStart
    (hws : ∀ w ∈ ws, IsTrimmed w)
    (h : Spaced apart ws t) :
    Spaced apart ws (trimStart t) := by
  cases ws with
  | nil =>
      exact fun c hc => h c (trimStart_subset t hc)
  | cons w ws =>
      obtain ⟨gap, rest, rfl, hgap, hrest⟩ := h
      rw [List.append_assoc, trimStart_append_of_blank hgap,
        trimStart_append (hws w List.mem_cons_self)]
      exact ⟨[], rest, rfl, allBlank_nil, hrest⟩

theorem Spaced.trimEnd
    (hws : ∀ w ∈ ws, IsTrimmed w)
    (h : Spaced apart ws t) :
    Spaced apart ws (trimEnd t) := by
  induction ws generalizing t with
  | nil =>
      exact fun c hc => h c (trimEnd_subset t hc)
  | cons w ws ih =>
      obtain ⟨gap, rest, rfl, hgap, hrest, htail⟩ := h
      obtain ⟨hw, hws⟩ := List.forall_mem_cons.1 hws
      have hlast : ∀ c, (gap ++ w).getLast? = some c → isBlank c = false := by
        intro c hc
        rw [List.getLast?_append_of_ne_nil _ hw.1] at hc
        exact not_isBlank_last_of_trim_eq hw.2 hc
      refine ⟨gap, Text.trimEnd rest, dropEnd_append_of_last hlast rest, hgap, fun h c hc => ?_,
        ih hws htail⟩
      obtain ⟨u, hu, -⟩ := exists_dropEnd_append isBlank rest
      refine hrest h c ?_
      unfold Text.trimEnd at hc
      rw [hu, List.head?_append, hc]
      rfl

theorem Spaced.trim
    (hws : ∀ w ∈ ws, IsTrimmed w)
    (h : Spaced apart ws t) :
    Spaced apart ws (trim t) :=
  (h.trimStart hws).trimEnd hws

/-- A character between tokens is blank, and any other stands in a token. -/
theorem Spaced.mem
    (h : Spaced apart ws t)
    {c : Char}
    (hc : c ∈ t) :
    isBlank c = true ∨ ∃ w ∈ ws, c ∈ w := by
  induction ws generalizing t with
  | nil =>
      exact Or.inl (h c hc)
  | cons w ws ih =>
      obtain ⟨gap, rest, rfl, hgap, -, htail⟩ := h
      simp only [List.mem_append] at hc
      rcases hc with (hc | hc) | hc
      · exact Or.inl (hgap c hc)
      · exact Or.inr ⟨w, List.mem_cons_self, hc⟩
      · exact (ih htail hc).imp_right
          (fun ⟨u, hu, hmem⟩ => ⟨u, List.mem_cons_of_mem w hu, hmem⟩)

end Spaced

/-! ## Lists in brackets -/

/-- The forms of a value list in brackets: a hash such as `{ a: 0, b: 1 }`, a list such as
`[:a, :b]`, and a list of words such as `%i(a b)` or `%w[a b]`. -/
inductive ListForm
  | hash
  | array
  | words (kind : Char) (hkind : isWordListKind kind = true) (round : Bool)

/-- Entries with a comma between each two, and one behind the last if it is `trailing`. -/
def commaTokens (trailing : Bool) : List Text → List Text
  | [] => []
  | [e] => e :: (if trailing then [[',']] else [])
  | e :: f :: es => e :: [','] :: commaTokens trailing (f :: es)

namespace ListForm

/-- The opening bracket. -/
def opener : ListForm → Char
  | hash => '\x7b'
  | array => '['
  | words _ _ round => if round then '(' else '['

/-- The closing bracket. -/
def closer : ListForm → Char
  | hash => '\x7d'
  | array => ']'
  | words _ _ round => if round then ')' else ']'

/-- What stands before the opening bracket. -/
def lead : ListForm → Text
  | hash => []
  | array => []
  | words kind _ _ => ['%', kind]

/-- Whether entries must stand apart. -/
def apart : ListForm → Bool
  | hash => false
  | array => false
  | words _ _ _ => true

/-- The entry of a value: `value: n`, `:value`, or the value. -/
def IsEntry : ListForm → Text → Text → Prop
  | hash, v, e => ∃ gap n, (AllBlank gap ∧ gap ≠ []) ∧ IsWordRun n ∧ e = v ++ ':' :: gap ++ n
  | array, v, e => e = ':' :: v
  | words _ _ _, v, e => e = v

/-- The tokens of entries: commas stand in hashes and lists, and one may stand behind the last. -/
def IsTokens : ListForm → List Text → List Text → Prop
  | words _ _ _, entries, tokens => tokens = entries
  | _, entries, tokens => ∃ trailing, tokens = commaTokens trailing entries

end ListForm

/-- A comment up to the end of its line, or nothing. -/
def IsComment (t : Text) : Prop :=
  ∀ c, t.head? = some c → c = '#'

/-- A character without a meaning to code: no quote, bracket or comment sign. -/
def isInert (c : Char) : Bool :=
  isPlain c && c != '#'

/-- A text of such characters. -/
def AllInert (t : Text) : Prop :=
  ∀ c ∈ t, isInert c = true

instance (t : Text) : Decidable (AllInert t) :=
  decidable_of_iff (t.all isInert = true) (by simp [AllInert])

/-- The lines of a list of tokens from behind its opening bracket on: each line has some of the
tokens, and a comment or none; the last has the closing bracket behind its tokens, and what goes on
behind that. -/
inductive IsListed (form : ListForm) (behind : Text) : List Text → List Text → Prop
  | last {ws : List Text} {code comment : Text} :
      Spaced form.apart ws code → IsComment comment →
        IsListed form behind ws [code ++ form.closer :: behind ++ comment]
  | line {ws us : List Text} {code comment : Text} {lines : List Text} :
      Spaced form.apart ws code → IsComment comment → IsListed form behind us lines →
        IsListed form behind (ws ++ us) ((code ++ comment) :: lines)

/-! ## Declarations -/

/-- The marker of a declaration: `enum :field,` or `enum field:`. -/
def IsMarker (fieldName marker : Text) : Prop :=
  ∃ gap right, (AllBlank gap ∧ gap ≠ []) ∧ AllBlank right
    ∧ ((∃ left, AllBlank left
        ∧ marker = "enum".toList ++ gap ++ ':' :: fieldName ++ left ++ ',' :: right)
      ∨ marker = "enum".toList ++ gap ++ fieldName ++ ':' :: right)

/-- The lines of a declaration of an enum: with a list in brackets, or with bare keyword arguments,
none of which starts with a line, on one line. -/
inductive IsWritten (fieldName : Text) (values : List Text) : List Text → Prop
  | listed (form : ListForm) {indent marker behind : Text} {entries tokens lines : List Text}
      {line : Text} :
      AllBlank indent → IsMarker fieldName marker → List.Forall₂ form.IsEntry values entries →
        form.IsTokens entries tokens → AllInert behind →
        IsListed form behind tokens (line :: lines) →
        IsWritten fieldName values ((indent ++ marker ++ form.lead ++ form.opener :: line) :: lines)
  | bare {indent marker code comment : Text} {entries : List Text} :
      AllBlank indent → IsMarker fieldName marker →
        List.Forall₂ ListForm.hash.IsEntry values entries → (∀ v ∈ values, v.head? ≠ some '_') →
        Spaced false (commaTokens false entries) code → IsComment comment →
        IsWritten fieldName values [indent ++ marker ++ code ++ comment]

end EnumDecl
end SchemaSpec
