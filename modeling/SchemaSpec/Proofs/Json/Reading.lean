import SchemaSpec.Proofs.Text.Digits
import SchemaSpec.Table.Metadata

/-!
# Literals can be read back

The text of a literal says which literal it is and where it ends.

* `readChar?_escapeChar`: an escaped character is read back, whatever stands behind it.
* `quote_append_inj`: a string ends at its closing quote, whatever text it holds.
* `write_subset`, `exists_mem_write`: the characters a number is written with.
* `render_append_inj`: a literal in front of a semicolon, or at the end, is the only one there.
-/

namespace SchemaSpec
namespace Json

open Text

section Characters

/-- The value of a hexadecimal digit. -/
def hexValue (c : Char) : Nat :=
  if c.toNat < 58 then c.toNat - 48 else c.toNat - 87

/-- The code unit of an escape, and what stands behind the escape. -/
def readUnit? : Text → Option (Nat × Text)
  | '\\' :: 'u' :: a :: b :: c :: d :: r =>
      some (hexValue a * 4096 + hexValue b * 256 + hexValue c * 16 + hexValue d, r)
  | _ => none

/-- The letters that stand for a character behind a backslash. -/
def shortEscapes : List (Char × Char) :=
  [('\x22', '\x22'), ('\\', '\\'), ('n', '\n'), ('r', '\r'), ('t', '\t'), ('b', '\x08'),
    ('f', '\x0c')]

/-- The first character of a string, and what stands behind it; a quote is the end of the string.
The first of two surrogate escapes is read together with the second. -/
def readChar? (t : Text) : Option (Char × Text) :=
  match readUnit? t with
  | some (n, r) =>
      if 0xD800 ≤ n ∧ n < 0xDC00 then
        (readUnit? r).map (fun low =>
          (Char.ofNat (0x10000 + (n - 0xD800) * 0x400 + (low.1 - 0xDC00)), low.2))
      else some (Char.ofNat n, r)
  | none =>
      match t with
      | [] => none
      | '\x22' :: _ => none
      | '\\' :: r => r.head?.bind (fun c => (shortEscapes.lookup c).map (fun d => (d, r.tail)))
      | c :: r => some (c, r)

theorem hexValue_digitChar :
    ∀ n < 16, hexValue (Nat.digitChar n) = n := by
  decide

theorem readUnit?_unitEscape
    {n : Nat}
    (h : n < 0x10000)
    (r : Text) :
    readUnit? (unitEscape n ++ r) = some (n, r) := by
  have hdigit : ∀ m, hexValue (Nat.digitChar (m % 16)) = m % 16 := fun m =>
    hexValue_digitChar _ (Nat.mod_lt _ (by decide))
  have hsum : n / 4096 % 16 * 4096 + n / 256 % 16 * 256 + n / 16 % 16 * 16 + n % 16 = n := by
    omega
  simp only [unitEscape, hex4, List.cons_append, List.nil_append, readUnit?, hdigit, hsum]

/-- A character is no surrogate. -/
theorem not_surrogate
    (c : Char) :
    c.toNat < 0xD800 ∨ 0xDFFF < c.toNat ∧ c.toNat < 0x110000 :=
  c.valid

theorem readChar?_plain
    {c : Char}
    (hquote : c ≠ '\x22')
    (hescape : c ≠ '\\')
    (r : Text) :
    readChar? (c :: r) = some (c, r) := by
  have hunit : readUnit? (c :: r) = none := by
    unfold readUnit?
    split
    · rename_i heq
      exact absurd (List.cons.inj heq).1 hescape
    · rfl
  simp only [readChar?, hunit]

theorem readChar?_unit
    {c : Char}
    (h : c.toNat < 0x10000)
    (r : Text) :
    readChar? (unitEscape c.toNat ++ r) = some (c, r) := by
  have hsingle : ¬(0xD800 ≤ c.toNat ∧ c.toNat < 0xDC00) := by
    have hc := not_surrogate c
    omega
  simp only [readChar?, readUnit?_unitEscape h, if_neg hsingle, Char.ofNat_toNat]

theorem readChar?_pair
    {c : Char}
    (h : 0x10000 ≤ c.toNat)
    (r : Text) :
    readChar? (unitEscape (0xD800 + (c.toNat - 0x10000) / 0x400)
        ++ unitEscape (0xDC00 + (c.toNat - 0x10000) % 0x400) ++ r) = some (c, r) := by
  have hc := not_surrogate c
  have hhigh : 0xD800 + (c.toNat - 0x10000) / 0x400 < 0xDC00 := by omega
  have hlow : 0xDC00 + (c.toNat - 0x10000) % 0x400 < 0x10000 := by omega
  have hfirst := readUnit?_unitEscape (hhigh.trans (by decide))
    (unitEscape (0xDC00 + (c.toNat - 0x10000) % 0x400) ++ r)
  have hvalue : 0x10000 + (0xD800 + (c.toNat - 0x10000) / 0x400 - 0xD800) * 0x400
      + (0xDC00 + (c.toNat - 0x10000) % 0x400 - 0xDC00) = c.toNat := by omega
  rw [List.append_assoc]
  simp only [readChar?, hfirst, if_pos (And.intro (Nat.le_add_right _ _) hhigh),
    readUnit?_unitEscape hlow, Option.map_some, hvalue, Char.ofNat_toNat]

/-- An escaped character is read back, whatever stands behind it. -/
theorem readChar?_escapeChar
    (c : Char)
    (r : Text) :
    readChar? (escapeChar c ++ r) = some (c, r) := by
  by_cases hshort : c ∈ shortEscapes.map Prod.snd
  · revert c
    simp only [shortEscapes, List.map_cons, List.map_nil, List.forall_mem_cons]
    exact ⟨rfl, rfl, rfl, rfl, rfl, rfl, rfl, fun _ hc => absurd hc List.not_mem_nil⟩
  · simp only [shortEscapes, List.map_cons, List.map_nil, List.mem_cons, List.not_mem_nil, or_false,
      not_or] at hshort
    obtain ⟨hquote, hescape, h3, h4, h5, h6, h7⟩ := hshort
    rw [escapeChar, if_neg hquote, if_neg hescape, if_neg h3, if_neg h4, if_neg h5, if_neg h6,
      if_neg h7]
    split
    · exact readChar?_plain hquote hescape r
    · split
      · rename_i hunit
        exact readChar?_unit hunit r
      · rename_i hpair
        exact readChar?_pair (Nat.le_of_not_lt hpair) r

end Characters

section Strings

/-- The characters of a string end at its closing quote. -/
theorem flatMap_escapeChar_inj
    {t u r s : Text}
    (h : t.flatMap escapeChar ++ '\x22' :: r = u.flatMap escapeChar ++ '\x22' :: s) :
    t = u ∧ r = s := by
  have hend : ∀ v, readChar? ('\x22' :: v) = none := fun _ => rfl
  -- Both sides are read one character at a time, until one of them is at its quote.
  induction t generalizing u with
  | nil =>
      cases u with
      | nil =>
          exact ⟨rfl, (List.cons.inj h).2⟩
      | cons d u =>
          have hread := congrArg readChar? h
          rw [List.flatMap_cons, List.append_assoc, readChar?_escapeChar] at hread
          cases hread.symm.trans (hend r)
  | cons c t ih =>
      have hread := congrArg readChar? h
      rw [List.flatMap_cons, List.append_assoc, readChar?_escapeChar] at hread
      cases u with
      | nil =>
          cases hread.trans (hend s)
      | cons d u =>
          rw [List.flatMap_cons, List.append_assoc, readChar?_escapeChar, Option.some.injEq,
            Prod.mk.injEq] at hread
          obtain ⟨rfl, htail⟩ := hread
          obtain ⟨rfl, hrest⟩ := ih htail
          exact ⟨rfl, hrest⟩

/-- A string ends at its closing quote, whatever text it holds. -/
theorem quote_append_inj
    {t u r s : Text}
    (h : quote t ++ r = quote u ++ s) :
    t = u ∧ r = s := by
  simp only [quote, List.cons_append, List.append_assoc, List.nil_append, List.cons.injEq,
    true_and] at h
  exact flatMap_escapeChar_inj h

end Strings

section Numbers

/-- The characters numbers are written with. -/
def numberChars : Text := "0123456789-+.eInfity".toList

theorem ofNat_subset
    (n : Nat) :
    ofNat n ⊆ numberChars := by
  have hdigits : usualDigits ⊆ numberChars := by decide
  exact fun c hc => hdigits (mem_usualDigits_of_mem_ofNat hc)

theorem ofInt_subset
    (n : Int) :
    ofInt n ⊆ '-' :: usualDigits := by
  cases n with
  | ofNat n =>
      exact fun c hc => List.mem_cons_of_mem _ (mem_usualDigits_of_mem_ofNat hc)
  | negSucc n =>
      exact List.cons_subset_cons _ (fun c hc => mem_usualDigits_of_mem_ofNat hc)

theorem zeros_subset
    (n : Nat) :
    List.replicate n '0' ⊆ numberChars := by
  intro c hc
  rw [List.eq_of_mem_replicate hc]
  decide

theorem padded_subset
    (width n : Nat) :
    Binary64.padded width n ⊆ numberChars :=
  List.append_subset.2 ⟨zeros_subset _, ofNat_subset n⟩

theorem writeDigits_subset
    {d : Binary64.DecimalDigits}
    (h : d.digits ⊆ numberChars) :
    numberLayout.writeDigits d ⊆ numberChars := by
  have htake : ∀ k, d.digits.take k ⊆ numberChars := fun k =>
    List.Subset.trans (List.take_subset k _) h
  have hdrop : ∀ k, d.digits.drop k ⊆ numberChars := fun k =>
    List.Subset.trans (List.drop_subset k _) h
  have hexponent : ∀ e : Int, ['e', if e < 0 then '-' else '+'] ⊆ numberChars := by
    intro e
    split <;> decide
  have hplaces : (if d.digits.length ≤ 1 then [] else '.' :: d.digits.drop 1) ⊆ numberChars := by
    split
    · exact List.nil_subset _
    · exact List.cons_subset.2 ⟨by decide, hdrop 1⟩
  unfold Binary64.DecimalLayout.writeDigits
  split
  · split
    · exact List.append_subset.2 ⟨List.append_subset.2 ⟨by decide, zeros_subset _⟩, h⟩
    · split
      · exact List.append_subset.2 ⟨List.append_subset.2 ⟨h, zeros_subset _⟩, by decide⟩
      · exact List.append_subset.2 ⟨List.append_subset.2 ⟨htake _, by decide⟩, hdrop _⟩
  · exact List.append_subset.2 ⟨List.append_subset.2 ⟨List.append_subset.2 ⟨htake 1, hplaces⟩,
      hexponent _⟩, padded_subset _ _⟩

/-- A number is written with few characters. -/
theorem write_subset
    (x : Binary64) :
    numberLayout.write x ⊆ numberChars := by
  have hsign : ∀ s : Bool, (if s then ['-'] else []) ⊆ numberChars := by decide
  have hdigits : ∀ m e, (Binary64.shortest m e).digits ⊆ numberChars := by
    intro m e c hc
    have hall := (List.dropWhile_sublist _).subset (List.mem_reverse.1 hc)
    exact ofNat_subset _ (List.mem_reverse.1 hall)
  cases x with
  | infinite s =>
      exact List.append_subset.2 ⟨hsign s, by decide⟩
  | finite s m e =>
      refine List.append_subset.2 ⟨hsign s, ?_⟩
      split
      · decide
      · exact writeDigits_subset (hdigits m e)

/-- A real number shows that it is one: by a point, an exponent, or being infinite. -/
theorem exists_mem_write
    (x : Binary64) :
    ∃ c ∈ ['.', 'e', 'I'], c ∈ numberLayout.write x := by
  cases x with
  | infinite s =>
      exact ⟨'I', by decide, List.mem_append_right _ (by decide)⟩
  | finite s m e =>
      have hbody : ∃ c ∈ ['.', 'e', 'I'],
          c ∈ if m = 0 then ['0', '.', '0']
            else numberLayout.writeDigits (Binary64.shortest m e) := by
        split
        · exact ⟨'.', by decide, by decide⟩
        · unfold Binary64.DecimalLayout.writeDigits
          split
          · refine ⟨'.', by decide, ?_⟩
            split
            · simp
            · split <;> simp
          · exact ⟨'e', by decide, by simp⟩
      obtain ⟨c, hc, hmem⟩ := hbody
      exact ⟨c, hc, List.mem_append_right _ hmem⟩

end Numbers

end Json

namespace Literal

open Json Text

/-- A literal that is no string, and so has no quotes. -/
def IsBare (l : Literal) : Prop :=
  ∀ t, l ≠ .text t

/-- The characters of the literals that are no strings. -/
def bareChars : Text := numberChars ++ "truefalse".toList

theorem isBare_or_eq_text
    (l : Literal) :
    IsBare l ∨ ∃ t, l = .text t := by
  cases l with
  | text t =>
      exact Or.inr ⟨t, rfl⟩
  | flag b =>
      exact Or.inl (fun _ => Literal.noConfusion)
  | whole n =>
      exact Or.inl (fun _ => Literal.noConfusion)
  | real x =>
      exact Or.inl (fun _ => Literal.noConfusion)

theorem whole_subset
    (n : Int) :
    (whole n).toJson.render ⊆ numberChars := by
  have hdigits : '-' :: usualDigits ⊆ numberChars := by decide
  exact List.Subset.trans (ofInt_subset n) hdigits

/-- A boolean is not written like a number. -/
theorem flag_ne
    {t : Text}
    (h : t ⊆ numberChars)
    (b : Bool) :
    (flag b).toJson.render ≠ t := by
  have hletters : ∀ b, ¬(flag b).toJson.render ⊆ numberChars := by decide
  rintro rfl
  exact hletters b h

/-- An integer is not written like a real number. -/
theorem whole_ne_real
    (n : Int)
    (x : Binary64) :
    (whole n).toJson.render ≠ (real x).toJson.render := by
  have hdigits : ∀ c ∈ ['.', 'e', 'I'], c ∉ '-' :: usualDigits := by
    simp only [List.forall_mem_cons]
    exact ⟨by decide, by decide, by decide, fun _ hc => absurd hc List.not_mem_nil⟩
  intro h
  obtain ⟨c, hc, hmem⟩ := exists_mem_write x
  have hinteger : c ∈ ofInt n := by
    rw [show ofInt n = numberLayout.write x from h]
    exact hmem
  exact hdigits c hc (ofInt_subset n hinteger)

theorem bare_subset
    {l : Literal}
    (h : IsBare l) :
    l.toJson.render ⊆ bareChars := by
  have hnumber : numberChars ⊆ bareChars := List.subset_append_left _ _
  cases l with
  | text t =>
      exact absurd rfl (h t)
  | flag b =>
      cases b <;> decide
  | whole n =>
      exact List.Subset.trans (whole_subset n) hnumber
  | real x =>
      exact List.Subset.trans (write_subset x) hnumber

theorem render_ne_nil
    (l : Literal) :
    l.toJson.render ≠ [] := by
  cases l with
  | text t =>
      exact List.cons_ne_nil _ _
  | flag b =>
      cases b <;> decide
  | whole n =>
      intro hnil
      have hinteger := isInteger_ofInt n
      rw [show ofInt n = [] from hnil] at hinteger
      cases hinteger
  | real x =>
      obtain ⟨c, -, hmem⟩ := exists_mem_write x
      exact List.ne_nil_of_mem hmem

/-- A string is not written like another literal, not even at its start. -/
theorem text_append_ne
    {l : Literal}
    (h : IsBare l)
    (t u v : Text) :
    (text t).toJson.render ++ u ≠ l.toJson.render ++ v := by
  intro heq
  obtain ⟨c, r, hrender⟩ := List.exists_cons_of_ne_nil (render_ne_nil l)
  rw [hrender] at heq
  have hquote : '\x22' ∈ l.toJson.render := by
    rw [hrender, ← (List.cons.inj heq).1]
    exact List.mem_cons_self
  exact absurd (bare_subset h hquote) (by decide)

section Two

variable {a b : Literal}
variable
  (hreal : ∀ x y, a = .real x → b = .real y →
    numberLayout.write x = numberLayout.write y → x = y)

include hreal

theorem bare_inj
    (ha : IsBare a)
    (hb : IsBare b)
    (h : a.toJson.render = b.toJson.render) :
    a = b := by
  cases a with
  | text t =>
      exact absurd rfl (ha t)
  | flag p =>
      cases b with
      | text t =>
          exact absurd rfl (hb t)
      | flag q =>
          cases p <;> cases q <;> first | rfl | exact absurd h (by decide)
      | whole n =>
          exact absurd h (flag_ne (whole_subset n) p)
      | real y =>
          exact absurd h (flag_ne (write_subset y) p)
  | whole m =>
      cases b with
      | text t =>
          exact absurd rfl (hb t)
      | flag q =>
          exact absurd h.symm (flag_ne (whole_subset m) q)
      | whole n =>
          exact congrArg whole (ofInt_injective h)
      | real y =>
          exact absurd h (whole_ne_real m y)
  | real x =>
      cases b with
      | text t =>
          exact absurd rfl (hb t)
      | flag q =>
          exact absurd h.symm (flag_ne (write_subset x) q)
      | whole n =>
          exact absurd h.symm (whole_ne_real n x)
      | real y =>
          exact congrArg real (hreal x y rfl rfl h)

/-- A literal in front of a semicolon, or at the end, is the only one there. -/
theorem render_append_inj
    {t u : Text}
    (ht : ∀ d, t.head? = some d → d = ';')
    (hu : ∀ d, u.head? = some d → d = ';')
    (h : a.toJson.render ++ t = b.toJson.render ++ u) :
    a = b ∧ t = u := by
  have hstop : ∀ {l : Literal}, IsBare l → ';' ∉ l.toJson.render := fun hl hmem =>
    absurd (bare_subset hl hmem) (by decide)
  rcases isBare_or_eq_text a with ha | ⟨v, rfl⟩
  · rcases isBare_or_eq_text b with hb | ⟨w, rfl⟩
    · obtain ⟨hsame, hrest⟩ := append_inj_of_stop (hstop ha) (hstop hb) ht hu h
      exact ⟨bare_inj hreal ha hb hsame, hrest⟩
    · exact absurd h.symm (text_append_ne ha w u t)
  · rcases isBare_or_eq_text b with hb | ⟨w, rfl⟩
    · exact absurd h (text_append_ne hb v t u)
    · obtain ⟨rfl, hrest⟩ := quote_append_inj h
      exact ⟨rfl, hrest⟩

end Two

end Literal
end SchemaSpec
