import SchemaSpec.Proofs.Json.Reading
import SchemaSpec.Proofs.Options.Literals

/-!
# Metadata loses nothing

A trailing comment says which facts it was made from, whatever text stands in them.  Each part ends in
front of a separator or at the end; a string ends at its closing quote, and the referenced table is
the last part, so that neither can be taken for more than one part.

* `ColumnFacts.IsAccepted`: facts as options give them.
* `ColumnFacts.sizes`: precision and scale, with the usual value for a missing half.
* `marked_append_inj`: a part that may be missing is told from what stands behind it.
* `ColumnFacts.comment_eq_iff`: two comments are the same just if they say the same.
-/

namespace SchemaSpec

open Text

namespace Options

variable {t : Text}

theorem ne_nil_of_asInteger
    (h : (asInteger t).isSome = true) :
    t ≠ [] := by
  rintro rfl
  revert h
  decide

/-- The text of an integer may have blanks around it; other characters do not stand in it. -/
theorem not_mem_of_asInteger
    (h : (asInteger t).isSome = true)
    {c : Char}
    (hblank : isBlank c = false)
    (hc : isDigit c = false ∧ c ≠ '-') :
    c ∉ t := by
  have hinteger : isInteger (trim t) = true := by
    by_contra hnot
    rw [asInteger, if_neg hnot] at h
    cases h
  have hout : ∀ {u}, AllBlank u → c ∉ u := by
    intro u hu hmem
    rw [hu c hmem] at hblank
    cases hblank
  obtain ⟨left, right, ht, hleft, hright⟩ := exists_trim_surround t
  rw [ht, List.mem_append, List.mem_append]
  rintro ((hmem | hmem) | hmem)
  · exact hout hleft hmem
  · exact not_mem_of_isInteger hinteger hc hmem
  · exact hout hright hmem

end Options

section Parts

/-- A part of a comment behind its separator, or nothing. -/
def marked {α : Type} (label : Text) (body : α → Text) : Option α → Text
  | none => []
  | some a => "; ".toList ++ label ++ body a

/-- Nothing, or a part whose label has one of some first letters. -/
def Follows (letters t : Text) : Prop :=
  t = [] ∨ ∃ c ∈ letters, ∃ r, t = ';' :: ' ' :: c :: r

theorem follows_nil
    (letters : Text) :
    Follows letters [] :=
  Or.inl rfl

variable {α : Type} {label : Text} {body : α → Text}
variable {letters t u : Text} {c : Char}

theorem Follows.eq_of_head
    (h : Follows letters t)
    {d : Char}
    (hd : t.head? = some d) :
    d = ';' := by
  rcases h with rfl | ⟨c, -, r, rfl⟩
  · cases hd
  · exact (Option.some.inj hd).symm

theorem Follows.marked_append
    (h : Follows letters t)
    (hlabel : label.head? = some c)
    (o : Option α) :
    Follows (c :: letters) (marked label body o ++ t) := by
  cases o with
  | none =>
      rcases h with rfl | ⟨d, hd, r, rfl⟩
      · exact Or.inl rfl
      · exact Or.inr ⟨d, List.mem_cons_of_mem _ hd, r, rfl⟩
  | some a =>
      obtain ⟨rest, rfl⟩ := List.head?_eq_some_iff.1 hlabel
      exact Or.inr ⟨c, List.mem_cons_self, rest ++ body a ++ t, by simp [marked]⟩

/-- A part is not what stands behind it. -/
theorem marked_some_append_ne
    (hlabel : label.head? = some c)
    (hc : c ∉ letters)
    (hu : Follows letters u)
    (a : α) :
    marked label body (some a) ++ t ≠ u := by
  obtain ⟨rest, rfl⟩ := List.head?_eq_some_iff.1 hlabel
  rintro rfl
  rcases hu with hnil | ⟨d, hd, r, heq⟩
  · cases hnil
  · have hfirst : c = d := by
      simp only [marked, List.cons_append, List.append_assoc] at heq
      exact (List.cons.inj (List.cons.inj (List.cons.inj heq).2).2).1
    exact hc (hfirst ▸ hd)

/-- A part that may be missing is told from what stands behind it, if its body is. -/
theorem marked_append_inj
    (hlabel : label.head? = some c)
    (hc : c ∉ letters)
    (ht : Follows letters t)
    (hu : Follows letters u)
    {o p : Option α}
    (hbody : ∀ a b, o = some a → p = some b → body a ++ t = body b ++ u → a = b ∧ t = u)
    (h : marked label body o ++ t = marked label body p ++ u) :
    o = p ∧ t = u := by
  cases o with
  | none =>
      cases p with
      | none =>
          exact ⟨rfl, h⟩
      | some b =>
          exact absurd h.symm (marked_some_append_ne hlabel hc ht b)
  | some a =>
      cases p with
      | none =>
          exact absurd h (marked_some_append_ne hlabel hc hu a)
      | some b =>
          simp only [marked, List.append_assoc, List.append_cancel_left_eq] at h
          obtain ⟨rfl, hrest⟩ := hbody a b rfl rfl h
          exact ⟨rfl, hrest⟩

theorem nonEmpty?_eq_self
    {o : Option Text}
    (h : o ≠ some []) :
    nonEmpty? o = o := by
  cases o with
  | none =>
      rfl
  | some t =>
      have ht : t ≠ [] := fun hnil => h (congrArg some hnil)
      simp [nonEmpty?, ht]

/-- A part that may be missing, as the lists of parts have it. -/
theorem flatMap_toList_map
    (label : Text)
    (body : α → Text)
    (o : Option α) :
    (o.toList.map (fun a => label ++ body a)).flatMap (fun p => "; ".toList ++ p)
      = marked label body o := by
  cases o with
  | none =>
      rfl
  | some a =>
      simp [marked]

end Parts

namespace ColumnFacts

/-- Precision and scale; a missing half is the usual one, if the other is there. -/
def sizes (f : ColumnFacts) : Option (Text × Text) :=
  match f.precision, f.scale with
  | none, none => none
  | p, s => some (p.getD usualPrecision, s.getD usualScale)

/-- Facts as options give them: the numbers are texts of integers, and the referenced table has a
name. -/
structure IsAccepted (f : ColumnFacts) : Prop where
  precision : ∀ t, f.precision = some t → (Options.asInteger t).isSome = true
  scale : ∀ t, f.scale = some t → (Options.asInteger t).isSome = true
  limit : ∀ t, f.limit = some t → (Options.asInteger t).isSome = true
  reference : f.reference ≠ some []

/-- What stands behind the label of the first part. -/
def sizeText (s : Text × Text) : Text :=
  s.1 ++ ", scale: ".toList ++ s.2

/-- The parts of a comment from the reference on, each behind a separator. -/
def referenceTail (f : ColumnFacts) : Text :=
  marked "ref: ".toList (fun t => t) f.reference

/-- The parts of a comment from the default on. -/
def defaultTail (f : ColumnFacts) : Text :=
  marked "default: ".toList (fun l => l.toJson.render) f.default ++ f.referenceTail

/-- The parts of a comment from the limit on. -/
def limitTail (f : ColumnFacts) : Text :=
  marked "limit: ".toList (fun t => t) f.limit ++ f.defaultTail

/-- All parts of a comment. -/
def tail (f : ColumnFacts) : Text :=
  marked "precision: ".toList sizeText f.sizes ++ f.limitTail

section Tails

theorem follows_referenceTail
    (f : ColumnFacts) :
    Follows ['r'] f.referenceTail := by
  rw [← List.append_nil f.referenceTail]
  exact (follows_nil []).marked_append rfl f.reference

theorem follows_defaultTail
    (f : ColumnFacts) :
    Follows ['d', 'r'] f.defaultTail :=
  f.follows_referenceTail.marked_append rfl f.default

theorem follows_limitTail
    (f : ColumnFacts) :
    Follows ['l', 'd', 'r'] f.limitTail :=
  f.follows_defaultTail.marked_append rfl f.limit

variable {f g : ColumnFacts}

theorem referenceTail_inj
    (h : f.referenceTail = g.referenceTail) :
    f.reference = g.reference := by
  rw [← List.append_nil f.referenceTail, ← List.append_nil g.referenceTail] at h
  -- The table is all that stands behind the label of the last part.
  exact (marked_append_inj rfl List.not_mem_nil (follows_nil []) (follows_nil [])
    (fun a b _ _ hbody => ⟨List.append_cancel_right hbody, rfl⟩) h).1

theorem defaultTail_inj
    (hreal : ∀ x y, f.default = some (.real x) → g.default = some (.real y) →
      Json.numberLayout.write x = Json.numberLayout.write y → x = y)
    (h : f.defaultTail = g.defaultTail) :
    f.default = g.default ∧ f.referenceTail = g.referenceTail := by
  refine marked_append_inj rfl (by decide) f.follows_referenceTail g.follows_referenceTail
    (fun a b ha hb hbody => ?_) h
  refine Literal.render_append_inj (fun x y hx hy => hreal x y ?_ ?_)
    (fun d => f.follows_referenceTail.eq_of_head) (fun d => g.follows_referenceTail.eq_of_head) hbody
  · rw [ha, hx]
  · rw [hb, hy]

theorem limitTail_inj
    (hf : IsAccepted f)
    (hg : IsAccepted g)
    (h : f.limitTail = g.limitTail) :
    f.limit = g.limit ∧ f.defaultTail = g.defaultTail := by
  refine marked_append_inj rfl (by decide) f.follows_defaultTail g.follows_defaultTail
    (fun a b ha hb hbody => ?_) h
  exact append_inj_of_stop
    (Options.not_mem_of_asInteger (hf.limit a ha) (by decide) (by decide))
    (Options.not_mem_of_asInteger (hg.limit b hb) (by decide) (by decide))
    (fun d => f.follows_defaultTail.eq_of_head) (fun d => g.follows_defaultTail.eq_of_head) hbody

/-- No half of the sizes holds a character that ends it. -/
theorem not_mem_sizes
    (hf : IsAccepted f)
    {s : Text × Text}
    (hs : f.sizes = some s) :
    ',' ∉ s.1 ∧ ';' ∉ s.2 := by
  have hhalf : ∀ {o : Option Text} {usual : Text} {c : Char}, isBlank c = false →
      (isDigit c = false ∧ c ≠ '-') → c ∉ usual →
      (∀ t, o = some t → (Options.asInteger t).isSome = true) → c ∉ o.getD usual := by
    intro o usual c hblank hc husual haccepted
    cases o with
    | none =>
        exact husual
    | some t =>
        exact Options.not_mem_of_asInteger (haccepted t rfl) hblank hc
  unfold sizes at hs
  split at hs
  · cases hs
  · rw [← Option.some.inj hs]
    exact ⟨hhalf (by decide) (by decide) (by decide) hf.precision,
      hhalf (by decide) (by decide) (by decide) hf.scale⟩

theorem tail_inj
    (hf : IsAccepted f)
    (hg : IsAccepted g)
    (h : f.tail = g.tail) :
    f.sizes = g.sizes ∧ f.limitTail = g.limitTail := by
  refine marked_append_inj rfl (by decide) f.follows_limitTail g.follows_limitTail
    (fun a b ha hb hbody => ?_) h
  obtain ⟨hcomma, hsemicolon⟩ := not_mem_sizes hf ha
  obtain ⟨hcomma', hsemicolon'⟩ := not_mem_sizes hg hb
  simp only [sizeText, List.append_assoc] at hbody
  -- The precision ends at the comma, the scale at the next part.
  have hprecision : a.1 = b.1 := eq_of_append_cons hcomma hcomma' hbody
  rw [hprecision] at hbody
  have hscale := List.append_cancel_left (List.append_cancel_left hbody)
  obtain ⟨hsame, hrest⟩ := append_inj_of_stop hsemicolon hsemicolon'
    (fun d => f.follows_limitTail.eq_of_head) (fun d => g.follows_limitTail.eq_of_head)
    hscale
  exact ⟨Prod.ext hprecision hsame, hrest⟩

end Tails

section Comments

variable {f g : ColumnFacts}

theorem sizePart_eq
    (hf : IsAccepted f) :
    f.sizePart = f.sizes.toList.map (fun s => "precision: ".toList ++ sizeText s) := by
  have hgiven : ∀ {o : Option Text}, (∀ t, o = some t → (Options.asInteger t).isSome = true) →
      nonEmpty? o = o := fun haccepted =>
    nonEmpty?_eq_self (fun hnil => Options.ne_nil_of_asInteger (haccepted [] hnil) rfl)
  unfold sizePart sizes
  rw [hgiven hf.precision, hgiven hf.scale]
  cases f.precision <;> cases f.scale <;> simp [sizeText]

/-- The parts of a comment, each behind a separator. -/
theorem flatMap_parts
    (hf : IsAccepted f) :
    f.parts.flatMap (fun p => "; ".toList ++ p) = f.tail := by
  have hlimit : nonEmpty? f.limit = f.limit :=
    nonEmpty?_eq_self (fun hnil => Options.ne_nil_of_asInteger (hf.limit [] hnil) rfl)
  rw [parts, sizePart_eq hf, limitPart, defaultPart, referencePart, hlimit,
    nonEmpty?_eq_self hf.reference]
  simp only [List.flatMap_append, flatMap_toList_map, tail, limitTail, defaultTail, referenceTail,
    List.append_assoc]
  rw [flatMap_toList_map, flatMap_toList_map]

/-- A comment with a separator in front of it is its parts, each behind a separator. -/
theorem tail_eq
    (hf : IsAccepted f) :
    f.tail = (f.comment?.map (fun t => "; ".toList ++ t)).getD [] := by
  rw [← flatMap_parts hf, comment?]
  split
  · rename_i hparts
    rw [hparts]
    rfl
  · rename_i p ps hparts
    rw [hparts, List.flatMap_cons, join_cons_eq_flatMap, List.append_assoc]
    rfl

theorem comment?_eq_iff_tail_eq
    (hf : IsAccepted f)
    (hg : IsAccepted g) :
    f.comment? = g.comment? ↔ f.tail = g.tail := by
  rw [tail_eq hf, tail_eq hg]
  cases f.comment? <;> cases g.comment? <;> simp

/-- Two comments are the same just if they say the same: whatever the texts of the default and of the
referenced table hold, no part is taken for another.  Two real numbers as defaults must be the same
if they are written alike. -/
theorem comment_eq_iff
    (hf : IsAccepted f)
    (hg : IsAccepted g)
    (hreal : ∀ x y, f.default = some (.real x) → g.default = some (.real y) →
      Json.numberLayout.write x = Json.numberLayout.write y → x = y) :
    f.comment? = g.comment? ↔
      f.sizes = g.sizes ∧ f.limit = g.limit ∧ f.default = g.default
        ∧ f.reference = g.reference := by
  rw [comment?_eq_iff_tail_eq hf hg]
  constructor
  · intro h
    obtain ⟨hsizes, hrest⟩ := tail_inj hf hg h
    obtain ⟨hlimit, hrest⟩ := limitTail_inj hf hg hrest
    obtain ⟨hdefault, hrest⟩ := defaultTail_inj hreal hrest
    exact ⟨hsizes, hlimit, hdefault, referenceTail_inj hrest⟩
  · rintro ⟨hsizes, hlimit, hdefault, hreference⟩
    simp only [tail, limitTail, defaultTail, referenceTail, hsizes, hlimit, hdefault, hreference]

/-- A column with two decimal places. -/
def ofDefault (l : Literal) (reference : Option Text) : ColumnFacts :=
  { scale := some "2".toList, default := some l, reference := reference }

/-- A string that goes on like a reference is told from a string with a reference behind it, and so
are two numbers. -/
theorem comment_ne_of_imitation :
    ((ofDefault (.text "a\x22; ref: users".toList) none).comment?
        ≠ (ofDefault (.text "a".toList) (some "users".toList)).comment?)
      ∧ ((ofDefault (.real (Binary64.ofDecimal false 1 1)) none).comment?
        ≠ (ofDefault (.real (Binary64.ofDecimal false 2 1)) none).comment?) := by
  have haccepted : ∀ l reference, reference ≠ some [] → IsAccepted (ofDefault l reference) := by
    intro l reference hreference
    refine ⟨fun t ht => ?_, fun t ht => ?_, fun t ht => ?_, hreference⟩
    · cases ht
    · cases ht
      decide
    · cases ht
  constructor
  · intro h
    have hsame := (comment_eq_iff (haccepted _ none (by decide))
      (haccepted _ (some "users".toList) (by decide)) (by rintro x y ⟨⟩) ).1 h
    exact absurd hsame.2.2.2 (by decide)
  · intro h
    have hwritten : Json.numberLayout.write (Binary64.ofDecimal false 1 1)
        ≠ Json.numberLayout.write (Binary64.ofDecimal false 2 1) := by
      decide +kernel
    have hreal : ∀ x y, some (Literal.real (Binary64.ofDecimal false 1 1)) = some (.real x) →
        some (Literal.real (Binary64.ofDecimal false 2 1)) = some (.real y) →
        Json.numberLayout.write x = Json.numberLayout.write y → x = y := by
      rintro x y hx hy hxy
      cases hx
      cases hy
      exact absurd hxy hwritten
    have hsame := (comment_eq_iff (haccepted _ none (by decide)) (haccepted _ none (by decide))
      hreal).1 h
    have hdefault : Binary64.ofDecimal false 1 1 = Binary64.ofDecimal false 2 1 :=
      Literal.real.inj (Option.some.inj hsame.2.2.1)
    exact hwritten (congrArg Json.numberLayout.write hdefault)

end Comments

end ColumnFacts
end SchemaSpec
