import SchemaSpec.Proofs.Text.Casing
import SchemaSpec.Proofs.Text.Identifiers
import SchemaSpec.Proofs.Document.Bodies

/-!
# Enums in namespaces

What it means that a text declares an enum inside a namespace.  Names may hold any characters; a
brace counts as one unless it stands in backquotes or in the name of an enum.

* `Leads`: a text leads from one depth of braces to another, and goes no lower than depth zero.
* `DeclaresEnum`: the header of a namespace, what stands at its top level, and the header of an enum.
* `declaresEnum_enumNamespace`: a rendered namespace declares each of its enums.
* `not_declaresEnum`: an enum that no search of the text finds is not declared in any namespace.
-/

namespace SchemaSpec
namespace Document

open Text

/-- A header: a keyword, blanks, a name, blanks or nothing, and an opening brace. -/
def IsHeader (keyword name code : Text) : Prop :=
  ∃ gap space, (AllBlank gap ∧ gap ≠ []) ∧ AllBlank space
    ∧ code = keyword ++ gap ++ name ++ space ++ ['\x7b']

/-- Each backquote in a text stands behind a backslash. -/
def IsEscaped (t : Text) : Prop :=
  ∀ before after, t = before ++ '\x60' :: after → before.getLast? = some '\\'

/-- A character that opens and closes nothing. -/
def isFlat (c : Char) : Bool :=
  c != '\x7b' && c != '\x7d' && c != '\x60'

/-- A text of such characters. -/
def AllFlat (t : Text) : Prop :=
  ∀ c ∈ t, isFlat c = true

instance (t : Text) : Decidable (AllFlat t) :=
  decidable_of_iff (t.all isFlat = true) (by simp [AllFlat])

/-- A text leads from a depth of braces to another.  A piece in backquotes does not count, and the
header of an enum opens one brace, whatever its name holds. -/
inductive Leads : Nat → Nat → Text → Prop
  | nil {d : Nat} : Leads d d []
  | flat {d e : Nat} {c : Char} {t : Text} :
      isFlat c = true → Leads d e t → Leads d e (c :: t)
  | quoted {d e : Nat} {body t : Text} :
      IsEscaped body → Leads d e t → Leads d e ('\x60' :: (body ++ '\x60' :: t))
  | opener {d e : Nat} {t : Text} :
      Leads (d + 1) e t → Leads d e ('\x7b' :: t)
  | header {d e : Nat} {name code t : Text} :
      IsHeader "enum".toList name code → (∀ c ∈ name, isBlank c = false) → Leads (d + 1) e t →
        Leads d e (code ++ t)
  | closer {d e : Nat} {t : Text} :
      Leads d e t → Leads (d + 1) e ('\x7d' :: t)

/-- A text declares an enum in a namespace: behind the header of the namespace, and with none but
closed braces between, stands the header of the enum. -/
def DeclaresEnum (space name t : Text) : Prop :=
  ∃ before head inside code after, t = before ++ head ++ inside ++ code ++ after
    ∧ endsInWord false before = false ∧ IsHeader "namespace".toList space head
    ∧ Leads 0 0 inside ∧ endsInWord false inside = false ∧ IsHeader "enum".toList name code

section Headers

variable {keyword name code : Text}

/-- A header ends with its brace. -/
theorem IsHeader.getLast?
    (h : IsHeader keyword name code) :
    code.getLast? = some '\x7b' := by
  obtain ⟨gap, space, -, -, rfl⟩ := h
  exact List.getLast?_concat

/-- The header of a line, with single spaces. -/
theorem isHeader_line
    (keyword name : Text) :
    IsHeader keyword name (keyword ++ [' '] ++ name ++ " \x7b".toList) := by
  refine ⟨[' '], [' '], ⟨allBlank_space, List.cons_ne_nil _ _⟩, allBlank_space, ?_⟩
  have hend : " \x7b".toList = [' '] ++ ['\x7b'] := by decide
  rw [hend]
  simp only [List.append_assoc]

theorem IsHeader.isDeclaration
    {p : Char → Bool}
    (h : IsHeader keyword name code)
    (hname : name ≠ [] ∧ ∀ c ∈ name, p c = true) :
    IsDeclaration keyword p name code := by
  obtain ⟨gap, space, hgap, hspace, rfl⟩ := h
  exact ⟨gap, space, hgap, hname, hspace, rfl⟩

end Headers

section Depth

variable {d e f : Nat} {t u : Text}

theorem Leads.append
    (ht : Leads d e t)
    (hu : Leads e f u) :
    Leads d f (t ++ u) := by
  induction ht with
  | nil =>
      exact hu
  | flat hc _ ih =>
      exact .flat hc (ih hu)
  | quoted hbody _ ih =>
      simpa using Leads.quoted hbody (ih hu)
  | opener _ ih =>
      exact .opener (ih hu)
  | header hcode hname _ ih =>
      rw [List.append_assoc]
      exact .header hcode hname (ih hu)
  | closer _ ih =>
      exact .closer (ih hu)

/-- A text without braces and backquotes stays at its depth. -/
theorem leads_flat
    (h : AllFlat t) :
    Leads d d t := by
  induction t with
  | nil =>
      exact .nil
  | cons c t ih =>
      obtain ⟨hc, hrest⟩ := List.forall_mem_cons.1 h
      exact .flat hc (ih hrest)

/-- Texts that each stay at a depth stay there together. -/
theorem leads_flatMap
    {ts : List Text}
    {g : Text → Text}
    (h : ∀ t ∈ ts, Leads d d (g t)) :
    Leads d d (ts.flatMap g) := by
  induction ts with
  | nil =>
      exact .nil
  | cons t ts ih =>
      obtain ⟨ht, hrest⟩ := List.forall_mem_cons.1 h
      exact ht.append (ih hrest)

theorem leads_join
    {sep : Text}
    (hsep : AllFlat sep)
    {ts : List Text}
    (h : ∀ t ∈ ts, Leads d d t) :
    Leads d d (join sep ts) := by
  cases ts with
  | nil =>
      exact .nil
  | cons t ts =>
      obtain ⟨ht, hrest⟩ := List.forall_mem_cons.1 h
      rw [join_cons_eq_flatMap]
      exact ht.append (leads_flatMap (fun u hu => (leads_flat hsep).append (hrest u hu)))

end Depth

section Members

/-- With a backslash before each backquote, each backquote stands behind a backslash. -/
theorem isEscaped_flatMap
    (v : Text) :
    IsEscaped (v.flatMap (fun c => if c = '\x60' then ['\\', '\x60'] else [c])) := by
  induction v with
  | nil =>
      intro before after h
      simp at h
  | cons c v ih =>
      intro before after h
      rw [List.flatMap_cons] at h
      by_cases hc : c = '\x60'
      · rw [if_pos hc] at h
        match before, h with
        | [], h => exact absurd (List.cons_eq_cons.1 h).1 (by decide)
        | [b], h =>
            rw [← (List.cons_eq_cons.1 h).1]
            rfl
        | b :: q :: before, h =>
            obtain ⟨-, h⟩ := List.cons_eq_cons.1 h
            obtain ⟨hq, h⟩ := List.cons_eq_cons.1 h
            have hlast := ih before after h
            rw [List.getLast?_cons_cons, List.getLast?_cons, hlast]
            rfl
      · rw [if_neg hc] at h
        cases before with
        | nil =>
            exact absurd (List.cons_eq_cons.1 h).1 hc
        | cons b before =>
            have hlast := ih before after (List.cons_eq_cons.1 h).2
            rw [List.getLast?_cons, hlast]
            rfl

theorem allFlat_of_isIdentifier
    {t : Text}
    (h : isIdentifier t = true) :
    AllFlat t := by
  intro c hc
  have hout : ∀ d : Char, isIdentifierChar d = false → c ≠ d := by
    rintro d hd rfl
    exact not_mem_of_isIdentifier h hd hc
  unfold isFlat
  simp only [Bool.and_eq_true, bne_iff_ne]
  exact ⟨⟨hout _ (by decide), hout _ (by decide)⟩, hout _ (by decide)⟩

theorem mem_dropFinalLineFeed
    {t : Text}
    {c : Char}
    (h : c ∈ t) :
    c ∈ dropFinalLineFeed t ∨ c = '\n' := by
  obtain ⟨feed, heq, hfeed⟩ := exists_dropFinalLineFeed_append t
  rw [heq] at h
  rcases List.mem_append.1 h with h | h
  · exact Or.inl h
  · rcases hfeed with rfl | rfl
    · cases h
    · exact Or.inr (List.mem_singleton.1 h)

/-- An enum member stays at its depth, whatever its value is. -/
theorem leads_enumMember
    {d : Nat}
    (v : Text) :
    Leads d d (enumMember v) := by
  unfold enumMember
  split
  · rename_i hplain
    refine leads_flat (fun c hc => ?_)
    rcases mem_dropFinalLineFeed hc with hc | rfl
    · exact allFlat_of_isIdentifier hplain c hc
    · decide
  · exact .quoted (isEscaped_flatMap v) .nil

theorem enumLine_eq
    (e : EnumDecl) :
    enumLine e = "    ".toList
      ++ ("enum".toList ++ [' '] ++ Naming.toPascal e.fieldName ++ " \x7b".toList) := by
  have hsplit : "    enum ".toList = "    ".toList ++ ("enum".toList ++ [' ']) := by decide
  unfold enumLine
  rw [hsplit]
  simp only [List.append_assoc]

theorem namespaceLine_eq
    (modelName : Text) :
    namespaceLine modelName = "  ".toList
      ++ ("namespace".toList ++ [' '] ++ enumNamespaceName modelName ++ " \x7b".toList) := by
  have hsplit : "  namespace ".toList = "  ".toList ++ ("namespace".toList ++ [' ']) := by decide
  unfold namespaceLine
  rw [hsplit]
  simp only [List.append_assoc]

/-- An enum closes what it opens. -/
theorem leads_enumBlock
    (e : EnumDecl) :
    Leads 0 0 (enumBlock e) := by
  have hindent : Leads 0 0 "    ".toList := leads_flat (by decide)
  have hmembers : Leads 1 1 (join ['\n'] (e.values.map enumMemberLine)) := by
    refine leads_join (by decide) (fun t ht => ?_)
    obtain ⟨v, -, rfl⟩ := List.mem_map.1 ht
    unfold enumMemberLine
    exact ((leads_flat (by decide)).append (leads_enumMember v)).append (leads_flat (by decide))
  have hend : Leads 1 0 ('\n' :: "    \x7d".toList) := by
    have hbrace : '\n' :: "    \x7d".toList = "\n    ".toList ++ ['\x7d'] := by decide
    have hblanks : Leads 1 1 "\n    ".toList := leads_flat (by decide)
    rw [hbrace]
    exact hblanks.append (.closer .nil)
  have hbody := Leads.flat (by decide : isFlat '\n' = true) (hmembers.append hend)
  have hcode := Leads.header (isHeader_line "enum".toList (Naming.toPascal e.fieldName))
    (fun c hc => Naming.not_isBlank_of_mem_toPascal hc) hbody
  rw [enumBlock_eq, enumLine_eq, List.append_assoc]
  exact hindent.append hcode

end Members

section Declared

variable {space name t u : Text}

/-- A declaration stays one when the text goes on. -/
theorem DeclaresEnum.append_right
    (h : DeclaresEnum space name t)
    (u : Text) :
    DeclaresEnum space name (t ++ u) := by
  obtain ⟨before, head, inside, code, after, rfl, hstart, hhead, hinside, hend, hcode⟩ := h
  exact ⟨before, head, inside, code, after ++ u, by simp, hstart, hhead, hinside, hend, hcode⟩

/-- A declaration stays one behind a text that ends in no word. -/
theorem DeclaresEnum.append_left
    (h : DeclaresEnum space name t)
    (hu : endsInWord false u = false) :
    DeclaresEnum space name (u ++ t) := by
  obtain ⟨before, head, inside, code, after, rfl, hstart, hhead, hinside, hend, hcode⟩ := h
  refine ⟨u ++ before, head, inside, code, after, by simp, ?_, hhead, hinside, hend, hcode⟩
  rw [endsInWord_append, hu]
  exact hstart

/-- No declaration ends in a text without an opening brace. -/
theorem DeclaresEnum.of_append
    (h : DeclaresEnum space name (t ++ u))
    (hu : '\x7b' ∉ u) :
    DeclaresEnum space name t := by
  obtain ⟨before, head, inside, code, after, htext, hstart, hhead, hinside, hend, hcode⟩ := h
  rcases cut_cases htext.symm with ⟨x, rfl⟩ | ⟨x, -, rfl⟩ | ⟨left, right, -, hr, rfl, -, rfl⟩
  · exact ⟨before, head, inside, code, x, rfl, hstart, hhead, hinside, hend, hcode⟩
  · have hmem := List.mem_of_getLast? hcode.getLast?
    exact absurd (by simp [hmem]) hu
  · have hlast := hcode.getLast?
    rw [List.getLast?_append_of_ne_nil _ hr] at hlast
    exact absurd (List.mem_append_left _ (List.mem_of_getLast? hlast)) hu

/-- An enum that is found nowhere in a text is declared in no namespace. -/
theorem not_declaresEnum
    (hname : IsWordRun name)
    (h : name ∉ declaredFrom "enum".toList isWord false t) :
    ¬ DeclaresEnum space name t := by
  rintro ⟨before, head, inside, code, after, rfl, -, hhead, -, hend, hcode⟩
  refine h ((mem_declaredFrom_iff nameClass_isWord).2 ⟨before ++ head ++ inside, code, after, rfl,
    ?_, hcode.isDeclaration hname⟩)
  obtain ⟨gap, blanks, -, -, rfl⟩ := hhead
  have hbrace : isWord '\x7b' = false := by decide
  rw [endsInWord_append, ← List.append_assoc before, endsInWord_concat, hbrace]
  exact hend

end Declared

/-- A rendered namespace declares each of its enums. -/
theorem declaresEnum_enumNamespace
    {modelName : Text}
    {enums : List EnumDecl}
    {e : EnumDecl}
    (h : e ∈ enums) :
    DeclaresEnum (enumNamespaceName modelName) (Naming.toPascal e.fieldName)
      (enumNamespace modelName enums) := by
  obtain ⟨left, right, rfl⟩ := List.append_of_mem h
  have hgap : ∀ inWord, endsInWord inWord "    ".toList = false := by decide
  have hinside : Leads 0 0 ('\n' :: ((left.map enumBlock).flatMap (fun u => u ++ ['\n', '\n'])
      ++ "    ".toList)) := by
    have hindent : Leads 0 0 "    ".toList := leads_flat (by decide)
    refine .flat (by decide) ((leads_flatMap (fun t ht => ?_)).append hindent)
    obtain ⟨k, -, rfl⟩ := List.mem_map.1 ht
    exact (leads_enumBlock k).append (leads_flat (by decide))
  rw [enumNamespace_eq, namespaceLine_eq, List.map_append, List.map_cons, join_eq_flatMap,
    enumBlock_eq, enumLine_eq]
  refine ⟨"  ".toList, _, _, _,
    '\n' :: (join ['\n'] (e.values.map enumMemberLine) ++ '\n' :: "    \x7d".toList)
      ++ (right.map enumBlock).flatMap (fun u => ['\n', '\n'] ++ u) ++ '\n' :: closingLine,
    ?_, by decide, isHeader_line "namespace".toList _, hinside, ?_, isHeader_line "enum".toList _⟩
  · simp only [List.append_assoc, List.cons_append, List.nil_append]
  · rw [← List.cons_append, endsInWord_append, hgap]

end Document
end SchemaSpec
