import Mathlib.Data.List.Flatten
import SchemaSpec.Proofs.Options.Closed
import SchemaSpec.Proofs.Json.Reading
import SchemaSpec.Proofs.Journal.Steps
import SchemaSpec.Proofs.Document.Rows
import SchemaSpec.Table.Schema

/-!
# The texts of read tables

What is read from a listing comes from single lines of it, and no reader makes a line feed of its own:
not even an escaped one becomes a line feed.

* `KeepsLine`: a reader that makes no line feeds.
* `lineFeed_not_mem_comment?`: the metadata of a column is one line.
* `isRead_of_parse`: the texts of the tables of a listing are one line each.
* `TableModel.IsRead.not_isBlank`: the names of their models have no blanks.
-/

namespace SchemaSpec

open Text

namespace Text

theorem subset_of_after?
    {opening t rest : Text}
    (h : after? opening t = some rest) :
    rest ⊆ t := by
  rw [after?_eq_some_iff.1 h]
  exact List.subset_append_right opening rest

theorem lineFeed_not_mem_of_subset
    {t u : Text}
    (h : '\n' ∉ u)
    (ht : t ⊆ u) :
    '\n' ∉ t :=
  fun hmem => h (ht hmem)

end Text

namespace Options

/-- Texts of which each loses something, one behind the other. -/
theorem flatten_map_sublist
    {f : Text → Text}
    (hf : ∀ t, List.Sublist (f t) t)
    (ts : List Text) :
    List.Sublist (ts.map f).flatten ts.flatten := by
  induction ts with
  | nil =>
      exact List.Sublist.refl []
  | cons t ts ih =>
      exact (hf t).append ih

/-- The pieces of a text are what is left of it without its separators. -/
theorem flatten_pieces_sublist
    (sep : Char → Bool)
    (s : Scan)
    (t : Text) :
    List.Sublist (s.pieces sep t).flatten t := by
  induction t generalizing s with
  | nil =>
      exact List.Sublist.refl []
  | cons c r ih =>
      unfold Scan.pieces
      split
      · exact (ih s).cons c
      · have hrest := ih (s.step c)
        cases hcut : (s.step c).pieces sep r with
        | nil =>
            exact absurd hcut (Scan.pieces_ne_nil sep _ r)
        | cons first others =>
            rw [hcut] at hrest
            exact hrest.cons_cons c

theorem flatten_splitTopLevel_sublist
    (t : Text) :
    List.Sublist (splitTopLevel t).flatten t :=
  List.filter_sublist.flatten.trans
    ((flatten_map_sublist trim_sublist _).trans (flatten_pieces_sublist _ _ t))

theorem splitTopLevel_subset
    {t piece : Text}
    (h : piece ∈ splitTopLevel t) :
    piece ⊆ t :=
  ((List.sublist_flatten_of_mem h).trans (flatten_splitTopLevel_sublist t)).subset

theorem subset_of_quotedWord?
    {t w rest : Text}
    (h : quotedWord? t = some (w, rest)) :
    w ⊆ t ∧ rest ⊆ t := by
  unfold quotedWord? at h
  split at h
  · rename_i r
    split at h
    · rename_i v behind hword
      obtain ⟨rfl, rfl⟩ := Prod.mk.inj (Option.some.inj h)
      obtain ⟨rfl, -⟩ := word?_eq_some hword
      constructor
      · intro c hc
        simp [hc]
      · intro c hc
        simp [hc]
    · cases h
  · cases h

theorem subset_of_symbolWord?
    {t w rest : Text}
    (h : symbolWord? t = some (w, rest)) :
    w ⊆ t ∧ rest ⊆ t := by
  unfold symbolWord? at h
  split at h
  · obtain ⟨rfl, -⟩ := word?_eq_some h
    constructor
    · intro c hc
      simp [hc]
    · intro c hc
      simp [hc]
  · cases h

theorem subset_of_word?
    {t w rest : Text}
    (h : word? t = some (w, rest)) :
    w ⊆ t ∧ rest ⊆ t := by
  obtain ⟨rfl, -⟩ := word?_eq_some h
  exact ⟨List.subset_append_left _ _, List.subset_append_right _ _⟩

/-- The value of a pair is a part of the piece. -/
theorem subset_of_pair?
    {piece key value : Text}
    (h : pair? piece = some (key, value)) :
    value ⊆ piece := by
  unfold pair? at h
  rcases Option.or_eq_some_iff.1 h with hcolon | ⟨-, harrow⟩
  · unfold colonPair? at hcolon
    split at hcolon
    · rename_i k v hread
      obtain ⟨-, rfl⟩ := Prod.mk.inj (Option.some.inj hcolon)
      have hrest : ':' :: v ⊆ piece := by
        rcases Option.or_eq_some_iff.1 hread with hread | ⟨-, hread⟩
        · exact (subset_of_quotedWord? hread).2
        · exact (subset_of_word? hread).2
      exact List.Subset.trans (trim_subset v)
        (List.Subset.trans (List.subset_cons_self ':' v) hrest)
    · cases hcolon
  · unfold arrowPair? at harrow
    split at harrow
    · rename_i k rest hread
      have hrest : rest ⊆ piece := by
        rcases Option.or_eq_some_iff.1 hread with hread | ⟨-, hread⟩
        · exact (subset_of_symbolWord? hread).2
        · exact (subset_of_quotedWord? hread).2
      split at harrow
      · rename_i v htrim
        obtain ⟨-, rfl⟩ := Prod.mk.inj (Option.some.inj harrow)
        have hv : v ⊆ trimStart rest := by
          rw [htrim]
          intro c hc
          simp [hc]
        exact List.Subset.trans (trim_subset v) (List.Subset.trans hv
          (List.Subset.trans (List.dropWhile_sublist _).subset hrest))
      · cases harrow
    · cases harrow

/-- Option values without line feeds. -/
def OneLineValues (options : OptionList) : Prop :=
  ∀ p ∈ options, '\n' ∉ p.2

theorem oneLineValues_assign
    {key value : Text}
    {options : OptionList}
    (hvalue : '\n' ∉ value)
    (h : OneLineValues options) :
    OneLineValues (assign key value options) := by
  induction options with
  | nil =>
      intro p hp
      rw [List.mem_singleton.1 hp]
      exact hvalue
  | cons first others ih =>
      obtain ⟨k, v⟩ := first
      obtain ⟨hfirst, hothers⟩ := List.forall_mem_cons.1 h
      unfold assign
      split
      · exact List.forall_mem_cons.2 ⟨hvalue, hothers⟩
      · exact List.forall_mem_cons.2 ⟨hfirst, ih hothers⟩

theorem oneLineValues_parse
    {tail : Text}
    (h : '\n' ∉ tail) :
    OneLineValues (parse tail) := by
  have hfold : ∀ (pairs : List (Text × Text)) (options : OptionList),
      (∀ p ∈ pairs, '\n' ∉ p.2) → OneLineValues options →
        OneLineValues (pairs.foldl (fun ps p => assign p.1 p.2 ps) options) := by
    intro pairs
    induction pairs with
    | nil =>
        exact fun _ _ h => h
    | cons p pairs ih =>
        intro options hpairs hoptions
        obtain ⟨hp, hpairs⟩ := List.forall_mem_cons.1 hpairs
        exact ih _ hpairs (oneLineValues_assign hp hoptions)
  refine hfold _ [] (fun p hp => ?_) (by simp [OneLineValues])
  obtain ⟨piece, hpiece, hread⟩ := List.mem_filterMap.1 hp
  have hcut : ((trim tail).dropWhile fun c => c == ',') ⊆ tail :=
    List.Subset.trans (List.dropWhile_sublist _).subset (trim_subset tail)
  exact lineFeed_not_mem_of_subset h
    (List.Subset.trans (subset_of_pair? hread) (List.Subset.trans (splitTopLevel_subset hpiece) hcut))

/-- A reader of raw values that makes no line feeds. -/
def KeepsLine (read : Text → Option Text) : Prop :=
  ∀ raw t, '\n' ∉ raw → read raw = some t → '\n' ∉ t

theorem OneLineValues.get?
    {options : OptionList}
    (h : OneLineValues options)
    {key value : Text}
    (hget : Options.get? key options = some value) :
    '\n' ∉ value := by
  unfold Options.get? at hget
  obtain ⟨l, r, hsplit, -⟩ := List.lookup_eq_some_iff.1 hget
  exact h (key, value) (by rw [hsplit]; simp)

theorem OneLineValues.bind
    {options : OptionList}
    (h : OneLineValues options)
    {read : Text → Option Text}
    (hread : KeepsLine read)
    {key t : Text}
    (hget : (Options.get? key options).bind read = some t) :
    '\n' ∉ t := by
  obtain ⟨raw, hraw, ht⟩ := Option.bind_eq_some_iff.1 hget
  exact hread raw t (h.get? hraw) ht

/-- No escape of a string literal stands for a line feed. -/
theorem lineFeed_not_mem_unescape
    {quote : Char}
    {t : Text}
    (h : '\n' ∉ t) :
    '\n' ∉ unescape quote t := by
  induction t using unescape.induct quote with
  | case1 =>
      exact h
  | case2 c r hc ih =>
      rw [unescape, if_pos hc]
      simp only [List.mem_cons, not_or] at h ⊢
      exact ⟨h.2.1, ih h.2.2⟩
  | case3 c r hc hspace ih =>
      rw [unescape, if_neg hc, if_pos hspace]
      simp only [List.mem_cons, not_or] at h ⊢
      exact ⟨by decide, ih h.2.2⟩
  | case4 c r hc hspace ih =>
      rw [unescape, if_neg hc, if_neg hspace]
      simp only [List.mem_cons, not_or] at h ⊢
      exact ⟨h.1, h.2.1, ih h.2.2⟩
  | case5 c r hc ih =>
      rw [unescape]
      · simp only [List.mem_cons, not_or] at h ⊢
        exact ⟨h.1, ih h.2⟩
      · exact hc

theorem keepsLine_unquote :
    KeepsLine unquote := by
  intro raw t h hread
  unfold unquote at hread
  split at hread
  · rename_i q body e hends
    split at hread
    · rw [← Option.some.inj hread]
      refine lineFeed_not_mem_unescape (lineFeed_not_mem_of_subset h ?_)
      refine List.Subset.trans ?_ (trim_subset raw)
      unfold ends? at hends
      split at hends
      · rename_i c d r htrim
        obtain ⟨-, hbody⟩ := Prod.mk.inj (Option.some.inj hends)
        rw [htrim, ← (Prod.mk.inj hbody).1]
        exact List.Subset.trans (List.dropLast_subset _) (List.subset_cons_self c (d :: r))
      · cases hends
    · cases hread
  · cases hread

theorem keepsLine_asSymbol :
    KeepsLine asSymbol := by
  intro raw t h hread
  unfold asSymbol at hread
  split at hread
  · rename_i w hsymbol
    rw [← Option.some.inj hread]
    exact lineFeed_not_mem_of_subset h
      (List.Subset.trans (subset_of_symbolWord? hsymbol).1 (trim_subset raw))
  · exact keepsLine_unquote raw t h hread

theorem keepsLine_asInteger :
    KeepsLine asInteger := by
  intro raw t h hread
  unfold asInteger at hread
  split at hread
  · rw [← Option.some.inj hread]
    exact lineFeed_not_mem_of_subset h (trim_subset raw)
  · cases hread

theorem oneLineValues_asGroup
    {raw : Text}
    (h : '\n' ∉ raw) :
    OneLineValues (asGroup raw) := by
  unfold asGroup
  dsimp only
  split
  · refine oneLineValues_parse (lineFeed_not_mem_of_subset h ?_)
    exact List.Subset.trans (List.dropLast_subset _)
      (List.Subset.trans (List.drop_subset _ _) (trim_subset raw))
  · exact fun p hp => absurd hp List.not_mem_nil

end Options

section Metadata

open Options

theorem lineFeed_not_mem_escapeChar
    (c : Char) :
    '\n' ∉ Json.escapeChar c := by
  have hdigit : ∀ n < 16, Nat.digitChar n ≠ '\n' := by decide
  have hunit : ∀ n, '\n' ∉ Json.unitEscape n := by
    intro n hmem
    simp only [Json.unitEscape, Json.hex4, List.mem_cons, List.not_mem_nil, or_false] at hmem
    rcases hmem with h | h | h | h | h | h
    · cases h
    · cases h
    all_goals exact hdigit _ (Nat.mod_lt _ (by decide)) h.symm
  unfold Json.escapeChar
  split_ifs with h1 h2 h3
  any_goals decide
  any_goals exact hunit _
  · rw [List.mem_singleton]
    exact Ne.symm h3
  · exact lineFeed_not_mem_append (hunit _) (hunit _)

/-- A literal written out is one line, whatever text it holds. -/
theorem lineFeed_not_mem_render
    (l : Literal) :
    '\n' ∉ l.toJson.render := by
  rcases l.isBare_or_eq_text with hl | ⟨t, rfl⟩
  · exact fun hmem => absurd (Literal.bare_subset hl hmem) (by decide)
  · have hbody : '\n' ∉ t.flatMap Json.escapeChar := by
      intro hmem
      obtain ⟨c, -, hc⟩ := List.mem_flatMap.1 hmem
      exact lineFeed_not_mem_escapeChar c hc
    simp [Literal.toJson, Json.render, Json.quote, hbody]

/-- Metadata is one line if the facts in it are. -/
theorem lineFeed_not_mem_comment?
    {facts : ColumnFacts}
    (h : ∀ fact ∈ [facts.precision, facts.scale, facts.limit, facts.reference],
      ∀ t, fact = some t → '\n' ∉ t)
    {metadata : Text}
    (hcomment : facts.comment? = some metadata) :
    '\n' ∉ metadata := by
  have hfact : ∀ fact ∈ [facts.precision, facts.scale, facts.limit, facts.reference],
      ∀ t ∈ (nonEmpty? fact).toList, '\n' ∉ t := fun fact hmem t ht =>
    h fact hmem t (Option.mem_toList.1 (Document.mem_of_nonEmpty? (Option.mem_toList.1 ht)))
  have hsize : ∀ fact ∈ [facts.precision, facts.scale, facts.limit, facts.reference],
      ∀ usual, '\n' ∉ usual → '\n' ∉ (nonEmpty? fact).getD usual := by
    intro fact hmem usual husual
    cases hread : nonEmpty? fact with
    | none =>
        exact husual
    | some t =>
        exact hfact fact hmem t (by simp [hread])
  have hparts : ∀ part ∈ facts.parts, '\n' ∉ part := by
    intro part hpart
    simp only [ColumnFacts.parts, List.mem_append] at hpart
    rcases hpart with ((hpart | hpart) | hpart) | hpart
    · unfold ColumnFacts.sizePart at hpart
      split at hpart
      · cases hpart
      · rw [List.mem_singleton.1 hpart]
        exact lineFeed_not_mem_append (lineFeed_not_mem_append (lineFeed_not_mem_append (by decide)
          (hsize _ (by simp) _ (by decide))) (by decide)) (hsize _ (by simp) _ (by decide))
    · obtain ⟨t, ht, rfl⟩ := List.mem_map.1 hpart
      exact lineFeed_not_mem_append (by decide) (hfact _ (by simp) t ht)
    · obtain ⟨l, -, rfl⟩ := List.mem_map.1 hpart
      exact lineFeed_not_mem_append (by decide) (lineFeed_not_mem_render l)
    · obtain ⟨t, ht, rfl⟩ := List.mem_map.1 hpart
      exact lineFeed_not_mem_append (by decide) (hfact _ (by simp) t ht)
  unfold ColumnFacts.comment? at hcomment
  split at hcomment
  · cases hcomment
  · rename_i p ps heq
    rw [← Option.some.inj hcomment, ← heq]
    intro hmem
    rcases mem_join hmem with hsep | ⟨part, hpart, hin⟩
    · exact absurd hsep (by decide)
    · exact hparts part hpart hin

end Metadata

/-- A table as a listing gives it: its texts are one line each, and its model is named after it. -/
structure TableModel.IsRead (m : TableModel) : Prop where
  oneLine : Document.OneLine (Document.modelTexts m)
  named : m.name = Naming.modelName m.tableName

/-- The name of a model that a listing gives has no blanks. -/
theorem TableModel.IsRead.not_isBlank
    {m : TableModel}
    (h : m.IsRead)
    {c : Char}
    (hc : c ∈ m.name) :
    isBlank c = false := by
  rw [h.named] at hc
  exact Naming.not_isBlank_of_mem_toPascal hc

namespace Column

open Options Document

theorem lineFeed_not_mem_ofKind
    (kind : Text) :
    '\n' ∉ ScalarType.ofKind kind := by
  have htable : ∀ p ∈ ScalarType.kinds, '\n' ∉ p.2 := by decide
  unfold ScalarType.ofKind
  cases hlookup : ScalarType.kinds.lookup (lower kind) with
  | none =>
      decide
  | some t =>
      obtain ⟨l, r, hsplit, -⟩ := List.lookup_eq_some_iff.1 hlookup
      exact htable (lower kind, t) (by rw [hsplit]; simp)

theorem subset_of_quotedName?
    {t name rest : Text}
    (h : quotedName? t = some (name, rest)) :
    name ⊆ t ∧ rest ⊆ t := by
  unfold quotedName? at h
  split at h
  · cases h
  · rename_i q r
    split at h
    · split at h
      · rename_i c n e behind htake hdrop
        obtain ⟨rfl, rfl⟩ := Prod.mk.inj (Option.some.inj h)
        constructor
        · rw [← htake]
          exact List.Subset.trans (List.takeWhile_sublist _).subset (List.subset_cons_self q r)
        · have hrest : e :: behind ⊆ r := hdrop ▸ (List.dropWhile_sublist _).subset
          exact List.Subset.trans (List.subset_cons_self e behind)
            (List.Subset.trans hrest (List.subset_cons_self q r))
      · cases h
    · cases h

theorem subset_of_parts?
    {block line kind name tail : Text}
    (h : parts? block line = some (kind, name, tail)) :
    name ⊆ line ∧ tail ⊆ line := by
  unfold parts? at h
  obtain ⟨rest, hafter, h⟩ := Option.bind_eq_some_iff.1 h
  obtain ⟨⟨k, behind⟩, hword, h⟩ := Option.bind_eq_some_iff.1 h
  dsimp only at h
  split at h
  · obtain ⟨⟨n, t⟩, hname, h⟩ := Option.bind_eq_some_iff.1 h
    dsimp only at h
    split at h
    · cases h
    · cases h
      obtain ⟨hn, ht⟩ := subset_of_quotedName? hname
      have hbehind : trimStart behind ⊆ line :=
        List.Subset.trans (List.dropWhile_sublist _).subset
          (List.Subset.trans (subset_of_word? hword).2 (subset_of_after? hafter))
      exact ⟨List.Subset.trans hn hbehind, List.Subset.trans ht hbehind⟩
  · cases h

/-- The facts and the description of a column come from values of its options. -/
theorem oneLine_field
    {f : Field}
    (hname : '\n' ∉ f.name)
    (htype : '\n' ∉ f.typeName)
    (hdescription : ∀ t, f.description = some t → '\n' ∉ t)
    (hmetadata : ∀ t, f.metadata = some t → '\n' ∉ t) :
    OneLine (fieldTexts f) := by
  intro t ht
  simp only [fieldTexts, List.mem_cons, List.mem_append, Option.mem_toList] at ht
  rcases ht with rfl | rfl | ht | ht
  · exact hname
  · exact htype
  · exact hdescription t ht
  · exact hmetadata t ht

theorem lineFeed_not_mem_referenceType
    (options : OptionList) :
    '\n' ∉ referenceType options := by
  unfold referenceType
  split
  · exact lineFeed_not_mem_ofKind _
  · exact lineFeed_not_mem_ofKind _

theorem lineFeed_not_mem_referenceTable
    {name : Text}
    {options : OptionList}
    (hname : '\n' ∉ name)
    (h : OneLineValues options) :
    '\n' ∉ referenceTable name options := by
  have hgroup : OneLineValues (((get? "foreign_key".toList options).map asGroup).getD []) := by
    cases hget : get? "foreign_key".toList options with
    | none =>
        exact fun p hp => absurd hp List.not_mem_nil
    | some raw =>
        exact oneLineValues_asGroup (h.get? hget)
  unfold referenceTable
  dsimp only
  cases htable : nonEmpty? ((get? "to_table".toList
      (((get? "foreign_key".toList options).map asGroup).getD [])).bind asSymbol) with
  | none =>
      exact hname
  | some t =>
      exact hgroup.bind keepsLine_asSymbol (Option.mem_toList.1 (mem_of_nonEmpty? htable))

theorem oneLine_ofReference
    {name tail : Text}
    (hname : '\n' ∉ name)
    (htail : '\n' ∉ tail)
    {f : Field}
    (h : ofReference name tail = .ok f) :
    OneLine (fieldTexts f) := by
  have hoptions := oneLineValues_parse htail
  unfold ofReference at h
  obtain ⟨default, -, h⟩ := except_bind_eq_ok.1 h
  rw [← Except.ok.inj h]
  refine oneLine_field ?_ ?_ ?_ ?_
  · exact lineFeed_not_mem_append hname (by decide)
  · exact lineFeed_not_mem_referenceType _
  · exact fun t ht => hoptions.bind keepsLine_unquote ht
  · intro t ht
    refine lineFeed_not_mem_comment? (fun fact hfact u hu => ?_) ht
    simp only [List.mem_cons, List.not_mem_nil, or_false] at hfact
    rcases hfact with rfl | rfl | rfl | rfl
    · exact hoptions.bind keepsLine_asInteger hu
    · exact hoptions.bind keepsLine_asInteger hu
    · exact hoptions.bind keepsLine_asInteger hu
    · rw [← Option.some.inj hu]
      exact lineFeed_not_mem_referenceTable hname hoptions

theorem oneLine_ofKind
    {kind name tail : Text}
    (hname : '\n' ∉ name)
    (htail : '\n' ∉ tail)
    {f : Field}
    (h : ofKind kind name tail = .ok f) :
    OneLine (fieldTexts f) := by
  have hoptions := oneLineValues_parse htail
  unfold ofKind at h
  obtain ⟨default, -, h⟩ := except_bind_eq_ok.1 h
  rw [← Except.ok.inj h]
  refine oneLine_field hname (lineFeed_not_mem_ofKind _) ?_ ?_
  · exact fun t ht => hoptions.bind keepsLine_unquote ht
  · intro t ht
    refine lineFeed_not_mem_comment? (fun fact hfact u hu => ?_) ht
    simp only [List.mem_cons, List.not_mem_nil, or_false] at hfact
    rcases hfact with rfl | rfl | rfl | rfl
    · split at hu
      · exact hoptions.bind keepsLine_asInteger hu
      · cases hu
    · split at hu
      · exact hoptions.bind keepsLine_asInteger hu
      · cases hu
    · exact hoptions.bind keepsLine_asInteger hu
    · cases hu

theorem oneLine_timestamps
    (tail : Text) :
    ∀ f ∈ timestamps tail, OneLine (fieldTexts f) := by
  have hnames : ∀ name ∈ ["created_at", "updated_at"], '\n' ∉ name.toList := by decide
  intro f hf
  obtain ⟨name, hname, rfl⟩ := List.mem_map.1 hf
  have htype := lineFeed_not_mem_ofKind "datetime".toList
  exact oneLine_field (hnames name hname) htype (by simp) (by simp)

/-- The columns of a line without line feeds have none either. -/
theorem oneLine_ofLine
    {block line : Text}
    (hline : '\n' ∉ line)
    {fields : List Field}
    (h : ofLine block line = .ok fields) :
    ∀ f ∈ fields, OneLine (fieldTexts f) := by
  have hsingle : ∀ read : Except LiteralError Field, read.map (fun f => [f]) = .ok fields →
      (∀ f, read = .ok f → OneLine (fieldTexts f)) → ∀ f ∈ fields, OneLine (fieldTexts f) := by
    intro read hread hall f hf
    cases read with
    | error e =>
        cases hread
    | ok g =>
        cases hread
        rw [List.mem_singleton.1 hf]
        exact hall g rfl
  have htrimmed := lineFeed_not_mem_of_subset hline (trim_subset line)
  unfold ofLine at h
  split at h
  · cases h
    simp
  · rename_i c r htrim
    split at h
    · cases h
      simp
    · rw [htrim] at htrimmed
      unfold ofCode at h
      split at h
      · cases h
        exact oneLine_timestamps _
      · split at h
        · cases h
          simp
        · rename_i kind name tail hparts
          obtain ⟨hname, htail⟩ := subset_of_parts? hparts
          have hname := lineFeed_not_mem_of_subset htrimmed hname
          have htail := lineFeed_not_mem_of_subset htrimmed htail
          split at h
          · cases h
            simp
          · split at h
            · exact hsingle _ h (fun f => oneLine_ofReference hname htail)
            · exact hsingle _ h (fun f => oneLine_ofKind hname htail)

theorem oneLine_ofLines
    {block : Text}
    {body : List Text}
    (hbody : OneLine body)
    {fields : List Field}
    (h : ofLines block body = .ok fields) :
    ∀ f ∈ fields, OneLine (fieldTexts f) := by
  induction body generalizing fields with
  | nil =>
      cases h
      simp
  | cons line rest ih =>
      obtain ⟨hline, hrest⟩ := List.forall_mem_cons.1 hbody
      unfold ofLines at h
      obtain ⟨here, hhere, h⟩ := except_bind_eq_ok.1 h
      obtain ⟨behind, hbehind, h⟩ := except_bind_eq_ok.1 h
      rw [← Except.ok.inj h]
      intro f hf
      rcases List.mem_append.1 hf with hf | hf
      · exact oneLine_ofLine hline hhere f hf
      · exact ih hrest hbehind f hf

end Column

namespace Header

open Options Document

theorem subset_of_skipParenthesis
    (t : Text) :
    skipParenthesis t ⊆ t := by
  have hstart : trimStart t ⊆ t := (List.dropWhile_sublist _).subset
  unfold skipParenthesis
  split
  · rename_i r htrim
    refine List.Subset.trans (List.dropWhile_sublist _).subset (List.Subset.trans ?_ hstart)
    rw [htrim]
    exact List.subset_cons_self '(' r
  · exact hstart

/-- The rest of a line that starts a header is a part of it. -/
theorem subset_of_open?
    {line tableName rest : Text}
    (h : open? line = some (tableName, rest)) :
    rest ⊆ line := by
  unfold open? at h
  obtain ⟨behind, hafter, h⟩ := Option.bind_eq_some_iff.1 h
  obtain ⟨⟨name, tail⟩, hname, h⟩ := Option.bind_eq_some_iff.1 h
  dsimp only at h
  split at h
  · cases h
  · cases h
    exact List.Subset.trans (Column.subset_of_quotedName? hname).2
      (List.Subset.trans (subset_of_skipParenthesis behind) (subset_of_after? hafter))

/-- What stands before the end of a header is a part of the line. -/
theorem subset_of_closeFrom?
    {inWord : Bool}
    {line before block : Text}
    (h : closeFrom? inWord line = some (before, block)) :
    before ⊆ line := by
  induction line generalizing inWord before with
  | nil =>
      cases h
  | cons c r ih =>
      unfold closeFrom? at h
      split at h
      · cases h
        exact List.nil_subset _
      · obtain ⟨⟨b, k⟩, hrest, hcons⟩ := Option.map_eq_some_iff.1 h
        cases hcons
        exact List.cons_subset_cons c (ih hrest)

/-- A header read from one line of attributes. -/
def IsOneLine (h : Header) : Prop :=
  OneLine (h.comment.toList ++ h.ownKey.toList)

theorem isOneLine_ofAttributes
    {tableName attributes : Text}
    (h : '\n' ∉ attributes) :
    IsOneLine (ofAttributes tableName attributes) := by
  have hoptions : OneLineValues (parse (dropEnd (fun c => c == ')') (trim attributes))) :=
    oneLineValues_parse (lineFeed_not_mem_of_subset h
      (List.Subset.trans (dropEnd_subset _ _) (trim_subset attributes)))
  intro t ht
  rcases List.mem_append.1 ht with ht | ht
  · exact hoptions.bind keepsLine_unquote (Option.mem_toList.1 ht)
  · exact hoptions.bind keepsLine_asSymbol (Option.mem_toList.1 ht)

/-- A table with one-line columns behind a one-line header is as a listing gives it. -/
theorem isRead_toModel
    {h : Header}
    (hheader : h.IsOneLine)
    {fields : List Field}
    (hfields : ∀ f ∈ fields, OneLine (fieldTexts f)) :
    (h.toModel fields).IsRead := by
  refine ⟨?_, rfl⟩
  have hkey : ∀ key, h.primaryKey = some key → '\n' ∉ key := by
    intro key hkey
    unfold primaryKey at hkey
    split at hkey
    · cases hkey
    · rw [← Option.some.inj hkey]
      cases hown : nonEmpty? h.ownKey with
      | none =>
          decide
      | some t =>
          exact hheader t (List.mem_append_right _ (mem_of_nonEmpty? hown))
  have hall : ∀ f ∈ h.withPrimaryKey fields, OneLine (fieldTexts f) := by
    unfold withPrimaryKey
    split
    · exact hfields
    · rename_i key hsome
      split
      · exact hfields
      · refine List.forall_mem_cons.2 ⟨?_, hfields⟩
        exact Column.oneLine_field (hkey key hsome) (Column.lineFeed_not_mem_ofKind _) (by simp)
          (by simp)
  intro t ht
  simp only [modelTexts, toModel, List.mem_cons, List.mem_append, List.mem_flatMap,
    Option.mem_toList] at ht
  rcases ht with rfl | ht | ⟨f, hf, ht⟩
  · exact Naming.lineFeed_not_mem_toPascal _
  · exact hheader t (List.mem_append_left _ (mem_of_nonEmpty? ht))
  · exact hall f hf t ht

end Header

namespace Schema

open Document

/-- Where the reading of a listing stands, with no line feeds read so far. -/
def Place.IsOneLine : Place → Prop
  | .outside => True
  | .inHeader _ attributes => '\n' ∉ attributes
  | .inBlock header _ body => header.IsOneLine ∧ OneLine body

theorem isOneLine_headerLine
    {tableName attributes line : Text}
    (hattributes : '\n' ∉ attributes)
    (hline : '\n' ∉ line) :
    (headerLine tableName attributes line).IsOneLine := by
  unfold headerLine
  split
  · rename_i before block hclose
    have hbefore := lineFeed_not_mem_of_subset hline (Header.subset_of_closeFrom? hclose)
    refine ⟨Header.isOneLine_ofAttributes ?_, fun t ht => absurd ht List.not_mem_nil⟩
    exact lineFeed_not_mem_append hattributes
      (lineFeed_not_mem_append (t := [' ']) (by decide) hbefore)
  · exact lineFeed_not_mem_append hattributes
      (lineFeed_not_mem_append (t := [' ']) (by decide) hline)

/-- A line without line feeds adds none. -/
theorem isOneLine_step
    {p : Place}
    {line : Text}
    (hp : p.IsOneLine)
    (hline : '\n' ∉ line)
    {here : Option TableModel × Place}
    (h : step p line = .ok here) :
    (∀ m ∈ here.1.toList, m.IsRead) ∧ here.2.IsOneLine := by
  cases p with
  | outside =>
      rw [step] at h
      split at h
      · rename_i tableName rest hopen
        cases h
        refine ⟨by simp, isOneLine_headerLine List.not_mem_nil ?_⟩
        exact lineFeed_not_mem_of_subset hline (Header.subset_of_open? hopen)
      · cases h
        exact ⟨by simp, trivial⟩
  | inHeader tableName attributes =>
      cases h
      exact ⟨by simp, isOneLine_headerLine hp hline⟩
  | inBlock header block body =>
      obtain ⟨hheader, hbody⟩ := hp
      rw [step] at h
      split at h
      · unfold blockModel at h
        cases hfields : Column.ofLines block body with
        | error e =>
            rw [hfields] at h
            cases h
        | ok fields =>
            rw [hfields] at h
            cases h
            refine ⟨fun m hm => ?_, trivial⟩
            rw [List.mem_singleton.1 hm]
            exact Header.isRead_toModel hheader (Column.oneLine_ofLines hbody hfields)
      · cases h
        refine ⟨by simp, hheader, fun t ht => ?_⟩
        rcases List.mem_append.1 ht with ht | ht
        · exact hbody t ht
        · rw [List.mem_singleton.1 ht]
          exact hline

theorem isRead_scan
    {p : Place}
    {ls : List Text}
    (hp : p.IsOneLine)
    (hlines : OneLine ls)
    {models : List TableModel}
    {q : Place}
    (h : scan p ls = .ok (models, q)) :
    ∀ m ∈ models, m.IsRead := by
  induction ls generalizing p models q with
  | nil =>
      cases h
      simp
  | cons line rest ih =>
      obtain ⟨hline, hrest⟩ := List.forall_mem_cons.1 hlines
      unfold scan at h
      obtain ⟨here, hhere, h⟩ := except_bind_eq_ok.1 h
      obtain ⟨⟨others, end'⟩, hbehind, h⟩ := except_bind_eq_ok.1 h
      cases h
      obtain ⟨hfound, hplace⟩ :=
        isOneLine_step hp (lineFeed_not_mem_of_subset hline (trim_subset line)) hhere
      intro m hm
      rcases List.mem_append.1 hm with hm | hm
      · exact hfound m hm
      · exact ih hplace hrest hbehind m hm

/-- The texts of the tables of a listing are one line each. -/
theorem isRead_of_parse
    {listing : Text}
    {models : List TableModel}
    (h : parse listing = .ok models) :
    ∀ m ∈ models, m.IsRead := by
  unfold parse read at h
  cases hscan : scan .outside (lines listing) with
  | error e =>
      rw [hscan] at h
      cases h
  | ok found =>
      rw [hscan] at h
      cases h
      exact isRead_scan (p := .outside) trivial
        (fun line hline => lineFeed_not_mem_of_mem_lines hline) hscan

end Schema
end SchemaSpec
