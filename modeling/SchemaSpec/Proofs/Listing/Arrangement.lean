import SchemaSpec.Proofs.Listing.Dump
import SchemaSpec.Proofs.Listing.Failures

/-!
# Column lines in any arrangement

What a column line means depends on its options, not on how they are arranged.

* `IsArrangement`: the lines that put the options of a column in any order and spelling, with other
  pieces among them.
* `IsColumn`: the column that is meant, from the options alone; there is one at most.
* `ofLine_arranged`: every such line gives that column, unless the default is an integer with too
  many digits; then every such line fails.
* `precision_of_reference`: references have a precision and a scale, too.
-/

namespace SchemaSpec
namespace Column

open Text Options

/-- A column line with its options in any order, each spelled in some way, and among them closed
texts that are no options; blanks may stand around it. -/
def IsArrangement (block kind name : Text) (options : OptionList) (line : Text) : Prop :=
  ∃ options' ps, options'.Perm options ∧ Interleaved options' ps
    ∧ Listing.LineOf (front block kind name ++ ps.flatMap (fun p => comma ++ p)) line

/-- The facts that the metadata of a column shows.  Precision and scale are those of fixed-point
decimals and of references. -/
def shownFacts (kind name : Text) (options : OptionList) (default : Option Literal) :
    ColumnFacts :=
  let sized := ScalarType.isFixedPoint kind || ScalarType.isAssociation kind
  { precision := if sized then (get? "precision".toList options).bind asInteger else none
    scale := if sized then (get? "scale".toList options).bind asInteger else none
    limit := (get? "limit".toList options).bind asInteger
    default := default
    reference :=
      if ScalarType.isAssociation kind then some (referenceTable name options) else none }

/-- The column that a kind, a name and options mean. -/
structure IsColumn (kind name : Text) (options : OptionList) (f : Field) : Prop where
  name_eq : f.name = if ScalarType.isAssociation kind then name ++ "_id".toList else name
  typeName_eq : f.typeName =
    if ScalarType.isAssociation kind then referenceType options else ScalarType.ofKind kind
  nullable_eq_false_iff : f.nullable = false ↔ ("null".toList, "false".toList) ∈ options
  description_eq : f.description = (get? "comment".toList options).bind unquote
  default_eq : default? options = .ok f.default
  metadata_eq : f.metadata = (shownFacts kind name options f.default).comment?

section Columns

variable {kind name : Text} {options options' : OptionList} {f g : Field}

/-- A column may not be null exactly if an option says `false`. -/
theorem nullable_eq_false_iff_mem
    (h : (options.map Prod.fst).Nodup) :
    nullable options = false ↔ ("null".toList, "false".toList) ∈ options := by
  have hflag : ∀ raw, asFlag raw = some false ↔ raw = "false".toList := by
    intro raw
    unfold asFlag
    by_cases htrue : raw = "true".toList
    · rw [htrue]
      decide
    · rw [if_neg htrue]
      by_cases hfalse : raw = "false".toList
      · rw [if_pos hfalse]
        exact iff_of_true rfl hfalse
      · rw [if_neg hfalse]
        exact iff_of_false (by simp) hfalse
  rw [← lookup_eq_some_iff_mem h]
  unfold nullable
  cases hget : get? "null".toList options with
  | none =>
      unfold get? at hget
      rw [hget]
      constructor <;> intro hno <;> cases hno
  | some raw =>
      unfold get? at hget
      rw [hget, Option.some.injEq, ← hflag raw, Option.bind_some]
      rcases asFlag raw with _ | _ | _ <;> simp

/-- A column is fixed by its kind, its name and its options. -/
theorem IsColumn.unique
    (hf : IsColumn kind name options f)
    (hg : IsColumn kind name options g) :
    f = g := by
  have hdefault : f.default = g.default :=
    Except.ok.inj (hf.default_eq.symm.trans hg.default_eq)
  have hnullable : f.nullable = g.nullable := by
    have hsame := hf.nullable_eq_false_iff.trans hg.nullable_eq_false_iff.symm
    cases hleft : f.nullable <;> cases hright : g.nullable <;> simp [hleft, hright] at hsame ⊢
  have hmetadata : f.metadata = g.metadata := by
    rw [hf.metadata_eq, hg.metadata_eq, hdefault]
  obtain ⟨name, typeName, nullable, description, metadata, default⟩ := f
  obtain ⟨name', typeName', nullable', description', metadata', default'⟩ := g
  rw [Field.mk.injEq]
  exact ⟨hf.name_eq.trans hg.name_eq.symm, hf.typeName_eq.trans hg.typeName_eq.symm, hnullable,
    hf.description_eq.trans hg.description_eq.symm, hmetadata, hdefault⟩

/-- The order of the options does not matter to the column. -/
theorem IsColumn.of_perm
    (hperm : options'.Perm options)
    (hnodup : (options.map Prod.fst).Nodup)
    (h : IsColumn kind name options' f) :
    IsColumn kind name options f := by
  have hget : ∀ key, get? key options' = get? key options := fun key =>
    (get?_of_perm hperm.symm hnodup).symm
  have htype : referenceType options' = referenceType options := by
    simp only [referenceType, hget]
  have htable : referenceTable name options' = referenceTable name options := by
    simp only [referenceTable, hget]
  have hdefault : default? options' = default? options := by
    simp only [default?, hget]
  have hfacts : shownFacts kind name options' f.default
      = shownFacts kind name options f.default := by
    simp only [shownFacts, hget, htable]
  exact {
    name_eq := h.name_eq
    typeName_eq := htype ▸ h.typeName_eq
    nullable_eq_false_iff := h.nullable_eq_false_iff.trans hperm.mem_iff
    description_eq := hget "comment".toList ▸ h.description_eq
    default_eq := hdefault ▸ h.default_eq
    metadata_eq := hfacts ▸ h.metadata_eq }

section Tails

variable {tail : Text} (hnodup : ((parse tail).map Prod.fst).Nodup)
include hnodup

theorem isColumn_ofReference
    (hkind : ScalarType.isAssociation kind = true)
    (h : ofReference name tail = .ok f) :
    IsColumn kind name (parse tail) f := by
  unfold ofReference at h
  obtain ⟨d, hdefault, h⟩ := except_bind_eq_ok.1 h
  rw [← Except.ok.inj h]
  exact {
    name_eq := (if_pos hkind).symm
    typeName_eq := (if_pos hkind).symm
    nullable_eq_false_iff := nullable_eq_false_iff_mem hnodup
    description_eq := rfl
    default_eq := hdefault
    metadata_eq := by simp only [shownFacts, hkind, Bool.or_true, if_true] }

theorem isColumn_ofKind
    (hkind : ScalarType.isAssociation kind = false)
    (h : ofKind kind name tail = .ok f) :
    IsColumn kind name (parse tail) f := by
  unfold ofKind at h
  obtain ⟨d, hdefault, h⟩ := except_bind_eq_ok.1 h
  rw [← Except.ok.inj h]
  exact {
    name_eq := by simp only [hkind, Bool.false_eq_true, if_false]
    typeName_eq := by simp only [hkind, Bool.false_eq_true, if_false]
    nullable_eq_false_iff := nullable_eq_false_iff_mem hnodup
    description_eq := rfl
    default_eq := hdefault
    metadata_eq := by simp only [shownFacts, hkind, Bool.or_false, Bool.false_eq_true, if_false] }

/-- Options without an oversized default give the column that they mean. -/
theorem exists_isColumn
    (hkind : kind ∉ directives)
    (name : Text)
    {d : Option Literal}
    (hdefault : default? (parse tail) = .ok d) :
    ∃ f, ofParts kind name tail = .ok [f] ∧ IsColumn kind name (parse tail) f := by
  have hcontains : directives.contains kind = false := by simpa using hkind
  unfold ofParts
  rw [hcontains]
  cases hassociation : ScalarType.isAssociation kind with
  | true =>
      cases hread : ofReference name tail with
      | error e =>
          rw [ofReference_eq_error_iff, hdefault] at hread
          cases hread
      | ok f =>
          exact ⟨f, rfl, isColumn_ofReference hnodup hassociation hread⟩
  | false =>
      cases hread : ofKind kind name tail with
      | error e =>
          rw [ofKind_eq_error_iff, hdefault] at hread
          cases hread
      | ok f =>
          exact ⟨f, rfl, isColumn_ofKind hnodup hassociation hread⟩

end Tails

end Columns

section Lines

variable {block kind name : Text} {options : OptionList}

/-- An arranged line falls into its kind, its name and its options in some order. -/
theorem exists_of_isArrangement
    (hblock : IsWordRun block)
    (hkind : IsKind kind)
    (hname : IsName name)
    (hoptions : Arrangeable options)
    {line : Text}
    (h : IsArrangement block kind name options line) :
    ∃ tail, columnParts? block line = some (kind, name, tail) ∧ (parse tail).Perm options := by
  obtain ⟨options', ps, hperm, hpieces, left, right, hleft, hright, rfl⟩ := h
  have harrangeable := hoptions.of_perm hperm
  obtain ⟨hline, hpairs⟩ := pairs_interleaved hpieces harrangeable
  have hparse := parse_of_pairs_eq harrangeable hpairs
  exact ⟨_, columnParts?_front hblock hkind hname hline hleft hright, hparse.symm ▸ hperm⟩

/-- The line in the given order, each key as a label, is one of the arrangements. -/
theorem isArrangement_labels
    (block kind name : Text)
    (options : OptionList) :
    IsArrangement block kind name options (front block kind name
      ++ (options.map (Spelling.write .label)).flatMap (fun p => comma ++ p)) := by
  refine ⟨options, options.map (Spelling.write .label), List.Perm.refl _, ?_, [], [], allBlank_nil,
    allBlank_nil, by rw [List.nil_append, List.append_nil]⟩
  induction options with
  | nil =>
      exact .nil
  | cons o options ih =>
      exact .option .label ih

/-- A default goes wrong exactly if it is an oversized integer. -/
theorem default?_eq_error_iff_mem
    (hoptions : Arrangeable options)
    {e : LiteralError} :
    default? options = .error e
      ↔ ∃ raw, ("default".toList, raw) ∈ options ∧ IsOversized raw e.digits := by
  rw [default?_eq_error_iff]
  refine exists_congr (fun raw => ?_)
  unfold get?
  rw [lookup_eq_some_iff_mem hoptions.nodup]
  refine and_congr_right (fun hmem => ?_)
  rw [hoptions.trimmed _ hmem]

/-- A column line means the same in every arrangement: it fails if the default is an integer with
too many digits, and otherwise it gives one column, which the options alone fix. -/
theorem ofLine_arranged
    (hblock : IsWordRun block)
    (hkind : IsKind kind)
    (hname : IsName name)
    (hoptions : Arrangeable options) :
    (∀ raw n, ("default".toList, raw) ∈ options → IsOversized raw n →
        ∀ line, IsArrangement block kind name options line → ofLine block line = .error ⟨n⟩)
      ∧ ((∀ raw n, ("default".toList, raw) ∈ options → ¬ IsOversized raw n) →
        ∃ f, IsColumn kind name options f
          ∧ ∀ line, IsArrangement block kind name options line → ofLine block line = .ok [f]) := by
  constructor
  · intro raw n hmem hraw line hline
    obtain ⟨tail, hparts, hperm⟩ := exists_of_isArrangement hblock hkind hname hoptions hline
    have hfails : default? (parse tail) = .error ⟨n⟩ :=
      (default?_eq_error_iff_mem (hoptions.of_perm hperm)).2 ⟨raw, hperm.mem_iff.2 hmem, hraw⟩
    rw [ofLine_of_columnParts? hparts]
    exact ofParts_eq_error_iff.2 ⟨hkind.not_directive, hfails⟩
  · intro hno
    have hdefault : ∀ options', options'.Perm options → ∃ d, default? options' = .ok d := by
      intro options' hperm
      cases hread : default? options' with
      | error e =>
          obtain ⟨raw, hmem, hraw⟩ :=
            (default?_eq_error_iff_mem (hoptions.of_perm hperm)).1 hread
          exact absurd hraw (hno raw e.digits (hperm.mem_iff.1 hmem))
      | ok d =>
          exact ⟨d, rfl⟩
    have hcolumn : ∀ line, IsArrangement block kind name options line →
        ∃ f, ofLine block line = .ok [f] ∧ IsColumn kind name options f := by
      intro line hline
      obtain ⟨tail, hparts, hperm⟩ := exists_of_isArrangement hblock hkind hname hoptions hline
      obtain ⟨d, hd⟩ := hdefault _ hperm
      obtain ⟨f, hf, hmeant⟩ :=
        exists_isColumn (hoptions.of_perm hperm).nodup hkind.not_directive name hd
      rw [ofLine_of_columnParts? hparts]
      exact ⟨f, hf, hmeant.of_perm hperm hoptions.nodup⟩
    obtain ⟨f, -, hf⟩ := hcolumn _ (isArrangement_labels block kind name options)
    refine ⟨f, hf, fun line hline => ?_⟩
    obtain ⟨g, hread, hg⟩ := hcolumn line hline
    rw [hread, hf.unique hg]

end Lines

/-- The options of a price. -/
def priceOptions : OptionList :=
  [("precision".toList, "8".toList), ("null".toList, "false".toList),
    ("comment".toList, "'net, \x7busd: 1\x7d'".toList)]

/-- A line with the options of a price. -/
def priceLine : Text :=
  "t.decimal \"price\", precision: 8, null: false, comment: 'net, \x7busd: 1\x7d'".toList

/-- The same options in another order and spelling, and with a lambda among them. -/
def arrangedPriceLine : Text :=
  "  t.decimal \"price\", \"comment\" => 'net, \x7busd: 1\x7d'".toList
    ++ ", -> \x7b 1 \x7d, :null => false, \"precision\": 8".toList

/-- The pieces of the second line. -/
def arrangedPrice : List Text :=
  [Spelling.quotedArrow.write ("comment".toList, "'net, \x7busd: 1\x7d'".toList),
    "-> \x7b 1 \x7d".toList, Spelling.arrow.write ("null".toList, "false".toList),
    Spelling.quotedLabel.write ("precision".toList, "8".toList)]

theorem interleaved_arrangedPrice :
    Interleaved priceOptions.reverse arrangedPrice := by
  have hlambda : Closed isComma "-> \x7b 1 \x7d".toList := by
    unfold Closed
    decide
  exact .option .quotedArrow (.aside hlambda (by decide) (by decide) (.option .arrow
    (.option .quotedLabel .nil)))

/-- Both lines give one column, which may not be null; and a line with a default of one digit more
than the limit fails. -/
theorem ofLine_arranged_price :
    Arrangeable priceOptions
      ∧ (∃ f, ofLine "t".toList priceLine = .ok [f]
        ∧ ofLine "t".toList arrangedPriceLine = .ok [f] ∧ f.nullable = false)
      ∧ ofLine "t".toList (Schema.ninesLine 4301) = .error ⟨4301⟩ := by
  have hblock : IsWordRun "t".toList := by decide
  have hkind : IsKind "decimal".toList := ⟨by decide, by decide, by decide⟩
  have hname : IsName "price".toList := by decide
  have hoptions : Arrangeable priceOptions := {
    nodup := by decide
    isWordRun := by decide
    trimmed := by decide
    closed := by unfold Closed; decide
    lineFeed_not_mem := by decide }
  have hno : ∀ o ∈ priceOptions, o.1 ≠ "default".toList := by decide
  obtain ⟨f, hf, hlines⟩ := (ofLine_arranged hblock hkind hname hoptions).2
    (fun raw n hmem => absurd rfl (hno _ hmem))
  have hplain : IsArrangement "t".toList "decimal".toList "price".toList priceOptions priceLine :=
    isArrangement_labels _ _ _ _
  have harranged : IsArrangement "t".toList "decimal".toList "price".toList priceOptions
      arrangedPriceLine :=
    ⟨priceOptions.reverse, arrangedPrice, List.reverse_perm _, interleaved_arrangedPrice,
      "  ".toList, [], by decide, allBlank_nil, by decide⟩
  refine ⟨hoptions, ⟨f, hlines _ hplain, hlines _ harranged,
    hf.nullable_eq_false_iff.2 (by decide)⟩, ?_⟩
  have hinteger : IsKind "integer".toList := ⟨by decide, by decide, by decide⟩
  have hcount : IsName "count".toList := by decide
  have hnines : IsArrangement "t".toList "integer".toList "count".toList
      [("default".toList, Schema.nines 4301)] (Schema.ninesLine 4301) := by
    have hline := isArrangement_labels "t".toList "integer".toList "count".toList
      [("default".toList, Schema.nines 4301)]
    rw [List.map_singleton, List.flatMap_singleton] at hline
    exact hline
  exact (ofLine_arranged hblock hinteger hcount (Schema.arrangeable_nines 4301)).1 _ 4301
    (List.mem_singleton_self _) (Schema.isOversized_nines (by decide)) _ hnines

/-- The column of a reference to a user. -/
def userReference (metadata : String) : Field where
  name := "user_id".toList
  typeName := "int64".toList
  metadata := some metadata.toList

/-- A reference is no fixed-point decimal, and still its metadata shows its precision. -/
theorem precision_of_reference :
    IsKind "references".toList ∧ ScalarType.isFixedPoint "references".toList = false
      ∧ ofLine "t".toList "t.references \"user\"".toList = .ok [userReference "ref: user"]
      ∧ ofLine "t".toList "t.references \"user\", precision: 3".toList
        = .ok [userReference "precision: 3, scale: 0; ref: user"] := by
  refine ⟨⟨by decide, by decide, by decide⟩, by decide, ?_, ?_⟩
  · decide +kernel
  · decide +kernel

end Column
end SchemaSpec
