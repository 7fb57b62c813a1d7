import SchemaSpec.Proofs.Document.Splice
import SchemaSpec.Proofs.Generate.Decision
import SchemaSpec.Proofs.Generate.Effect
import SchemaSpec.Proofs.Text.LineEnds

/-!
# The bytes of an extended document

A run that extends a document reads it as a text, puts a block in front of its last brace, and writes
it back.

* `keptInFile`: what is to be kept of a file in front of that brace.
* `Keeps`: a file starts and ends with bytes of another one.
* `respelled_kept`: what is kept of the text that is read is a respelling of that.
* `extension_eq_ok`, `bytes_of_appended`: what a run that extends a document reads and writes.
* `appended_keeps_iff`: the bytes are kept exactly if no carriage return is among them.
-/

namespace SchemaSpec

open Text

namespace Document

/-- What is to be kept of a text in front of the last brace of a file: its lines but for those that
stand for missing models, without the line ends at the end. -/
def keptInFile (t : Text) : Text :=
  dropEnd isLineEnd
    ((fileLines t).filter (fun line => dropEnd isLineEnd line != placeholder)).flatten

/-- Bytes start with what is to be kept in front of a brace, and end with that brace and what is
behind it. -/
def Keeps (before blanks : Text) (new : Bytes) : Prop :=
  encode (keptInFile before) <+: new ∧ encode ('\x7d' :: blanks) <:+ new

theorem return_not_mem_dropPlaceholders
    {t : Text}
    (h : '\r' ∉ t) :
    '\r' ∉ dropPlaceholders t := by
  intro hmem
  rcases mem_join hmem with hfeed | ⟨line, hline, hreturn⟩
  · exact absurd hfeed (by decide)
  · exact h (subset_of_mem_splitWhere (List.mem_of_mem_filter hline) hreturn)

/-- What is kept of a text that is read is a respelling of what is to be kept of the file. -/
theorem respelled_kept
    (t : Text) :
    Respelled (keptInFile t) (kept (unifyLineEnds t)) := by
  have hreturn : '\r' ∉ unifyLineEnds t := (respelled_unifyLineEnds t).return_not_mem
  have hlines : ∀ line ∈ lines (unifyLineEnds t), ∀ c ∈ line, isLineEnd c = false := by
    intro line hline c hc
    have hfeed := mem_splitWhere hline c hc
    have hother : c ≠ '\r' := by
      rintro rfl
      exact hreturn (subset_of_mem_splitWhere hline hc)
    simpa [isLineEnd] using ⟨by simpa using hfeed, hother⟩
  have hfeeds : kept (unifyLineEnds t) = dropEnd isLineEnd (dropPlaceholders (unifyLineEnds t)) := by
    refine dropEnd_congr (fun c hc => ?_)
    have hother : c ≠ '\r' := by
      rintro rfl
      exact return_not_mem_dropPlaceholders hreturn hc
    simp [isLineEnd, hother]
  have hkeep : ∀ line : Text, (dropEnd isLineEnd (unifyLineEnds line) != placeholder)
      = (dropEnd isLineEnd line != placeholder) := by
    intro line
    have hsame := (respelled_unifyLineEnds line).dropEnd.eq_iff
      (by decide : '\n' ∉ placeholder) (by decide)
    simp only [bne, beq_eq_decide, hsame]
  have hkept : kept (unifyLineEnds t)
      = dropEnd isLineEnd (((fileLines t).filter
        (fun line => dropEnd isLineEnd line != placeholder)).map unifyLineEnds).flatten := by
    rw [hfeeds, dropPlaceholders, dropEnd_join_filter _ hlines, ← fileLines_eq_ended hreturn,
      fileLines_unifyLineEnds, List.filter_map]
    simp only [Function.comp_def, hkeep]
  rw [hkept]
  exact (Respelled.flatten respelled_unifyLineEnds _).dropEnd

end Document

namespace Generate

open Document

section Runs

variable {tree : FileTree} {r : Request} {j : Journal} {o : Outcome}

/-- A plan that extends the document in a target puts a block in front of its last brace. -/
theorem extension_eq_ok
    {target listing : Path}
    {models : List TableModel}
    {enums : List EnumDecl}
    {p : Plan}
    (h : extension tree r target listing models enums = .ok p)
    (happended : p.outcome.action = .appended) :
    ∃ document before blanks, tree.readText target = .ok document
      ∧ document = before ++ '\x7d' :: blanks ∧ AllBlank blanks
      ∧ p.content = some ⟨kept before
        ++ spliced r.today r.settings.optionalMarker.isOn document models enums
        ++ '\x7d' :: blanks, none⟩ := by
  unfold extension at h
  obtain ⟨document, hread, h⟩ := except_bind_eq_ok.1 h
  cases hmerge : merge document models enums r.today r.settings.optionalMarker.isOn with
  | error e =>
      simp [hmerge] at h
  | ok merged =>
      simp only [hmerge, Except.ok.injEq] at h
      subst h
      split at happended
      · rename_i hchanged
        rw [if_pos hchanged]
        rcases merge_eq_ok hmerge with ⟨-, rfl⟩ | ⟨-, before, blanks, hdocument, hblanks, rfl⟩
        · simp [Merged.changed] at hchanged
        · exact ⟨document, before, blanks, mapError_eq_ok.1 hread, hdocument, hblanks, rfl⟩
      · cases happended

/-- A text that is read is the file's bytes, decoded and with its line ends made one. -/
theorem readText_eq_ok
    {target : Path}
    {document : Text}
    (hdown : Path.above ∉ target)
    (h : tree.readText target = .ok document) :
    ∃ old text, tree.entry? target = some (.file old) ∧ decode old = .ok text
      ∧ document = unifyLineEnds text := by
  unfold FileTree.readText FileTree.readBytes at h
  cases hwalk : tree.walk? target with
  | error fault =>
      simp [hwalk] at h
  | ok place =>
      obtain rfl := FileTree.eq_of_walk?_eq_ok hdown hwalk
      rw [hwalk] at h
      cases hentry : tree.entry? place with
      | none =>
          simp [hentry] at h
      | some entry =>
          cases entry with
          | directory =>
              simp [hentry] at h
          | file old =>
              simp only [hentry] at h
              split at h
              · cases h
              · rename_i content hread
                -- Of a sealed file, nothing is read.
                split at hread
                · cases hread
                obtain rfl := Except.ok.inj hread
                cases hdecode : decode old with
                | error e =>
                    simp [hdecode] at h
                | ok text =>
                    simp only [hdecode, Except.ok.injEq] at h
                    exact ⟨old, text, rfl, hdecode, h.symm⟩

/-- What a run that extends a document does to the bytes of its target. -/
theorem bytes_of_appended
    (ht : tree.IsRooted)
    (h : (generate tree r j).outcome = .ok o)
    (happended : o.action = .appended) :
    ∃ old before blanks tables enums, tree.entry? o.target = some (.file old)
      ∧ decode old = .ok (before ++ '\x7d' :: blanks) ∧ AllBlank blanks
      ∧ tablesIn tree o.schema = .ok tables
      ∧ enumsOrNone tree r o.schema (sortModels tables) = .ok enums
      ∧ FileTree.entry? (generate tree r j).tree o.target = some (.file
        (encode (kept (unifyLineEnds before))
          ++ (encode (spliced r.today r.settings.optionalMarker.isOn
              (unifyLineEnds (before ++ '\x7d' :: blanks)) (sortModels tables) enums)
            ++ encode ('\x7d' :: unifyLineEnds blanks)))) := by
  obtain ⟨p, hdecision, happly, rfl, -⟩ := exists_plan_of_outcome h
  rw [tree_generate hdecision]
  obtain ⟨isThere, tables, enums, hdecided⟩ := decision_eq_ok hdecision
  have hdown := above_notMem_target hdecided.cleared.settled
  have hmade := hdecided.made
  unfold planFor at hmade
  split at hmade
  · obtain ⟨document, first, last, hread, hdocument, hblanks, hcontent⟩ :=
      extension_eq_ok hmade happended
    obtain ⟨old, text, hold, hdecode, rfl⟩ := readText_eq_ok hdown hread
    obtain ⟨before, blanks, rfl, rfl, rfl⟩ := exists_of_unifyLineEnds_eq (by decide) hdocument
    obtain ⟨replace, hplaced⟩ := apply_placed ht hdown hcontent happly
    refine ⟨old, before, blanks, tables, enums, hold, hdecode,
      (respelled_unifyLineEnds blanks).allBlank hblanks, hdecided.tables, hdecided.collected, ?_⟩
    rw [(hplaced.written rfl).1, encode_append, encode_append, List.append_assoc]
  · rw [← Except.ok.inj hmade] at happended
    unfold freshPlan at happended
    dsimp only at happended
    split at happended <;> cases happended

/-- A run that extends a document.  In front of its last brace and behind it, the new file has the
text of the old one, but for its line ends, which are line feeds now.  So the bytes are kept exactly if
neither what is kept in front of the brace nor what stands behind it has a carriage return. -/
theorem appended_keeps_iff
    (ht : tree.IsRooted)
    (h : (generate tree r j).outcome = .ok o)
    (happended : o.action = .appended) :
    ∃ old new before blanks tables enums, tree.entry? o.target = some (.file old)
      ∧ FileTree.entry? (generate tree r j).tree o.target = some (.file new)
      ∧ decode old = .ok (before ++ '\x7d' :: blanks) ∧ AllBlank blanks
      ∧ old = encode before ++ encode ('\x7d' :: blanks)
      ∧ tablesIn tree o.schema = .ok tables
      ∧ enumsOrNone tree r o.schema (sortModels tables) = .ok enums
      ∧ new = encode (kept (unifyLineEnds before))
        ++ (encode (spliced r.today r.settings.optionalMarker.isOn
            (unifyLineEnds (before ++ '\x7d' :: blanks)) (sortModels tables) enums)
          ++ encode ('\x7d' :: unifyLineEnds blanks))
      ∧ Respelled (keptInFile before) (kept (unifyLineEnds before))
      ∧ (Keeps before blanks new ↔ '\r' ∉ keptInFile before ∧ '\r' ∉ blanks) := by
  obtain ⟨old, before, blanks, tables, enums, hold, hdecode, hblanks, htables, henums, hnew⟩ :=
    bytes_of_appended ht h happended
  have hkept := respelled_kept before
  have hbehind := respelled_unifyLineEnds blanks
  have hbytes := encode_of_decode hdecode
  rw [encode_append] at hbytes
  refine ⟨old, _, before, blanks, tables, enums, hold, hnew, hdecode, hblanks, hbytes.symm, htables,
    henums, rfl, hkept, and_congr (hkept.encode_prefix_iff _) ?_⟩
  rw [← List.append_assoc]
  exact hbehind.encode_suffix_iff (by decide) (brace_not_mem_of_allBlank hblanks) _

end Runs

section Samples

/-- A listing with one table. -/
def oneTable : Text :=
  "create_table \"users\" do |t|\nend\n".toList

/-- A project with one table, and a document to extend. -/
def projectWith (document : Text) : FileTree where
  entries :=
    [(["db".toList], .directory), (["db".toList, "schema.rb".toList], .file (encode oneTable)),
      (["rails.tsp".toList], .file (encode document))]

/-- A run that extends the document. -/
def extendingRequest : Request where
  workingDirectory := []
  directory := ['/']
  append := true
  today := ⟨2024, 5, 1⟩

/-- A document in front of its last brace, with the line ends of one system or another. -/
def sampleBefore (lineEnd : Text) : Text :=
  "namespace Api \x7b".toList ++ lineEnd ++ "  model Tag \x7b".toList ++ lineEnd
    ++ "  \x7d".toList ++ lineEnd

/-- A document with line feeds is extended, and keeps its bytes. -/
theorem appended_keeps_iff_lineFeeds :
    ∃ new, FileTree.entry? (generate (projectWith (sampleBefore ['\n'] ++ closing))
        extendingRequest).tree ["rails.tsp".toList] = some (.file new)
      ∧ Keeps (sampleBefore ['\n']) ['\n'] new := by
  have hrooted : (projectWith (sampleBefore ['\n'] ++ closing)).IsRooted :=
    FileTree.isRooted_of_entries (by decide +kernel)
  have hends : (generate (projectWith (sampleBefore ['\n'] ++ closing))
      extendingRequest).outcome.toOption
        = some ⟨.appended, ["rails.tsp".toList], ["db".toList, "schema.rb".toList],
          ["User".toList]⟩ := by
    decide +kernel
  cases hrun : (generate (projectWith (sampleBefore ['\n'] ++ closing))
      extendingRequest).outcome with
  | error stop =>
      rw [hrun] at hends
      cases hends
  | ok o =>
      rw [hrun] at hends
      obtain rfl := Option.some.inj hends
      obtain ⟨old, new, before, blanks, tables, enums, hold, hnew, hdecode, hblanks, -, -, -, -, -,
        hkeeps⟩ := appended_keeps_iff hrooted hrun rfl
      have hbytes : old = encode (sampleBefore ['\n'] ++ closing) :=
        (Entry.file.inj (Option.some.inj hold)).symm
      have htext : decode (encode (sampleBefore ['\n'] ++ closing))
          = .ok (sampleBefore ['\n'] ++ closing) := by
        decide +kernel
      rw [hbytes, htext] at hdecode
      have hcut := lastBrace?_append hblanks before
      rw [← Except.ok.inj hdecode, lastBrace?_closed] at hcut
      obtain ⟨rfl, hlast⟩ := Prod.mk.inj (Option.some.inj hcut)
      obtain rfl := (List.cons.inj hlast).2
      exact ⟨new, hnew, hkeeps.2 (by decide +kernel)⟩

/-- What an extension leaves of a document with carriage returns. -/
def extendedSample : Text :=
  "namespace Api \x7b
  model Tag \x7b
  \x7d

  // ---- appended at 2024-05-01 ----

  model User \x7b
    id: int64;
  \x7d
\x7d
".toList

/-- Extending a document with carriage returns changes bytes in front of its last brace and behind
it. -/
theorem appended_changes_carriageReturns :
    ∃ tree : FileTree, tree.IsRooted ∧ ∃ old new : Bytes,
      (generate tree extendingRequest).outcome.toOption.map Outcome.action = some .appended
        ∧ tree.entry? ["rails.tsp".toList] = some (.file old)
        ∧ FileTree.entry? (generate tree extendingRequest).tree ["rails.tsp".toList]
          = some (.file new)
        ∧ decode old = .ok (sampleBefore ['\r', '\n'] ++ '\x7d' :: ['\r', '\n'])
        ∧ decode new = .ok extendedSample
        ∧ ¬ encode (keptInFile (sampleBefore ['\r', '\n'])) <+: new
        ∧ ¬ encode ['\x7d', '\r', '\n'] <:+ new := by
  refine ⟨projectWith (sampleBefore ['\r', '\n'] ++ '\x7d' :: ['\r', '\n']),
    FileTree.isRooted_of_entries (by decide +kernel),
    encode (sampleBefore ['\r', '\n'] ++ '\x7d' :: ['\r', '\n']), encode extendedSample, ?_⟩
  decide +kernel

end Samples

end Generate
end SchemaSpec
