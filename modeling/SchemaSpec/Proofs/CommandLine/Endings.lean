import SchemaSpec.Proofs.Console.Printing
import SchemaSpec.Proofs.CommandLine.Stops

/-!
# How runs from the command line end

A run whose command line is understood ends with code zero if it has an outcome.  Otherwise it ends with
code one, and with the words of the stop on the error console, unless the stop goes through to the
system.

* `CommandLine.Told`: a run tells how it ended.
* `CommandLine.told_iff`: with any toolkit that keeps to what is documented of it, every run does, but
  for the reasons of a stop that goes through to the system.
-/

namespace SchemaSpec

open Text

namespace CommandLine

open Generate

/-- What a command line that is understood promises about its end: code zero exactly if there is an
outcome, and otherwise code one, with the words of the stop on the error console. -/
structure Told (kit : Toolkit) (shows : Char → Bool) (c : Call) (a : Arguments) (channels : Channels)
    (tree : FileTree) : Prop where
  done : (runOn kit c channels tree).ending.code? = some 0
    ↔ ∃ o, (generate tree (request kit c a)).outcome = .ok o
  stopped : ∀ stop, (generate tree (request kit c a)).outcome = .error stop →
    (runOn kit c channels tree).ending.code? = some 1
      ∧ (runOn kit c channels tree).errors = kit.printedFailure stop.message
  /-- Words that are literal can be read there. -/
  shown : ∀ stop, (generate tree (request kit c a)).outcome = .error stop →
    Console.IsLiteral shows stop.message →
      Console.letters (runOn kit c channels tree).errors = Console.letters stop.message

section Ends

variable {kit : Toolkit} {shows : Char → Bool} {c : Call} {a : Arguments} {tree : FileTree}

/-- The settings of a command line always name the output file. -/
theorem exists_output
    (kit : Toolkit)
    (c : Call)
    (a : Arguments) :
    ∃ name, (request kit c a).output = .ok name := by
  have hfile : ∃ name, (request kit c a).settings.outputFile = .text name := by
    change ∃ name, Settings.overriddenBy (c.environment.get "RAILS_TSP_OUT")
      (.text "rails.tsp".toList) = .text name
    unfold Settings.overriddenBy
    split
    · exact ⟨_, rfl⟩
    · exact ⟨_, rfl⟩
  obtain ⟨file, hfile⟩ := hfile
  unfold Request.output
  rw [hfile]
  cases nonEmpty? (request kit c a).out with
  | some name =>
      exact ⟨name, rfl⟩
  | none =>
      exact ⟨file, rfl⟩

theorem runOn_eq
    (hwords : Arguments.ofWords c.words = .ok a)
    (hhelp : a.help = false)
    (channels : Channels) :
    runOn kit c channels tree = runWith kit c a channels tree := by
  unfold runOn
  rw [hwords]
  simp only [hhelp, Bool.false_eq_true, if_false]

/-- A run tells how it ended unless it passes a stop on. -/
theorem told_iff_not_passesOn
    (hkit : kit.Documented shows)
    (hwords : Arguments.ofWords c.words = .ok a)
    (hhelp : a.help = false)
    (channels : Channels) :
    Told kit shows c a channels tree ↔ ¬ PassesOn (generate tree (request kit c a)).outcome := by
  have hending : (runOn kit c channels tree).ending
      = ending (generate tree (request kit c a)).outcome := by
    rw [runOn_eq hwords hhelp]
    rfl
  have herrors : (runOn kit c channels tree).errors
      = errors kit (ending (generate tree (request kit c a)).outcome) := by
    rw [runOn_eq hwords hhelp]
    rfl
  cases houtcome : (generate tree (request kit c a)).outcome with
  | ok o =>
      rw [houtcome] at hending
      refine iff_of_true ⟨?_, fun stop hstop => ?_, fun stop hstop => ?_⟩ (not_passesOn_ok o)
      · exact iff_of_true (by rw [hending]; rfl) ⟨o, houtcome⟩
      · rw [houtcome] at hstop
        cases hstop
      · rw [houtcome] at hstop
        cases hstop
  | error stop =>
      rw [houtcome] at hending herrors
      rw [passesOn_error_iff, Bool.not_eq_false]
      cases htold : stop.isTold with
      | true =>
          have hfailed : ending (.error stop : Except Stop Outcome) = .failed stop := by
            simp [ending, htold]
          rw [hfailed] at hending herrors
          have hsame : ∀ s, (generate tree (request kit c a)).outcome = .error s → stop = s := by
            intro s hs
            rw [houtcome] at hs
            exact Except.error.inj hs
          refine iff_of_true ⟨?_, fun s hs => ?_, fun s hs hliteral => ?_⟩ rfl
          · refine iff_of_false (by simp [hending, Ending.code?]) ?_
            rintro ⟨o, ho⟩
            rw [houtcome] at ho
            cases ho
          · rw [← hsame s hs, hending, herrors]
            exact ⟨rfl, rfl⟩
          · rw [← hsame s hs] at hliteral ⊢
            rw [herrors]
            exact Toolkit.letters_printedFailure hkit hliteral
      | false =>
          have hpassed : ending (.error stop : Except Stop Outcome) = .passedOn stop := by
            simp [ending, htold]
          rw [hpassed] at hending
          refine iff_of_false (fun h => ?_) (by decide)
          have hcode := (h.stopped stop houtcome).1
          rw [hending] at hcode
          cases hcode

/-- A run whose words are understood tells how it ended, with any toolkit that keeps to what is
documented of it, unless it stops for one of the reasons: a null character is in the name of the output
file or in the directory, the listing is no text or has an oversized integer, the document to be
extended is no text, a setting in a new document cannot be encoded, or the output console cannot encode
a warning or the report at the end. -/
theorem told_iff
    (hkit : kit.Documented shows)
    (ht : tree.IsProper)
    (hdirectory : Path.NullFree c.workingDirectory)
    (hwords : Arguments.ofWords c.words = .ok a)
    (hhelp : a.help = false)
    (channels : Channels) :
    Told kit shows c a channels tree ↔ ¬ Untold tree (request kit c a) := by
  obtain ⟨name, hname⟩ := exists_output kit c a
  rw [told_iff_not_passesOn hkit hwords hhelp channels, passesOn_generate ht hdirectory hname]

end Ends

section Samples

/-- A project whose listing is one byte that starts no character. -/
def garbledProject : FileTree where
  entries := [(["db".toList], .directory), (["db".toList, "schema.rb".toList], .file [0xff])]

/-- A run without any words. -/
def plainCall : Call where
  words := []
  environment := []
  workingDirectory := []
  today := ⟨2024, 5, 1⟩

theorem isProper_garbledProject :
    garbledProject.IsProper :=
  FileTree.isProper_of_entries (by decide +kernel)

/-- The run above tells that there is no listing, in words that are literal.  A listing that is no text
is why it tells nothing. -/
theorem told_iff_garbledProject :
    (Told Console.toolkit (fun c => !Console.isControl c) plainCall {} {} {}
        ∧ Console.letters (runOn Console.toolkit plainCall {} {}).errors
          = Console.letters "rails schema.rb not found".toList)
      ∧ Untold garbledProject (request Console.toolkit plainCall {})
      ∧ ¬ Told Console.toolkit (fun c => !Console.isControl c) plainCall {} {} garbledProject := by
  have hkit := Console.documented_toolkit
  have hempty : FileTree.IsProper {} := FileTree.isProper_of_entries (by decide)
  have hdirectory : Path.NullFree plainCall.workingDirectory := by decide
  have hwords : Arguments.ofWords plainCall.words = .ok {} := by decide +kernel
  have hcleared : Cleared garbledProject (request Console.toolkit plainCall {})
      ["rails.tsp".toList] false :=
    ⟨by rfl, by rfl, by simp⟩
  have hlisting : listingFor garbledProject (request Console.toolkit plainCall {})
      = .ok ["db".toList, "schema.rb".toList] := by
    rfl
  have huntold : Untold garbledProject (request Console.toolkit plainCall {}) :=
    .unplanned (.listing hcleared hlisting ⟨[0xff], _, by rfl, by rfl⟩)
  have hmissing : (generate {} (request Console.toolkit plainCall {})).outcome
      = .error (.failure (.schemaNotFound ['/'] SchemaFile.searched)) := by
    with_unfolding_all rfl
  have htold : ¬ Untold {} (request Console.toolkit plainCall {}) := by
    intro h
    have hpasses := (passesOn_generate hempty hdirectory (exists_output _ _ _).choose_spec {}).2 h
    rw [hmissing, passesOn_error_iff] at hpasses
    cases hpasses
  have hliteral : Console.IsLiteral (fun c => !Console.isControl c)
      "rails schema.rb not found".toList :=
    ⟨List.all_eq_true.1 (by decide), by decide +kernel, by decide +kernel, by decide⟩
  have htells := (told_iff hkit hempty hdirectory hwords rfl {}).2 htold
  exact ⟨⟨htells, htells.shown _ hmissing hliteral⟩, huntold,
    fun h => (told_iff hkit isProper_garbledProject hdirectory hwords rfl {}).1 h huntold⟩

/-- A run on a listing that is no text ends without a code, and shows nothing. -/
theorem undecodable_listing_passed_on :
    (Arguments.ofWords plainCall.words).toOption = some {}
      ∧ (run plainCall {} garbledProject).ending.code? = none
      ∧ (run plainCall {} garbledProject).errors = []
      ∧ (generate garbledProject (request Console.toolkit plainCall {})).outcome.isOk = false := by
  decide +kernel

end Samples

end CommandLine
end SchemaSpec
