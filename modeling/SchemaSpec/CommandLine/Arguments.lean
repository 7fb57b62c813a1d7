import SchemaSpec.CommandLine.Switch
import SchemaSpec.Text.Digit

/-!
# Reading the command line

First every word is read by itself, then the words are taken from left to right.

**Words.**  A word is a switch if it is one of its spellings, or starts only one of them after two
dashes; an equals sign may give it a value.  Letters behind a short spelling spell more switches, each
with the same dash.  The mark `--` makes all words behind it plain.  Any other word that starts with a
dash is plain if it is a negative number or holds a space, and unknown if not.

* `Argument.ofWord`, `Argument.ofWords`: one word, and all of them.
* `Arguments.ofWords`: what the command line asks for.
-/

namespace SchemaSpec

open Text

/-- What a word of the command line is. -/
inductive Argument
  | plain
  /-- The mark in front of words that are all plain. -/
  | mark
  | unknown
  | switch (s : Switch)
  /-- A switch with a value behind an equals sign. -/
  | assigned (s : Switch) (value : Text)
  /-- The short spelling of a switch with letters behind it, or behind an equals sign. -/
  | cluster (s : Switch) (letters : Text)
  deriving Repr, DecidableEq

namespace Argument

/-- The mark in front of plain words. -/
def markWord : Text := ['-', '-']

/-- Whether a word is a negative number, with one final line feed or none. -/
def isNegative (word : Text) : Bool :=
  match dropFinalLineFeed word with
  | '-' :: r =>
      isDigits r || (match cutAt? ['.'] r with
        | some (whole, places) => whole.all isDigit && isDigits places
        | none => false)
  | _ => false

/-- Whether a spelling is a long one, with two dashes. -/
def isLong (spelling : Text) : Bool :=
  (after? markWord spelling).isSome

/-- A spelling of a switch, with a value if there is one. -/
def ofSpelling (s : Switch) (spelling : Text) : Option Text → Argument
  | none => .switch s
  | some value => if isLong spelling then .assigned s value else .cluster s value

/-- A word before and behind its first equals sign. -/
def cutValue (word : Text) : Text × Option Text :=
  match cutAt? ['='] word with
  | some (name, value) => (name, some value)
  | none => (word, none)

/-- What a word with two dashes can be that is no complete spelling. -/
def longCandidates (word : Text) : List (Text × Argument) :=
  (Switch.startingWith (cutValue word).1).map (fun p => (p.1, ofSpelling p.2 p.1 (cutValue word).2))

/-- What a word can be that is no complete spelling, each with the spelling meant. -/
def candidates : Text → List (Text × Argument)
  | '-' :: '-' :: r => longCandidates ('-' :: '-' :: r)
  | '-' :: c :: r =>
      match Switch.ofSpelling? ['-', c] with
      | some s => [(['-', c], .cluster s r)]
      | none => []
  | _ => []

/-- What a word is that starts with a dash and is no complete spelling. -/
def ofIncomplete (word : Text) : Except UsageError Argument :=
  match candidates word with
  | [] => .ok (if isNegative word || word.contains ' ' then .plain else .unknown)
  | [(_, argument)] => .ok argument
  | several => .error (.ambiguous word (several.map Prod.fst))

/-- The switch that a word spells completely, with its value. -/
def ofComplete? (word : Text) : Option Argument :=
  match Switch.ofSpelling? word with
  | some s => some (.switch s)
  | none =>
      (Switch.ofSpelling? (cutValue word).1).map
        (fun s => ofSpelling s (cutValue word).1 (cutValue word).2)

/-- What a word is. -/
def ofWord (word : Text) : Except UsageError Argument :=
  match word with
  | '-' :: _ :: _ =>
      match ofComplete? word with
      | some argument => .ok argument
      | none => ofIncomplete word
  | _ => .ok .plain

/-- What words are, each with the word itself. -/
def ofWords : List Text → Except UsageError (List (Text × Argument))
  | [] => .ok []
  | w :: ws =>
      if w = markWord then .ok ((w, .mark) :: ws.map (fun v => (v, .plain)))
      else do
        let a ← ofWord w
        let rest ← ofWords ws
        return (w, a) :: rest

/-- What is left over of letters behind a short spelling: the first that spells no switch, and those
behind it. -/
def leftOver : Text → Text
  | [] => []
  | c :: r => if (Switch.ofSpelling? ['-', c]).isSome then leftOver r else c :: r

end Argument

/-- What a command line asks for. -/
structure Arguments where
  help : Bool := false
  force : Bool := false
  append : Bool := false
  out : Option Text := none
  cwd : Option Text := none
  noEnums : Bool := false
  debug : Bool := false
  unrecognized : List Text := []
  deriving Repr, DecidableEq

namespace Arguments

/-- Whether a switch has been given. -/
def has (a : Arguments) : Switch → Bool
  | .help => a.help
  | .force => a.force
  | .append => a.append
  | .out => a.out.isSome
  | .cwd => a.cwd.isSome
  | .noEnums => a.noEnums
  | .debug => a.debug

/-- The value given to a switch; the mark is none. -/
def given? (value : Text) : Option Text :=
  if value = Argument.markWord then none else some value

/-- Take a switch, with the value given to it. -/
def set (a : Arguments) (value : Text) : Switch → Arguments
  | .help => { a with help := true }
  | .force => { a with force := true }
  | .append => { a with append := true }
  | .out => { a with out := given? value }
  | .cwd => { a with cwd := given? value }
  | .noEnums => { a with noEnums := true }
  | .debug => { a with debug := true }

/-- Take a switch unless its rival has been taken. -/
def take (a : Arguments) (s : Switch) (value : Text) : Except UsageError Arguments :=
  match s.rival? with
  | some r => if a.has r then .error (.rivals s r) else .ok (a.set value s)
  | none => .ok (a.set value s)

/-- A word that means nothing. -/
def leaveOver (a : Arguments) (word : Text) : Arguments :=
  { a with unrecognized := a.unrecognized ++ [word] }

/-- Take a word that brings everything it needs. -/
def takeOne (a : Arguments) (word : Text) : Argument → Except UsageError Arguments
  | .assigned s value =>
      if s.takesValue then a.take s value else .error (.unusedValue s value)
  | .cluster s letters =>
      if s.takesValue then a.take s letters
      else if letters.isEmpty || !(Argument.leftOver letters).isEmpty then
        .error (.unusedValue s (Argument.leftOver letters))
      else a.take s []
  | .switch s => if s.takesValue then .error (.missingValue s) else a.take s []
  | _ => .ok (a.leaveOver word)

/-- The switch that takes the second of two words as its value. -/
def pairing? : (first second : Argument) → Option Switch
  | .switch s, .plain => if s.takesValue then some s else none
  | _, _ => none

/-- Take words from left to right; a request for help ends the reading. -/
def takeAll (a : Arguments) : List (Text × Argument) → Except UsageError Arguments
  | [] => .ok a
  | [(w, x)] => a.takeOne w x
  | (w, x) :: (v, y) :: rest =>
      match pairing? x y with
      | some s => do
          let a ← a.take s v
          a.takeAll rest
      | none => do
          let a ← a.takeOne w x
          if a.help then return a else a.takeAll ((v, y) :: rest)

/-- What the command line asks for.  Words that mean nothing are wrong unless help is asked for. -/
def ofWords (words : List Text) : Except UsageError Arguments := do
  let arguments ← Argument.ofWords words
  let a ← takeAll {} arguments
  if a.help || a.unrecognized.isEmpty then return a
  else throw (.unrecognized a.unrecognized)

end Arguments
end SchemaSpec
