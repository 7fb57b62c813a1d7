import SchemaSpec.Text.CaseTable
import SchemaSpec.Text.Basic

/-!
# Upper and lower case

Case mapping of whole texts, for all scripts.

* `upper` maps each character on its own; some characters become several.
* `lower` maps each character on its own too, but for the capital sigma: at the end of a word it
  becomes the final small sigma.
-/

namespace SchemaSpec
namespace Text

/-- The image of a code point under a table of case runs. -/
def mapRuns (runs : List (Nat × Nat × Nat × Nat)) (n : Nat) : Nat :=
  match runs.find? (fun r => r.1 ≤ n && n ≤ r.2.1 && (n - r.1) % r.2.2.1 == 0) with
  | some r => r.2.2.2 + (n - r.1)
  | none => n

/-- The upper case form of a character. -/
def upperChar (c : Char) : Text :=
  if c.toNat < 128 then [c.toUpper]
  else
    match upperExpansions.find? (fun e => e.1 == c.toNat) with
    | some e => e.2.map Char.ofNat
    | none => [Char.ofNat (mapRuns upperRuns c.toNat)]

/-- The upper case form of a text. -/
def upper (t : Text) : Text :=
  t.flatMap upperChar

/-- The lower case form of a character that is not in the place of a final sigma.  The capital I
with a dot keeps its dot as a mark of its own. -/
def lowerChar (c : Char) : Text :=
  if c.toNat < 128 then [c.toLower]
  else if c.toNat = 304 then ['i', Char.ofNat 775]
  else [Char.ofNat (mapRuns lowerRuns c.toNat)]

/-- Whether a character is looked through when the ends of a word are sought. -/
def isCaseIgnorable (c : Char) : Bool :=
  inRanges caseIgnorableRanges c

/-- Whether a character has case and is not looked through. -/
def isCased (c : Char) : Bool :=
  inRanges casedRanges c

/-- Whether the first character that is not looked through has case. -/
def startsCased (t : Text) : Bool :=
  match t.dropWhile isCaseIgnorable with
  | [] => false
  | c :: _ => isCased c

/-- The lower case form of the rest of a text; `inWord` says whether a cased character stands
before it. -/
def lowerFrom (inWord : Bool) : Text → Text
  | [] => []
  | c :: r =>
      (if c.toNat = 931 then [if inWord && !startsCased r then 'ς' else 'σ'] else lowerChar c)
        ++ lowerFrom (if isCaseIgnorable c then inWord else isCased c) r

/-- The lower case form of a text. -/
def lower (t : Text) : Text :=
  lowerFrom false t

end Text
end SchemaSpec
