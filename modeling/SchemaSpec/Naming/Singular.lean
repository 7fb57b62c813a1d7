import SchemaSpec.Naming.Pascal

/-!
# Singular forms

Table names are plural, model names singular.

**Rules.**  A word is looked at in lower case.  If its last segment (behind the last underscore) has
no plural, the word stays as it is; if it is irregular, the segment is exchanged.  Otherwise the
first of `suffixRules` that fits is applied: a rule asks for a stem ending, or for a whole stem, in
front of the suffix that it removes, and adds an ending of its own.  A word that no rule fits stays
as it is.  One line feed at the end of a word is kept out of the matching.

Stems and suffixes are compared letter by letter, where the long s counts as `s` and the dotless i
as `i` (`foldLetter`).

* `singularize`: the singular form of a word.
* `modelName`: the model name of a table.
-/

namespace SchemaSpec
namespace Naming

open Text

/-- Nouns whose plural is no different. -/
def uncountables : List Text :=
  ["equipment", "information", "rice", "money", "species", "series", "fish", "sheep", "jeans",
    "police", "metadata", "data", "news"].map String.toList

/-- Irregular plurals with their singulars. -/
def irregulars : List (Text × Text) :=
  [("people", "person"), ("men", "man"), ("children", "child"), ("sexes", "sex"),
    ("moves", "move"), ("zombies", "zombie")].map (fun p => (p.1.toList, p.2.toList))

/-- Letters that differ only in their form are compared as one. -/
def foldLetter (c : Char) : Char :=
  if c = 'ſ' then 's' else if c = 'ı' then 'i' else c

/-- What a rule asks of the stem in front of the suffix. -/
inductive StemShape
  /-- The stem ends with one of these. -/
  | ending (endings : List Text)
  /-- The stem is one of these. -/
  | whole (stems : List Text)
  /-- The stem ends with a character that is none of these. -/
  | endingOther (letters : Text)
  /-- The stem ends with a character that is none of these, or with one of the endings. -/
  | endingOtherOr (letters : Text) (endings : List Text)
  /-- The stem starts with a character that is not the first letter, has no line feed behind it,
  and ends, at the earliest with its second character, with one of the last letters. -/
  | spanning (first : Char) (last : Text)
  deriving Repr, DecidableEq

/-- Whether a folded stem has a shape. -/
def StemShape.fits (stem : Text) : StemShape → Bool
  | .ending endings => endings.any (fun e => e.isSuffixOf stem)
  | .whole stems => stems.contains stem
  | .endingOther letters =>
      match stem.getLast? with
      | some c => !letters.contains c
      | none => false
  | .endingOtherOr letters endings =>
      (match stem.getLast? with
        | some c => !letters.contains c
        | none => false) || endings.any (fun e => e.isSuffixOf stem)
  | .spanning first last =>
      match stem with
      | c :: d :: r =>
          c != first && !(d :: r).contains '\n'
            && last.contains ((d :: r).getLast (List.cons_ne_nil d r))
      | _ => false

/-- A rule: the shape of the stem, the suffix removed behind it and the ending added. -/
structure SuffixRule where
  stem : StemShape
  removed : Text
  added : Text
  deriving Repr, DecidableEq

/-- A rule from its parts. -/
def rule (stem : StemShape) (removed added : String) : SuffixRule :=
  ⟨stem, removed.toList, added.toList⟩

/-- A stem that ends with one of these. -/
def ending (endings : List String) : StemShape :=
  .ending (endings.map String.toList)

/-- A stem that is this one. -/
def whole (stems : List String) : StemShape :=
  .whole (stems.map String.toList)

/-- The suffix rules, in the order in which they are tried. -/
def suffixRules : List SuffixRule :=
  [ rule (ending ["database"]) "s" "",
    rule (ending ["quiz"]) "zes" "",
    rule (ending ["matr"]) "ices" "ix",
    rule (ending ["vert", "ind"]) "ices" "ex",
    rule (whole ["ox"]) "en" "",
    rule (ending ["alias", "status"]) "" "",
    rule (ending ["alias", "status"]) "es" "",
    rule (ending ["octop", "vir"]) "i" "us",
    rule (ending ["octop", "vir", "cact", "radi", "fung", "alumn", "stimul", "syllab"]) "us" "us",
    rule (whole ["a"]) "xes" "xis",
    rule (ending ["cris", "test"]) "es" "is",
    rule (ending ["analys", "bas", "diagnos", "ellips", "hypothes", "oas", "paralys", "parenthes",
      "synops", "thes", "cris", "test"]) "is" "is",
    rule (ending ["shoe"]) "s" "",
    rule (ending ["o"]) "es" "",
    rule (ending ["bus"]) "" "",
    rule (ending ["bus"]) "es" "",
    rule (whole ["m", "l"]) "ice" "ouse",
    rule (ending ["x", "ch", "ss", "sh"]) "es" "",
    rule (ending ["m"]) "ovies" "ovie",
    rule (ending ["s"]) "eries" "eries",
    rule (.endingOtherOr "aeiouy".toList ["qu".toList]) "ies" "y",
    rule (ending ["l", "r"]) "ves" "f",
    rule (ending ["tive"]) "s" "",
    rule (ending ["hive"]) "s" "",
    rule (.endingOther "f".toList) "ves" "fe",
    rule (whole ["analy"]) "ses" "sis",
    rule (ending ["analy", "ba", "diagno", "parenthe", "progno", "synop", "the"]) "ses" "sis",
    rule (ending ["phenomen"]) "a" "on",
    rule (whole [""]) "news" "news",
    rule (.spanning 'm' "ti".toList) "a" "um",
    rule (whole ["d"]) "ata" "atum",
    rule (ending ["ss"]) "" "",
    rule (ending [""]) "s" "" ]

/-- Apply a rule to a word without final line feed, if it fits. -/
def SuffixRule.apply? (r : SuffixRule) (word : Text) : Option Text :=
  let folded := word.map foldLetter
  let kept := word.length - r.removed.length
  if r.removed.isSuffixOf folded && r.stem.fits (folded.take kept) then
    some (word.take kept ++ r.added)
  else none

/-- The parts of a word up to its last underscore, with it, and behind it. -/
def lastSegment (word : Text) : Text × Text :=
  let tail := (word.reverse.takeWhile (fun c => c != '_')).reverse
  (word.take (word.length - tail.length), tail)

/-- Apply the first rule that fits to a word in lower case. -/
def applyRules (word : Text) : Option Text :=
  let body := dropFinalLineFeed word
  (suffixRules.findSome? (fun r => r.apply? body)).map (fun t => t ++ word.drop body.length)

/-- The singular form of a word. -/
def singularize (word : Text) : Text :=
  let low := lower word
  let parts := lastSegment low
  if uncountables.contains parts.2 then word
  else
    match irregulars.lookup parts.2 with
    | some singular => parts.1 ++ singular
    | none => (applyRules low).getD word

/-- The model name of a table: the Pascal form of the singular of its name, which starts behind the
last point. -/
def modelName (table : Text) : Text :=
  toPascal (singularize (lower ((splitOn '.' table).getLastD [])))

end Naming
end SchemaSpec
