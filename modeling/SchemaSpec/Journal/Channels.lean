import SchemaSpec.Journal.Basic

/-!
# Channels

Channels are named by words with points between them.  Each stands below another channel or below the
root.

**State.**  A channel has a level, which counts as unset when it is zero, may show records itself,
and may be cut off from the channel above it.  One channel is the main channel of the program.

**Order.**  The names above a name are what is before its points, from the last point on; a point right
before one that has been used is passed over.  A new channel stands below the nearest channel with one
of these names.  It takes over the channels that its own name is above, except those that stand below
a channel, or the root, whose name starts with its own.

* `namesAbove`: the names above a name.
* `add`: make a channel unless it is there; `update` makes it too, if need be.
* `threshold`: the level from which on a channel takes records: that of the nearest channel at or
  above it whose level is set.
* `copies`: how often a record is shown: if it is taken, once by each channel from its own up to the
  root that shows records, as far as none is cut off.  `shown` gives all that is shown of records.
* `configure`, `ensureMain`, `reset`: set up the channels of the program, make its main channel if
  there is none, and forget it.
-/

namespace SchemaSpec

/-- The state of a channel; `above` is the channel it stands below, if that is not the root. -/
structure Channel where
  level : Level := 0
  shows : Bool := false
  cutOff : Bool := false
  above : Option Text := none
  deriving Repr, DecidableEq

/-- All channels that have been made. -/
structure Channels where
  root : Channel := { level := Level.warning }
  named : List (Text × Channel) := []
  main : Option Text := none
  deriving Repr, DecidableEq

namespace Channels

/-- The name of the main channel. -/
def mainName : Text := "rails_tsp".toList

/-- The channels of the parts of the program. -/
def moduleNames : List Text :=
  ["generator", "generation", "parsing", "discovery", "util"].map String.toList

/-- The channels of libraries, which stay quiet. -/
def quietNames : List Text :=
  ["markdown_it"].map String.toList

/-- The name of the root. -/
def rootName : Text := "root".toList

/-- Whether a name means the root. -/
def isRoot (name : Text) : Bool :=
  name.isEmpty || name == rootName

/-- The name that records of a channel bear. -/
def properName (name : Text) : Text :=
  if isRoot name then rootName else name

/-- The state of a channel. -/
def get (c : Channels) (name : Text) : Channel :=
  if isRoot name then c.root else (c.named.lookup name).getD {}

/-- The names above a name that is written last character first: what is before its last point, then
the names above that less its last character. -/
def namesAboveReversed : Text → List Text
  | [] => []
  | '.' :: c :: r => (c :: r).reverse :: namesAboveReversed r
  | _ :: r => namesAboveReversed r

/-- The names above a name, the nearest first. -/
def namesAbove (name : Text) : List Text :=
  namesAboveReversed name.reverse

/-- Whether a channel has been made. -/
def isMade (c : Channels) (name : Text) : Bool :=
  isRoot name || c.named.any (fun p => p.1 == name)

/-- The state of a channel beside a new one. -/
def beside (new name : Text) (s : Channel) : Channel :=
  if (namesAbove name).contains new && (Text.after? new (s.above.getD rootName)).isNone then
    { s with above := some new }
  else s

/-- Make a channel unless it is there. -/
def add (c : Channels) (name : Text) : Channels :=
  if c.isMade name then c
  else
    { c with
      named := c.named.map (fun p => (p.1, beside name p.1 p.2))
        ++ [(name, { above := (namesAbove name).find? c.isMade })] }

/-- Change the state of a channel. -/
def update (c : Channels) (name : Text) (change : Channel → Channel) : Channels :=
  if isRoot name then { c with root := change c.root }
  else
    { c with
      named := (c.add name).named.map (fun p => if p.1 = name then (p.1, change p.2) else p) }

/-- A channel and those above it, the nearest first, without the root. -/
def lineage (c : Channels) (name : Text) : List Text :=
  if isRoot name then []
  else
    match (c.get name).above with
    | none => [name]
    | some above =>
        if _h : above.length < name.length then name :: c.lineage above else [name]
  termination_by name.length

/-- The level from which on a channel takes records. -/
def threshold (c : Channels) (name : Text) : Level :=
  (((c.lineage name).map (fun n => (c.get n).level)).find? (fun l => l != 0)).getD c.root.level

/-- How many of the channels, and the root behind them, show records, up to one that is cut off. -/
def displays (c : Channels) : List Text → Nat
  | [] => c.root.shows.toNat
  | n :: ns => (c.get n).shows.toNat + (if (c.get n).cutOff then 0 else c.displays ns)

/-- How often a record is shown; one of level zero never is. -/
def copies (c : Channels) (r : Record) : Nat :=
  if r.level = 0 ∨ r.level < c.threshold r.channel then 0 else c.displays (c.lineage r.channel)

/-- What is shown of a record. -/
def shownOf (c : Channels) (r : Record) : List Record :=
  List.replicate ((c.add r.channel).copies r) { r with channel := properName r.channel }

/-- What is shown of records. -/
def shown (c : Channels) (rs : List Record) : List Record :=
  rs.flatMap c.shownOf

/-- Make a channel of the program's own: it shows records itself and is cut off. -/
def make (c : Channels) (name : Text) (level : Level) : Channels :=
  { c.update name (fun s => { s with level, shows := true, cutOff := true }) with
    main := some name }

/-- The channels with a main channel, made if there is none. -/
def ensureMain (c : Channels) (name level : Text) : Except UnknownLevel Channels :=
  match c.main with
  | some _ => .ok c
  | none => (Level.ofName level).map (c.make name)

/-- The main channel set to a level, made if there is none. -/
def setMain (c : Channels) (level : Level) : Channels :=
  match c.main with
  | some name => c.update name (fun s => { s with level })
  | none => c.make mainName level

/-- Set up the channels: the main one and those of the parts of the program take records from the
given level on, and the root shows what matters in the rest. -/
def configure (c : Channels) (level : Level) : Channels :=
  let c := (c.setMain level).update [] (fun s => { s with level := Level.warning, shows := true })
  let c := moduleNames.foldl
    (fun c n => c.update n (fun s => { s with level, shows := false, cutOff := false })) c
  quietNames.foldl
    (fun c n => c.update n (fun s => { s with level := Level.warning, cutOff := false })) c

/-- Forget which channel is the main one; the channels stay as they are. -/
def reset (c : Channels) : Channels :=
  { c with main := none }

/-- The levels of the channels of the parts and the libraries. -/
def levels (c : Channels) : List (Text × Level) :=
  (moduleNames ++ quietNames).map (fun n => (n, (c.get n).level))

end Channels
end SchemaSpec
