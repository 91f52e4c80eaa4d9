import LiveDoc.Text.Pattern.Bracket

/-!
# Reading patterns

A written pattern is read part by part, with a stack of the groups that are still open. Patterns
that are nested too deep or that would take too much room are refused.
-/

set_option autoImplicit false
set_option relaxedAutoImplicit false

namespace LiveDoc.Text.Pattern

/-- A part of a pattern, how deep its parts are nested, and how much room it takes in bytes. A
change of flags is a part that cannot be repeated. -/
structure Part where
  pattern : Pattern
  depth : Nat
  room : Nat
  repeats : Bool := true

/-- A group that is still open: the flags behind it, its finished alternatives and the parts of the
one at hand, both last first. -/
structure Group where
  flagsBehind : Flags
  alternatives : List Part
  parts : List Part

/-- What has been read: the open groups, innermost first, the flags at hand, and the names of the
groups. -/
structure Draft where
  group : Group
  outer : List Group
  flags : Flags
  names : List (List Char)

def maxDepth : Nat := 250

def maxRoom : Nat := 10485760

def stateRoom : Nat := 32

namespace Part

def deepest (parts : List Part) : Nat :=
  (parts.map Part.depth).foldl max 0

def totalRoom (more : Nat) (parts : List Part) : Nat :=
  (parts.map fun part => part.room + more).foldl (· + ·) 0

def empty : Part := ⟨.empty, 0, stateRoom, true⟩

def directive : Part := ⟨.empty, 0, stateRoom, false⟩

def look (demand : Look) : Part := ⟨.look demand, 0, stateRoom, true⟩

def set (chars : CharSet) (depth : Nat) : Part :=
  ⟨.one chars, depth, 2 * stateRoom + chars.room, true⟩

/-- The part of a character. A byte has to be one of the first 128 where no others are known. -/
def literal? (flags : Flags) (c : Char) (byte : Bool) : Option Part :=
  if byte && !flags.wide && 128 ≤ c.toNat then none
  else some ⟨.one (flags.cased (.single c)), 0, stateRoom * c.utf8Size, true⟩

def ofAtom? (flags : Flags) : Atom → Option Part
  | .literal c byte => literal? flags c byte
  | .set chars => some (set chars 0)
  | .look demand => some (look demand)

/-- The part of a point, which takes no line feed unless it takes all. -/
def point? (flags : Flags) : Option Part :=
  if !flags.wide then none
  else if flags.pointTakesAll then some (set (.outside .empty) 0)
  else if flags.returns then some (set (.outside (.union (.single '\n') (.single '\r'))) 0)
  else some (set (.outside (.single '\n')) 0)

def sequence (parts : List Part) : Part :=
  match parts with
  | [] => empty
  | [part] => part
  | parts =>
    ⟨parts.foldr (fun part behind => join part.pattern behind) .empty, 1 + deepest parts,
      totalRoom 0 parts, true⟩

def choice (parts : List Part) : Part :=
  match parts with
  | [] => empty
  | [part] => part
  | first :: rest =>
    ⟨rest.foldl (fun before part => .alt before part.pattern) first.pattern,
      1 + deepest parts, 2 * stateRoom + totalRoom 4 parts, true⟩

def grouped (part : Part) (captures : Bool) : Part :=
  { part with
    depth := 1 + part.depth
    room := if captures then part.room + 2 * stateRoom else part.room
    repeats := true }

/-- A part again and again, if it can be repeated. What is hollow is repeated at most once. -/
def again? (part : Part) (low : Nat) (high : Option Nat) : Option Part :=
  if !part.repeats then none
  else
    let hollow := part.pattern.isHollow
    let low := if hollow then min low 1 else low
    let high := if hollow then some (min (high.getD 1) 1) else high
    let room :=
      match high with
      | none => max low 1 * part.room + 3 * stateRoom
      | some 0 => stateRoom
      | some high => low * part.room + (high - low) * (part.room + stateRoom + 8) + stateRoom
    some ⟨.times part.pattern low high, 1 + part.depth, room, true⟩

end Part

namespace Group

def alternative (g : Group) : Part := .sequence g.parts.reverse

def finish (g : Group) : Part := .choice (g.alternative :: g.alternatives).reverse

def push (g : Group) (part : Part) : Group := { g with parts := part :: g.parts }

def branch (g : Group) : Group :=
  { g with alternatives := g.alternative :: g.alternatives, parts := [] }

def repeat? (g : Group) (low : Nat) (high : Option Nat) : Option Group :=
  match g.parts with
  | part :: parts => (part.again? low high).map fun part => { g with parts := part :: parts }
  | [] => none

end Group

/-- Whether a character may stand in the name of a group: a letter or a low line, and behind the
first character also a digit, a point or a bracket. -/
def isNameChar (first : Bool) (c : Char) : Bool :=
  c = '_' || Trait.alphabetic.has c ||
    (!first && (c = '.' || c = '[' || c = ']' || Category.number.has c))

def groupName? (cs : List Char) : Option (List Char × List Char) :=
  match cs.takeWhile (· ≠ '>'), cs.dropWhile (· ≠ '>') with
  | first :: more, _ :: rest =>
    if isNameChar true first && more.all (isNameChar false) then some (first :: more, rest)
    else none
  | _, _ => none

namespace Draft

def start : Draft := ⟨⟨{}, [], []⟩, [], {}, []⟩

def push (d : Draft) (part : Part) : Draft := { d with group := d.group.push part }

def enter (d : Draft) (flags : Flags) : Draft :=
  { d with group := ⟨d.flags, [], []⟩, outer := d.group :: d.outer, flags }

def enterNamed? (d : Draft) (cs : List Char) : Option (Draft × List Char) := do
  let (name, rest) ← groupName? cs
  if name ∈ d.names then none
  else some ({ d.enter d.flags with names := name :: d.names }, rest)

/-- Opens a group of which the bracket has been read, or changes flags up to the end of the one at
hand. Looking around is not known. -/
def open? (d : Draft) (cs : List Char) : Option (Draft × List Char) :=
  match d.flags.skip cs with
  | '?' :: '=' :: _ | '?' :: '!' :: _ | '?' :: '<' :: '=' :: _ | '?' :: '<' :: '!' :: _ => none
  | '?' :: 'P' :: '<' :: rest | '?' :: '<' :: rest => d.enterNamed? rest
  | '?' :: rest => do
    let (flags, mark, letters, rest) ← d.flags.change? [] rest
    if mark = ':' then some (d.enter flags, rest)
    else if letters.isEmpty then none
    else some ({ d.push .directive with flags }, rest)
  | rest => some (d.enter d.flags, rest)

def close? (d : Draft) : Option Draft :=
  match d.outer with
  | g :: outer =>
    some { d with
      group := g.push (d.group.finish.grouped true), outer, flags := d.group.flagsBehind }
  | [] => none

def repeat? (d : Draft) (low : Nat) (high : Option Nat) : Option Draft :=
  (d.group.repeat? low high).map fun group => { d with group }

end Draft

/-- What follows a question mark, if there is one: behind a repetition it makes no difference. -/
def skipLazy : List Char → List Char
  | '?' :: rest => rest
  | rest => rest

def count? (cs : List Char) : Option Nat :=
  (number? 10 (trimChars cs)).filter fun n => n < 4294967296

/-- The bounds written between braces: a number, or a least and perhaps a greatest one. -/
def bounds? (cs : List Char) : Option (Nat × Option Nat) :=
  match pieces (· = ',') cs with
  | [count] => (count? count).map fun n => (n, some n)
  | [low, []] => (count? low).map fun n => (n, none)
  | [low, high] => do
    let low ← count? low
    let high ← count? high
    if low ≤ high then some (low, some high) else none
  | _ => none

def step? (d : Draft) (c : Char) (rest : List Char) : Option (Draft × List Char) :=
  let flags := d.flags
  let atom (found : Option (Atom × List Char)) : Option (Draft × List Char) := do
    let (atom, rest) ← found
    let part ← Part.ofAtom? flags atom
    some (d.push part, rest)
  match c with
  | '(' => d.open? rest
  | ')' => d.close?.map (·, rest)
  | '|' => some ({ d with group := d.group.branch }, rest)
  | '[' => do
    let (bracket, rest) ← Bracket.open? flags rest
    let (part, rest) ← bracketed? flags (rest.length + 1) bracket [] rest
    some (d.push (.set part.chars part.depth), rest)
  | '?' => (d.repeat? 0 (some 1)).map (·, skipLazy rest)
  | '*' => (d.repeat? 0 none).map (·, skipLazy rest)
  | '+' => (d.repeat? 1 none).map (·, skipLazy rest)
  | '\x7b' => do
    let (inside, rest) ← braced? flags.loose false rest
    let (low, high) ← bounds? inside
    let d ← d.repeat? low high
    some (d, skipLazy (flags.skip rest))
  | '\\' =>
    match rest with
    | c :: rest => atom (escape? flags c rest)
    | [] => none
  | '.' => (Part.point? flags).map fun part => (d.push part, rest)
  | '^' =>
    atom (some (.look (if flags.lines then .lineStart flags.returns else .start), rest))
  | '$' =>
    atom (some (.look (if flags.lines then .lineEnd flags.returns else .finish), rest))
  | c => atom (some (.literal c false, rest))

def takeAll? (fuel : Nat) (d : Draft) (cs : List Char) : Option Draft :=
  match fuel with
  | 0 => none
  | fuel + 1 =>
    match d.flags.skip cs with
    | [] => some d
    | c :: rest => do
      let (d, rest) ← step? d c rest
      takeAll? fuel d rest

def ofText? (s : String) : Option Pattern := do
  let cs := s.toList
  let d ← takeAll? (cs.length + 1) .start cs
  let part := d.group.finish
  if d.outer.isEmpty && part.depth ≤ maxDepth && part.room ≤ maxRoom then some part.pattern
  else none

/-- The pattern of the texts that a text spells as a whole. The frame is put around the text before
it is read, so that brackets in it may close and open those of the frame. -/
def whole? (s : String) : Option Pattern :=
  ofText? ("^(?:" ++ s ++ ")$")

end LiveDoc.Text.Pattern
