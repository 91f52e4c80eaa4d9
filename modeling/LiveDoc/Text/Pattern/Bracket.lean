import LiveDoc.Text.Pattern.Atom

/-!
# Bracketed sets

Sets written between brackets: characters, ranges, sets with names, nested sets, and operations on
all of these.
-/

set_option autoImplicit false
set_option relaxedAutoImplicit false

namespace LiveDoc.Text.Pattern

structure SetPart where
  chars : CharSet
  depth : Nat

/-- The operations on sets besides union, which all bind less tightly and equally. -/
inductive SetOperation
  | inter | diff | symmDiff
deriving DecidableEq, Repr

/-- The set that an operation makes of two. -/
def SetOperation.apply : SetOperation → CharSet → CharSet → CharSet
  | .inter => .inter
  | .diff => .diff
  | .symmDiff => .symmDiff

def SetOperation.ofMark? (mark : Char) : Option SetOperation :=
  match mark with
  | '&' => some .inter
  | '-' => some .diff
  | '~' => some .symmDiff
  | _ => none

/-- A set that is still open: whether what lies outside is meant, the operand before the operation
at hand, and the parts of the operand that is being read, last first. -/
structure Bracket where
  negated : Bool
  pending : Option (SetPart × SetOperation)
  parts : List SetPart

namespace Bracket

def push (b : Bracket) (part : SetPart) : Bracket :=
  { b with parts := part :: b.parts }

def operand (b : Bracket) : SetPart :=
  match b.parts with
  | [] => ⟨.empty, 0⟩
  | [part] => part
  | parts => ⟨.unions (parts.reverse.map SetPart.chars), 1 + (parts.map SetPart.depth).foldl max 0⟩

/-- The result of the operation at hand. Case is disregarded in both operands before they meet. -/
def result (flags : Flags) (b : Bracket) : SetPart :=
  match b.pending with
  | none => b.operand
  | some (left, operation) =>
    let right := b.operand
    ⟨operation.apply (flags.cased left.chars) (flags.cased right.chars),
      1 + max left.depth right.depth⟩

def operate (flags : Flags) (b : Bracket) (operation : SetOperation) : Bracket :=
  { b with pending := some (b.result flags, operation), parts := [] }

/-- The finished set. Case is disregarded before what lies outside is taken. -/
def close? (flags : Flags) (b : Bracket) : Option SetPart :=
  let inside := b.result flags
  (flags.signed? b.negated (flags.cased inside.chars)).map fun chars => ⟨chars, 1 + inside.depth⟩

/-- The dashes at the front, each of which stands for itself, and what follows them. Blanks and
comments are left out where they are passed over. -/
def dashes? (loose inComment : Bool) : List Char → Option (List SetPart × List Char)
  | [] => none
  | c :: rest =>
    if inComment then dashes? loose (c ≠ '\n') rest
    else if loose && isBlank c then dashes? loose false rest
    else if loose && c = '#' then dashes? loose true rest
    else if c = '-' then
      (dashes? loose false rest).map fun (parts, after) => (⟨.single '-', 0⟩ :: parts, after)
    else some ([], c :: rest)

/-- A set of which the opening bracket has been read, and what follows. Dashes that come first stand
for themselves, and without them so does a closing bracket. -/
def open? (flags : Flags) (cs : List Char) : Option (Bracket × List Char) := do
  let (negated, cs) :=
    match flags.skip cs with
    | '^' :: rest => (true, rest)
    | cs => (false, cs)
  match ← dashes? flags.loose false cs with
  | ([], ']' :: rest) => some (⟨negated, none, [⟨.single ']', 0⟩]⟩, rest)
  | (dashes, rest) => some (⟨negated, none, dashes⟩, rest)

end Bracket

def colonRanges? (name : String) : Option (List (Char × Char)) :=
  match name with
  | "alnum" => some [('0', '9'), ('A', 'Z'), ('a', 'z')]
  | "alpha" => some [('A', 'Z'), ('a', 'z')]
  | "ascii" => some [(Char.ofNat 0, Char.ofNat 127)]
  | "blank" => some [('\t', '\t'), (' ', ' ')]
  | "cntrl" => some [(Char.ofNat 0, Char.ofNat 31), (Char.ofNat 127, Char.ofNat 127)]
  | "digit" => some [('0', '9')]
  | "graph" => some [('!', '~')]
  | "lower" => some [('a', 'z')]
  | "print" => some [(' ', '~')]
  | "punct" => some [('!', '/'), (':', '@'), ('[', Char.ofNat 96), ('\x7b', '~')]
  | "space" => some [('\t', '\r'), (' ', ' ')]
  | "upper" => some [('A', 'Z')]
  | "word" => some [('0', '9'), ('A', 'Z'), ('_', '_'), ('a', 'z')]
  | "xdigit" => some [('0', '9'), ('A', 'F'), ('a', 'f')]
  | _ => none

/-- A set with a name between colons, of which the bracket has been read, and what follows; none if
it is not one. -/
def colonSet? (cs : List Char) : Option (Bool × List (Char × Char) × List Char) := do
  let (negated, cs) ←
    match cs with
    | ':' :: '^' :: rest => some (true, rest)
    | ':' :: rest => some (false, rest)
    | _ => none
  match cs.dropWhile (· ≠ ':') with
  | ':' :: ']' :: rest =>
    let ranges ← colonRanges? (String.ofList (cs.takeWhile (· ≠ ':')))
    some (negated, ranges, rest)
  | _ => none

def bracketAtom? (flags : Flags) : List Char → Option (Atom × List Char)
  | '\\' :: c :: rest => escape? flags c rest
  | ['\\'] | [] => none
  | c :: rest => some (.literal c false, rest)

/-- The character that an atom has to be, as an end of a range or a member of a set. Among the first
128 characters only, no other can be a member. -/
def bracketChar? (flags : Flags) : Atom → Option Char
  | .literal c _ => if flags.wide || c.toNat < 128 then some c else none
  | _ => none

def bracketSet? (flags : Flags) : Atom → Option CharSet
  | .set chars => some chars
  | atom => (bracketChar? flags atom).map .single

/-- Whether a dash at the front stands between the ends of a range, with what follows it: if it is
not the end of the set and not the first half of an operation. -/
def rangeDash? (flags : Flags) : List Char → Option (List Char)
  | '-' :: rest =>
    match flags.skip rest with
    | ']' :: _ | '-' :: _ => none
    | _ => some (flags.skip rest)
  | _ => none

/-- A character, a range or a set with a name or a letter, and what follows. -/
def bracketItem? (flags : Flags) (cs : List Char) : Option (CharSet × List Char) := do
  let (atom, rest) ← bracketAtom? flags cs
  match rangeDash? flags (flags.skip rest) with
  | none =>
    let chars ← bracketSet? flags atom
    some (chars, rest)
  | some rest =>
    let (last, rest) ← bracketAtom? flags rest
    let low ← bracketChar? flags atom
    let high ← bracketChar? flags last
    if low ≤ high then some (.range low high, rest) else none

/-- The set between brackets of which the first has been read, and what follows, with the brackets
that enclose the one at hand. Every step takes a character at least. -/
def bracketed? (flags : Flags) (fuel : Nat) (b : Bracket) (outer : List Bracket) (cs : List Char) :
    Option (SetPart × List Char) :=
  match fuel with
  | 0 => none
  | fuel + 1 => do
    match flags.skip cs with
    | [] => none
    | '[' :: rest =>
      match colonSet? rest with
      | some (negated, ranges, rest) =>
        let chars ← flags.signed? negated (flags.cased (.ofRanges ranges))
        bracketed? flags fuel (b.push ⟨chars, 0⟩) outer rest
      | none =>
        let (inner, rest) ← Bracket.open? flags rest
        bracketed? flags fuel inner (b :: outer) rest
    | ']' :: rest =>
      let part ← b.close? flags
      match outer with
      | [] => some (part, rest)
      | b :: outer => bracketed? flags fuel (b.push part) outer rest
    | c :: rest =>
      match SetOperation.ofMark? c, rest with
      | some operation, d :: after =>
        if c = d then bracketed? flags fuel (b.operate flags operation) outer after
        else
          let (chars, rest) ← bracketItem? flags (c :: rest)
          bracketed? flags fuel (b.push ⟨chars, 0⟩) outer rest
      | _, _ =>
        let (chars, rest) ← bracketItem? flags (c :: rest)
        bracketed? flags fuel (b.push ⟨chars, 0⟩) outer rest

end LiveDoc.Text.Pattern
