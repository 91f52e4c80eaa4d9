import LiveDoc.Text.Digits
import LiveDoc.Text.Pattern.Basic

/-!
# Atoms of written patterns

The flags under which a pattern is read, and its smallest parts: characters, sets with a letter or a
name of their own, and demands.
-/

set_option autoImplicit false
set_option relaxedAutoImplicit false

namespace LiveDoc.Text.Pattern

/-- How what follows is read: whether case counts, whether the ends of lines are looked for, whether
the point takes line feeds, whether carriage returns end lines, whether sets know more than the
first 128 characters, and whether blanks and comments are passed over. -/
structure Flags where
  anyCase : Bool := false
  lines : Bool := false
  pointTakesAll : Bool := false
  returns : Bool := false
  wide : Bool := true
  loose : Bool := false
deriving DecidableEq, Repr

namespace Flags

/-- The flags with one of them set or cleared by its letter. Whether repetitions are eager makes no
difference. -/
def set? (flags : Flags) (letter : Char) (on : Bool) : Option Flags :=
  match letter with
  | 'i' => some { flags with anyCase := on }
  | 'm' => some { flags with lines := on }
  | 's' => some { flags with pointTakesAll := on }
  | 'R' => some { flags with returns := on }
  | 'u' => some { flags with wide := on }
  | 'x' => some { flags with loose := on }
  | 'U' => some flags
  | _ => none

/-- The flags that letters change, up to the colon or bracket that ends them, with that mark, the
letters and what follows. A dash, which some letter has to follow, clears the flags behind it. -/
def change? (flags : Flags) (seen : List Char) :
    List Char → Option (Flags × Char × List Char × List Char)
  | [] => none
  | c :: rest =>
    if c = ':' ∨ c = ')' then
      if seen.head? = some '-' then none else some (flags, c, seen, rest)
    else if c ∈ seen then none
    else if c = '-' then flags.change? (c :: seen) rest
    else do
      let flags ← flags.set? c (!seen.contains '-')
      flags.change? (c :: seen) rest

end Flags

/-- What is left behind blanks and comments, from inside a comment or not. -/
def skipLoose (inComment : Bool) : List Char → List Char
  | [] => []
  | c :: rest =>
    if inComment then skipLoose (c ≠ '\n') rest
    else if isBlank c then skipLoose false rest
    else if c = '#' then skipLoose true rest
    else c :: rest

/-- What is left behind blanks and comments, where they are passed over. -/
def Flags.skip (flags : Flags) (cs : List Char) : List Char :=
  if flags.loose then skipLoose false cs else cs

/-- What stands before a closing brace, and what follows it. Blanks and comments are left out where
they are passed over. -/
def braced? (loose inComment : Bool) : List Char → Option (List Char × List Char)
  | [] => none
  | c :: rest =>
    if inComment then braced? loose (c ≠ '\n') rest
    else if loose && isBlank c then braced? loose false rest
    else if loose && c = '#' then braced? loose true rest
    else if c = '\x7d' then some ([], rest)
    else (braced? loose false rest).map fun (inside, after) => (c :: inside, after)

/-- The smallest parts of a pattern. A character may be written as a byte, by two digits. -/
inductive Atom
  | literal (c : Char) (byte : Bool)
  | set (chars : CharSet)
  | look (demand : Look)

def taken? (flags : Flags) : Nat → List Char → Option (List Char × List Char)
  | 0, cs => some ([], cs)
  | n + 1, cs =>
    match flags.skip cs with
    | c :: rest => (taken? flags n rest).map fun (front, after) => (c :: front, after)
    | [] => none

/-- A character by its code, in braces or in a fixed number of digits. -/
def coded? (flags : Flags) (digits : Nat) (cs : List Char) : Option (Atom × List Char) :=
  match flags.skip cs with
  | '\x7b' :: rest => do
    let (inside, after) ← braced? flags.loose false rest
    let c ← codePoint? 16 inside
    some (.literal c false, after)
  | cs => do
    let (front, after) ← taken? flags digits cs
    let c ← codePoint? 16 front
    some (.literal c (digits = 2), after)

/-- A set under flags, or what lies outside of it. Among the first 128 characters only, what lies
outside cannot be told. -/
def Flags.signed? (flags : Flags) (negated : Bool) (set : CharSet) : Option CharSet :=
  if !negated then some set
  else if flags.wide then some (.outside set)
  else none

def Flags.cased (flags : Flags) (set : CharSet) : CharSet :=
  if flags.anyCase then .anyCase (!flags.wide) set else set

/-- A set with a letter of its own. A capital letter stands for what lies outside. -/
def lettered? (flags : Flags) (letter : Char) : Option CharSet :=
  match letter.toLower with
  | 'd' => flags.signed? letter.isUpper (if flags.wide then .digits else .plainDigits)
  | 's' => flags.signed? letter.isUpper (if flags.wide then .blanks else .plainBlanks)
  | 'w' => flags.signed? letter.isUpper (if flags.wide then .wordChars else .plainWordChars)
  | _ => none

/-- What stands before and behind the first place where a mark stands. -/
def parted? (mark : List Char) : List Char → Option (List Char × List Char)
  | [] => none
  | c :: rest =>
    if mark.isPrefixOf (c :: rest) then some ([], (c :: rest).drop mark.length)
    else (parted? mark rest).map fun (front, after) => (c :: front, after)

/-- The set that a name in braces stands for, or the name and the value of a property; whether what
lies outside is meant. -/
def ofBraced? (name : List Char) : Option (CharSet × Bool) :=
  let value (negated : Bool) (parts : List Char × List Char) : Option (CharSet × Bool) :=
    (CharSet.ofValue? (String.ofList parts.1) (String.ofList parts.2)).map (·, negated)
  match parted? ['!', '='] name, parted? [':'] name, parted? ['='] name with
  | some parts, _, _ => value true parts
  | none, some parts, _ | none, none, some parts => value false parts
  | none, none, none => (CharSet.ofName? (String.ofList name)).map (·, false)

def named? (flags : Flags) (negated : Bool) (cs : List Char) : Option (Atom × List Char) := do
  let (set, unlike, after) ←
    match flags.skip cs with
    | '\x7b' :: rest => do
      let (inside, after) ← braced? flags.loose false rest
      let (set, unlike) ← ofBraced? inside
      some (set, unlike, after)
    | c :: rest =>
      if c = '\\' then none
      else (CharSet.ofName? (String.singleton c)).map fun set => (set, false, rest)
    | [] => none
  if flags.wide then
    let set ← flags.signed? (negated != unlike) (flags.cased set)
    some (.set set, after)
  else none

def edgeNamed? (plain : Bool) (name : List Char) : Option Look :=
  match String.ofList name with
  | "start" => some (.wordStart plain)
  | "end" => some (.wordEnd plain)
  | "start-half" => some (.noWordBefore plain)
  | "end-half" => some (.noWordAfter plain)
  | _ => none

/-- The edge of a word, which may be named in braces. Braces that no letter and no dash begins are
left to be a repetition. -/
def edge? (flags : Flags) (cs : List Char) : Option (Atom × List Char) :=
  let plain := !flags.wide
  match cs with
  | '\x7b' :: rest =>
    match flags.skip rest with
    | c :: _ =>
      if c.isAlpha || c = '-' then do
        let (inside, after) ← braced? flags.loose false rest
        let demand ← edgeNamed? plain inside
        some (.look demand, after)
      else some (.look (.edge plain), cs)
    | [] => none
  | cs => some (.look (.edge plain), cs)

def control? (letter : Char) : Option Char :=
  match letter with
  | 'a' => some (Char.ofNat 7)
  | 'f' => some (Char.ofNat 12)
  | 't' => some '\t'
  | 'n' => some '\n'
  | 'r' => some '\r'
  | 'v' => some (Char.ofNat 11)
  | _ => none

/-- What a character behind a backslash means, with what follows. Of letters and digits only some
mean anything; other characters among the first 128 stand for themselves. -/
def escape? (flags : Flags) (c : Char) (rest : List Char) : Option (Atom × List Char) :=
  let plain := !flags.wide
  match c with
  | 'x' => coded? flags 2 rest
  | 'u' => coded? flags 4 rest
  | 'U' => coded? flags 8 rest
  | 'p' => named? flags false rest
  | 'P' => named? flags true rest
  | 'A' => some (.look .start, rest)
  | 'z' => some (.look .finish, rest)
  | 'b' => edge? flags rest
  | 'B' => some (.look (.noEdge plain), rest)
  | '<' => some (.look (.wordStart plain), rest)
  | '>' => some (.look (.wordEnd plain), rest)
  | c =>
    match lettered? flags c, control? c with
    | some set, _ => some (.set set, rest)
    | none, some control => some (.literal control false, rest)
    | none, none =>
      if c.isAlphanum || 128 ≤ c.toNat then none else some (.literal c false, rest)

end LiveDoc.Text.Pattern
