import LiveDoc.Markup.Attribute
import LiveDoc.Markup.Fault

/-!
# Tokens of markup

Cutting a text into character data and tags. The scanner takes one character at a time and keeps
what it has of the token at hand in its mode; comments, instructions and declarations are tokens
without content. It is lenient: what stands in a tag is looked at later.
-/

set_option autoImplicit false
set_option relaxedAutoImplicit false

namespace LiveDoc.Markup

/-- A piece of markup, its characters still escaped. -/
inductive Token
  /-- Character data up to the next tag. -/
  | text (chars : List Char)
  /-- A section of unescaped character data. -/
  | literal (chars : List Char)
  /-- An opening tag by what stands between its brackets, or an empty one, its last slash left out.
  -/
  | tag (inside : List Char) (single : Bool)
  /-- A closing tag, by name. -/
  | closing (name : List Char)
  /-- A comment, an instruction or a declaration. -/
  | skipped
deriving DecidableEq, Repr

/-- A token with the places where it starts and where the next one does. -/
structure Placed (α : Type) where
  value : α
  start : Nat
  stop : Nat
deriving Repr

namespace Token

/-- What the scanner has of the token at hand: its characters behind the first bracket, last first,
the quote it stands in, how many inner brackets are open. -/
inductive Mode
  | text (seen : List Char)
  | opened
  | marked
  | tag (seen : List Char) (mark : Option Char)
  | closing (seen : List Char) (mark : Option Char)
  | instruction (seen : List Char)
  | comment (seen : List Char)
  | literal (seen : List Char)
  | declaration (seen : List Char) (depth : Nat)

def nextMark (mark : Option Char) (c : Char) : Option Char :=
  match mark with
  | some open? => if c = open? then none else mark
  | none => if c = '"' ∨ c = '\'' then some c else none

def ofTag : List Char → Token
  | '/' :: seen => .tag seen.reverse true
  | seen => .tag seen.reverse false

/-- A closing tag, by its characters last first: blanks at its end do not belong to the name. -/
def ofClosing (seen : List Char) : Token :=
  .closing (seen.dropWhile isSpace).reverse

/-- Whether a comment ends here: two dashes that are not those it began with. -/
def endsComment : List Char → Bool
  | '-' :: '-' :: more => 3 ≤ more.length
  | _ => false

def endsLiteral : List Char → Bool
  | ']' :: ']' :: _ => true
  | _ => false

/-- A finished comment, which has to begin with two dashes. -/
def ofComment? (seen : List Char) : Option Token :=
  match seen.reverse with
  | '!' :: '-' :: '-' :: _ => some .skipped
  | _ => none

/-- A finished section: what stands between its opening and the two brackets at its end. -/
def ofLiteral? (seen : List Char) : Option Token :=
  match seen.reverse with
  | '!' :: '[' :: 'C' :: 'D' :: 'A' :: 'T' :: 'A' :: '[' :: inside =>
    some (.literal (inside.take (inside.length - 2)))
  | _ => none

/-- A finished instruction, which does not consist of its question mark alone. -/
def ofInstruction? (seen : List Char) : Option Token :=
  if 2 ≤ seen.length then some .skipped else none

/-- A finished declaration: the keyword in any case, and then a name. -/
def ofDeclaration (stop : Nat) (seen : List Char) : Except Fault Token :=
  let cs := seen.reverse
  if (cs.take 8).map Char.toUpper = ['!', 'D', 'O', 'C', 'T', 'Y', 'P', 'E'] then
    if (cs.drop 8).all isSpace then .error (.illFormed stop) else .ok .skipped
  else .error .unfinished

/-- The tokens of a text and the fault, if any, at which they end. -/
structure Cut where
  tokens : List (Placed Token)
  fault : Option Fault

def Cut.cons (token : Token) (start stop : Nat) (rest : Cut) : Cut :=
  { rest with tokens := ⟨token, start, stop⟩ :: rest.tokens }

def Cut.failed (fault : Fault) : Cut := ⟨[], some fault⟩

/-- Cuts a text from a mode on. The token at hand starts at `start`; the next character is at
`here`. -/
@[simp] def scan (start here : Nat) : Mode → List Char → Cut
  | .text [], [] => ⟨[], none⟩
  | .text seen, [] => ⟨[⟨.text seen.reverse, start, here⟩], none⟩
  | _, [] => .failed .unfinished
  | .text seen, c :: rest =>
    let next := here + c.utf8Size
    if c = '<' then
      if seen.isEmpty then scan here next .opened rest
      else .cons (.text seen.reverse) start here (scan here next .opened rest)
    else scan start next (.text (c :: seen)) rest
  | .opened, c :: rest =>
    let next := here + c.utf8Size
    if c = '!' then scan start next .marked rest
    else if c = '/' then scan start next (.closing [] none) rest
    else if c = '?' then scan start next (.instruction [c]) rest
    else if c = '>' then .cons (.tag [] false) start next (scan next next (.text []) rest)
    else scan start next (.tag [c] (nextMark none c)) rest
  | .marked, c :: rest =>
    let next := here + c.utf8Size
    if c = '[' then scan start next (.literal ['[', '!']) rest
    else if c = '-' then scan start next (.comment ['-', '!']) rest
    else if c = 'D' ∨ c = 'd' then scan start next (.declaration [c, '!'] 0) rest
    else .failed .unfinished
  | .tag seen mark, c :: rest =>
    let next := here + c.utf8Size
    if mark.isNone ∧ c = '>' then .cons (ofTag seen) start next (scan next next (.text []) rest)
    else scan start next (.tag (c :: seen) (nextMark mark c)) rest
  | .closing seen mark, c :: rest =>
    let next := here + c.utf8Size
    if mark.isNone ∧ c = '>' then .cons (ofClosing seen) start next (scan next next (.text []) rest)
    else scan start next (.closing (c :: seen) (nextMark mark c)) rest
  | .instruction seen, c :: rest =>
    let next := here + c.utf8Size
    if c = '>' ∧ seen.head? = some '?' then
      match ofInstruction? seen with
      | some token => .cons token start next (scan next next (.text []) rest)
      | none => .failed .unfinished
    else scan start next (.instruction (c :: seen)) rest
  | .comment seen, c :: rest =>
    let next := here + c.utf8Size
    if c = '>' ∧ endsComment seen then
      match ofComment? seen with
      | some token => .cons token start next (scan next next (.text []) rest)
      | none => .failed .unfinished
    else scan start next (.comment (c :: seen)) rest
  | .literal seen, c :: rest =>
    let next := here + c.utf8Size
    if c = '>' ∧ endsLiteral seen then
      match ofLiteral? seen with
      | some token => .cons token start next (scan next next (.text []) rest)
      | none => .failed .unfinished
    else scan start next (.literal (c :: seen)) rest
  | .declaration seen depth, c :: rest =>
    let next := here + c.utf8Size
    if c = '>' then
      match depth with
      | 0 =>
        match ofDeclaration next seen with
        | .ok token => .cons token start next (scan next next (.text []) rest)
        | .error fault => .failed fault
      | depth + 1 => scan start next (.declaration (c :: seen) depth) rest
    else scan start next (.declaration (c :: seen) (if c = '<' then depth + 1 else depth)) rest

def withoutMark : List Char → List Char
  | '\ufeff' :: rest => rest
  | cs => cs

/-- Cuts a text into tokens. A byte order mark at its front does not count. -/
def ofText (s : String) : Cut :=
  scan 0 0 (.text []) (withoutMark s.toList)

end Token

end LiveDoc.Markup
