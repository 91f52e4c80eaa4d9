import LiveDoc.Text.Digits

/-!
# Escaped text

Writing the five characters that markup gives a meaning as named references, and reading named and
numbered references back.
-/

set_option autoImplicit false
set_option relaxedAutoImplicit false

namespace LiveDoc.Markup

def escapeChar (c : Char) : List Char :=
  if c = '<' then ['&', 'l', 't', ';']
  else if c = '>' then ['&', 'g', 't', ';']
  else if c = '&' then ['&', 'a', 'm', 'p', ';']
  else if c = '\'' then ['&', 'a', 'p', 'o', 's', ';']
  else if c = '"' then ['&', 'q', 'u', 'o', 't', ';']
  else [c]

def escapeChars (cs : List Char) : List Char :=
  cs.flatMap escapeChar

def escape (s : String) : String :=
  String.ofList (escapeChars s.toList)

/-- The character with a code point written in digits, which is not zero. -/
def numbered? (base : Nat) (digits : List Char) : Option Char :=
  (Text.codePoint? base digits).filter fun c => c.toNat ≠ 0

/-- The character of a reference, by what stands between `&` and `;`. -/
def reference? : List Char → Option Char
  | '#' :: 'x' :: digits => numbered? 16 digits
  | '#' :: digits => numbered? 10 digits
  | name =>
    if name = ['l', 't'] then some '<'
    else if name = ['g', 't'] then some '>'
    else if name = ['a', 'm', 'p'] then some '&'
    else if name = ['a', 'p', 'o', 's'] then some '\''
    else if name = ['q', 'u', 'o', 't'] then some '"'
    else none

/-- Reads escaped text. Inside a reference, what has been read of it is kept last first. -/
def unescapeFrom? : Option (List Char) → List Char → Option (List Char)
  | none, [] => some []
  | some _, [] => none
  | none, c :: rest =>
    if c = '&' then unescapeFrom? (some []) rest
    else (unescapeFrom? none rest).map (c :: ·)
  | some name, c :: rest =>
    if c = ';' then do
      let meant ← reference? name.reverse
      let after ← unescapeFrom? none rest
      some (meant :: after)
    else if c = '&' then none
    else unescapeFrom? (some (c :: name)) rest

/-- The characters that escaped text stands for; none if a reference is not closed or not known. -/
def unescapeChars? (cs : List Char) : Option (List Char) :=
  unescapeFrom? none cs

end LiveDoc.Markup
