import LiveDoc.Json.Basic
import LiveDoc.Text.Digits

/-!
# Tokens of JSON text

Cutting a text into the tokens of JSON. The scanner takes one character at a time and keeps what it
has of the token at hand in its mode. A numeral that is too large and a quoted text with half of a
surrogate pair are well formed but mean nothing.
-/

set_option autoImplicit false
set_option relaxedAutoImplicit false

namespace LiveDoc.Json

/-- A bracket, a separator, a quoted text or another value without parts. -/
inductive Token
  | openArray | closeArray | openObject | closeObject | comma | colon
  | text (chars : Option String)
  | scalar (value : Option Json)

namespace Token

/-- Where the scanner stands: between tokens, in a word or a numeral, or in a quoted text. What it
has is kept last first, a quoted text as its code points and unpaired surrogates. -/
inductive Mode
  | between
  | word (letters : List Char)
  | numeral (chars : List Char)
  | quoted (codes : List Nat)
  | escaped (codes : List Nat)
  | code (codes : List Nat) (digits : List Char)

def isSpace (c : Char) : Bool :=
  c = ' ' || c = '\t' || c = '\n' || c = '\r'

def isNumeral (c : Char) : Bool :=
  c.isDigit || c = '+' || c = '-' || c = '.' || c = 'e' || c = 'E'

def ofWord? (letters : List Char) : Option Token :=
  if letters = ['n', 'u', 'l', 'l'] then some (.scalar (some .null))
  else if letters = ['t', 'r', 'u', 'e'] then some (.scalar (some (.bool true)))
  else if letters = ['f', 'a', 'l', 's', 'e'] then some (.scalar (some (.bool false)))
  else none

def ofNumeral? (chars : List Char) : Option Token :=
  (Number.Numeral.ofChars? chars).map fun n => .scalar (n.value?.map .num)

def isSurrogate (code : Nat) : Bool :=
  0xD800 ≤ code && code < 0xE000

/-- Puts a code behind others, a low surrogate together with the high one that it follows. -/
def pushCode (code : Nat) : List Nat → List Nat
  | high :: codes =>
    if 0xD800 ≤ high ∧ high < 0xDC00 ∧ 0xDC00 ≤ code ∧ code < 0xE000 then
      (0x10000 + (high - 0xD800) * 0x400 + (code - 0xDC00)) :: codes
    else code :: high :: codes
  | [] => [code]

/-- The token of a quoted text, of which no surrogate may be left. -/
def ofCodes (codes : List Nat) : Token :=
  .text (if codes.any isSurrogate then none
    else some (String.ofList (codes.reverse.map Char.ofNat)))

def ofMark? (c : Char) : Option Token :=
  if c = '[' then some .openArray
  else if c = ']' then some .closeArray
  else if c = '\x7b' then some .openObject
  else if c = '\x7d' then some .closeObject
  else if c = ',' then some .comma
  else if c = ':' then some .colon
  else none

def ofEscape? (c : Char) : Option Char :=
  if c = '"' ∨ c = '\\' ∨ c = '/' then some c
  else if c = 'b' then some (Char.ofNat 8)
  else if c = 'f' then some (Char.ofNat 12)
  else if c = 'n' then some '\n'
  else if c = 'r' then some '\r'
  else if c = 't' then some '\t'
  else none

/-- One character outside of words, numerals and quoted texts: a token it makes, and the next
mode. -/
def start? (c : Char) : Option (Option Token × Mode) :=
  if isSpace c then some (none, .between)
  else if c = '"' then some (none, .quoted [])
  else if c.isLower then some (none, .word [c])
  else if c = '-' ∨ c.isDigit then some (none, .numeral [c])
  else (ofMark? c).map fun token => (some token, .between)

/-- The tokens of a text, from a mode on; none if the text is not made of tokens. -/
@[simp] def scan : Mode → List Char → Option (List Token)
  | .between, [] => some []
  | .word letters, [] => (ofWord? letters.reverse).map fun token => [token]
  | .numeral chars, [] => (ofNumeral? chars.reverse).map fun token => [token]
  | _, [] => none
  | .between, c :: rest => do
    let (token, mode) ← start? c
    let tokens ← scan mode rest
    some (token.toList ++ tokens)
  | .word letters, c :: rest =>
    if c.isAlpha then scan (.word (c :: letters)) rest
    else do
      let word ← ofWord? letters.reverse
      let (token, mode) ← start? c
      let tokens ← scan mode rest
      some (word :: (token.toList ++ tokens))
  | .numeral chars, c :: rest =>
    if isNumeral c then scan (.numeral (c :: chars)) rest
    else do
      let numeral ← ofNumeral? chars.reverse
      let (token, mode) ← start? c
      let tokens ← scan mode rest
      some (numeral :: (token.toList ++ tokens))
  | .quoted codes, c :: rest =>
    if c = '"' then (scan .between rest).map (ofCodes codes :: ·)
    else if c = '\\' then scan (.escaped codes) rest
    else if c.toNat < 32 then none
    else scan (.quoted (c.toNat :: codes)) rest
  | .escaped codes, c :: rest =>
    if c = 'u' then scan (.code codes []) rest
    else do
      let plain ← ofEscape? c
      scan (.quoted (plain.toNat :: codes)) rest
  | .code codes digits, c :: rest =>
    if digits.length < 3 then scan (.code codes (c :: digits)) rest
    else do
      let code ← Text.number? 16 (c :: digits).reverse
      scan (.quoted (pushCode code codes)) rest

def ofText? (s : String) : Option (List Token) :=
  scan .between s.toList

end Token

end LiveDoc.Json
