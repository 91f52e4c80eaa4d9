import LiveDoc.Json.Basic

/-!
# JSON text

Compact text: no blanks, members in the order given, characters beyond ASCII as they are.
-/

set_option autoImplicit false
set_option relaxedAutoImplicit false

namespace LiveDoc.Json

def hexDigit (n : Nat) : Char :=
  Nat.digitChar n

/-- A character inside a quoted text: quote and backslash after a backslash, control characters by
their short names or by number. -/
def escapeChar (c : Char) : List Char :=
  if c = '"' then ['\\', '"']
  else if c = '\\' then ['\\', '\\']
  else if c = '\n' then ['\\', 'n']
  else if c = '\r' then ['\\', 'r']
  else if c = '\t' then ['\\', 't']
  else if c.toNat = 8 then ['\\', 'b']
  else if c.toNat = 12 then ['\\', 'f']
  else if c.toNat < 32 then
    ['\\', 'u', '0', '0', hexDigit (c.toNat / 16), hexDigit (c.toNat % 16)]
  else [c]

def quote (s : String) : String :=
  String.ofList ('"' :: s.toList.flatMap escapeChar ++ ['"'])

mutual

def text : Json → String
  | .null => "null"
  | .bool true => "true"
  | .bool false => "false"
  | .num n => n.text
  | .str s => quote s
  | .arr [] => "[]"
  | .arr (item :: rest) => "[" ++ item.text ++ textItems rest
  | .obj [] => "\x7b\x7d"
  | .obj ((name, value) :: rest) => "\x7b" ++ quote name ++ ":" ++ value.text ++ textMembers rest
termination_by structural j => j

/-- The items after the first, each behind a comma, and the end of the array. -/
def textItems : List Json → String
  | [] => "]"
  | item :: rest => "," ++ item.text ++ textItems rest
termination_by structural items => items

/-- The members after the first, each behind a comma, and the end of the object. -/
def textMembers : List (String × Json) → String
  | [] => "\x7d"
  | (name, value) :: rest => "," ++ quote name ++ ":" ++ value.text ++ textMembers rest
termination_by structural members => members

end

/-- Text as it is, any other value as JSON text. -/
def plainText : Json → String
  | .str s => s
  | other => other.text

end LiveDoc.Json
