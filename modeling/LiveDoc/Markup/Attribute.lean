import LiveDoc.Markup.Escape

/-!
# Attributes

Reading the attributes of a tag. A value stands in quotes of either kind, is escaped and is kept as
it is, line ends and all; no blank is needed between two attributes.
-/

set_option autoImplicit false
set_option relaxedAutoImplicit false

namespace LiveDoc.Markup

/-- The blanks of markup: space, tab, line feed, carriage return. -/
def isSpace (c : Char) : Bool :=
  c = ' ' || c = '\t' || c = '\n' || c = '\r'

namespace Attribute

inductive Flaw
  | form
  | reference
deriving DecidableEq, Repr

/-- Where the reader stands: before a name, in it, behind it, behind the sign, in the value. Names
and values are kept last character first. -/
inductive Mode
  | before
  | name (chars : List Char)
  | named (name : String)
  | signed (name : String)
  | value (name : String) (mark : Char) (chars : List Char)

def taken (name : String) (done : List (String × String)) : Bool :=
  done.any (·.1 = name)

/-- Reads attributes from a mode on, with those already read, last first. The first character of a
name may be any, later ones neither blank nor sign. -/
@[simp] def readFrom :
    Mode → List (String × String) → List Char → Except Flaw (List (String × String))
  | .before, done, [] => .ok done.reverse
  | _, _, [] => .error .form
  | .before, done, c :: rest =>
    if isSpace c then readFrom .before done rest else readFrom (.name [c]) done rest
  | .name chars, done, c :: rest =>
    let name := String.ofList chars.reverse
    if c = '=' then
      if taken name done then .error .form else readFrom (.signed name) done rest
    else if isSpace c then readFrom (.named name) done rest
    else readFrom (.name (c :: chars)) done rest
  | .named name, done, c :: rest =>
    if isSpace c then readFrom (.named name) done rest
    else if c = '=' then
      if taken name done then .error .form else readFrom (.signed name) done rest
    else .error .form
  | .signed name, done, c :: rest =>
    if isSpace c then readFrom (.signed name) done rest
    else if c = '"' ∨ c = '\'' then readFrom (.value name c []) done rest
    else .error .form
  | .value name mark chars, done, c :: rest =>
    if c = mark then
      match unescapeChars? chars.reverse with
      | some plain => readFrom .before ((name, String.ofList plain) :: done) rest
      | none => .error .reference
    else readFrom (.value name mark (c :: chars)) done rest

/-- The attributes written in a tag behind its name, in their order. -/
def read (cs : List Char) : Except Flaw (List (String × String)) :=
  readFrom .before [] cs

end Attribute

end LiveDoc.Markup
