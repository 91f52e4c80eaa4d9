import LiveDoc.Markup.Escape

/-!
# Layout of markup

Where lines begin and end in written markup, and the writing of attributes and of sections of
unescaped text.
-/

set_option autoImplicit false
set_option relaxedAutoImplicit false

namespace LiveDoc.Markup

/-- How lines are laid out: what one level is indented by, how many levels there are, and whether
all is kept on one line because blanks would count. -/
structure Layout where
  indent : String := "  "
  level : Nat := 0
  compact : Bool := false
deriving DecidableEq, Repr

namespace Layout

def margin (l : Layout) : String :=
  if l.compact then "" else String.join (List.replicate l.level l.indent)

def lineEnd (l : Layout) : String :=
  if l.compact then "" else "\n"

def deeper (l : Layout) : Layout := { l with level := l.level + 1 }

def onOneLine (l : Layout) : Layout := { l with compact := true }

end Layout

/-- A written attribute, with the blank in front of it. -/
def attr (name value : String) : String :=
  " " ++ name ++ "=\"" ++ escape value ++ "\""

def attr? (name : String) : Option String → String
  | some value => attr name value
  | none => ""

def closingTag (name : String) : String := "</" ++ name ++ ">"

/-- Characters of a section with every end of a section among them cut in two by ending the section
and beginning another. -/
def splitEnds : List Char → List Char
  | ']' :: ']' :: '>' :: rest => "]]]]><![CDATA[>".toList ++ splitEnds rest
  | c :: rest => c :: splitEnds rest
  | [] => []

/-- Unescaped text in as many sections as it needs. -/
def sections (chars : String) : String :=
  "<![CDATA[" ++ String.ofList (splitEnds chars.toList) ++ "]]>"

end LiveDoc.Markup
