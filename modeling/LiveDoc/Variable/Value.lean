import LiveDoc.Json.Printer
import LiveDoc.Node.Basic

/-!
# Values of variables

Putting values into the variables of a forest, and content as plain text with values in the places
of variables.
-/

set_option autoImplicit false
set_option relaxedAutoImplicit false

namespace LiveDoc

namespace Inline

mutual

/-- A piece with values put into its variables. -/
def withValues (values : Table Json) : Inline → Inline
  | .text chars styles => .text chars styles
  | .var name prompt value => .var name prompt ((values.get? name).or value)
  | .mention kind ident label => .mention kind ident label
  | .link href content => .link href (withValuesAll values content)
  | .note title comment content => .note title comment (withValuesAll values content)
termination_by structural i => i

def withValuesAll (values : Table Json) : List Inline → List Inline
  | [] => []
  | item :: rest => item.withValues values :: withValuesAll values rest
termination_by structural items => items

end

/-- What stands in the place of a variable without a value. -/
def placeholder (name : String) : String := "\x7b\x7b" ++ name ++ "\x7d\x7d"

mutual

/-- A piece as plain text, with the given text for each variable. Mentions stand behind an at
sign. -/
def plainWith (shown : String → Option Json → String) : Inline → String
  | .text chars _ => chars
  | .var name _ value => shown name value
  | .mention _ _ label => "@" ++ label
  | .link _ content => plainWithAll shown content
  | .note _ _ content => plainWithAll shown content
termination_by structural i => i

def plainWithAll (shown : String → Option Json → String) : List Inline → String
  | [] => ""
  | item :: rest => item.plainWith shown ++ plainWithAll shown rest
termination_by structural items => items

end

/-- The text of a value, or the placeholder of a variable that has none. -/
def valueText (name : String) : Option Json → String
  | some value => value.plainText
  | none => placeholder name

/-- Content as plain text with values for variables: a value from the table, else the one that the
variable has itself, else its placeholder. -/
def interpolate (values : Table Json) (content : List Inline) : String :=
  plainWithAll (fun name own => valueText name ((values.get? name).or own)) content

/-- Content as plain text with a placeholder for every variable. -/
def plainText (content : List Inline) : String :=
  plainWithAll (fun name _ => placeholder name) content

end Inline

mutual

def Node.withValues (values : Table Json) : Node → Node
  | .block head none =>
    .block { head with content := Inline.withValuesAll values head.content } none
  | .block head (some children) =>
    .block { head with content := Inline.withValuesAll values head.content }
      (some (Forest.withValues values children))
  | .call c => .call { c with instructions := Inline.withValuesAll values c.instructions }
termination_by structural n => n

def Forest.withValues (values : Table Json) : List Node → List Node
  | [] => []
  | n :: rest => n.withValues values :: Forest.withValues values rest
termination_by structural ns => ns

end

end LiveDoc
