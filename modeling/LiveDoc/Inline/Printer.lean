import LiveDoc.Inline.Basic
import LiveDoc.Json.Printer
import LiveDoc.Markup.Layout

/-!
# Writing inline content

Inline content as markup on one line. Styled text becomes a span with its styles in canonical order.
-/

set_option autoImplicit false
set_option relaxedAutoImplicit false

namespace LiveDoc.Inline

open Markup (attr attr? escape)

mutual

def print : Inline → String
  | .text chars styles =>
    if styles.isEmpty then escape chars
    else
      "<span" ++ attr "styles" (String.intercalate " " (Style.canonical styles)) ++ ">" ++
        escape chars ++ "</span>"
  | .var name prompt value =>
    "<variable" ++ attr "name" name ++ attr? "prompt" prompt ++
      attr? "value" (value.map Json.plainText) ++ "/>"
  | .mention kind ident label =>
    "<mention" ++ attr "id" ident ++ attr "type" kind ++ attr "label" label ++ "/>"
  | .link href content =>
    "<link" ++ attr "href" href ++ ">" ++ printAll content ++ "</link>"
  | .note title comment content =>
    "<annotation" ++ attr? "title" title ++ attr? "comment" comment ++ ">" ++ printAll content ++
      "</annotation>"
termination_by structural i => i

def printAll : List Inline → String
  | [] => ""
  | item :: rest => item.print ++ printAll rest
termination_by structural items => items

end

end LiveDoc.Inline
