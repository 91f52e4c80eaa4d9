/-!
# Faults of markup

Why a text is not the markup of a single element. Places are counted in bytes.
-/

set_option autoImplicit false
set_option relaxedAutoImplicit false

namespace LiveDoc.Markup

/-- What keeps a text from being a single element. -/
inductive Fault
  /-- A tag, comment, section or declaration is not finished, or is of no known form. -/
  | unfinished
  /-- A closing tag does not name the innermost open element, or a declaration has no name. -/
  | illFormed (position : Nat)
  /-- An attribute of a tag is badly written or given twice. -/
  | badAttribute (position : Nat)
  /-- A reference in text or in an attribute value cannot be read. -/
  | badReference (position : Nat)
  | textOutsideRoot (position : Nat)
  | sectionOutsideRoot (position : Nat)
  | secondRoot (position : Nat)
  | unclosed (name : String) (position : Nat)
  | noRoot
deriving DecidableEq, Repr

namespace Fault

def position? : Fault → Option Nat
  | .unfinished => none
  | .illFormed position | .badAttribute position | .badReference position
  | .textOutsideRoot position | .sectionOutsideRoot position | .secondRoot position
  | .unclosed _ position => some position
  | .noRoot => some 0

def wording? : Fault → Option String
  | .textOutsideRoot _ => some "text outside of the root element"
  | .sectionOutsideRoot _ => some "CDATA outside of the root element"
  | .secondRoot _ => some "multiple root elements"
  | .unclosed name _ => some ("unclosed element <" ++ name ++ ">")
  | .noRoot => some "document has no root element"
  | .unfinished | .illFormed _ | .badAttribute _ | .badReference _ => none

end Fault

end LiveDoc.Markup
