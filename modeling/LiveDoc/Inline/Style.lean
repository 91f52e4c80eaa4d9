/-!
# Styles

Lists of styles in canonical form: the known styles in a fixed order, then the others by name, each
once. Two lists have one canonical form exactly if they hold the same styles.
-/

set_option autoImplicit false
set_option relaxedAutoImplicit false

namespace LiveDoc.Style

def known : List String := ["bold", "italic", "underline", "strikethrough", "code"]

/-- The place of a style among the known ones; all others share the place after them. -/
def rank (style : String) : Nat :=
  known.idxOf style

def before (a b : String) : Bool :=
  rank a < rank b || (rank a = rank b && a < b)

def insert (style : String) : List String → List String
  | [] => [style]
  | other :: rest =>
    if style = other then other :: rest
    else if before style other then style :: other :: rest
    else other :: insert style rest

/-- The canonical form of a list of styles. -/
def canonical (styles : List String) : List String :=
  styles.foldr insert []

end LiveDoc.Style
