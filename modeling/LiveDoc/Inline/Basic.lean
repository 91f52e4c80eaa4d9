import LiveDoc.Inline.Style
import LiveDoc.Json.Basic

/-!
# Inline content

Styled text, variables, mentions, and the two containers of further content, links and annotations.
-/

set_option autoImplicit false
set_option relaxedAutoImplicit false

namespace LiveDoc

inductive Inline where
  | text (chars : String) (styles : List String)
  | var (name : String) (prompt : Option String) (value : Option Json)
  | mention (kind id label : String)
  | link (href : String) (content : List Inline)
  | note (title comment : Option String) (content : List Inline)

namespace Inline

mutual

def decEq : (a b : Inline) → Decidable (a = b)
  | .text s x, b =>
    match b with
    | .text t y => decidable_of_iff (s = t ∧ x = y) (by simp)
    | .var .. | .mention .. | .link .. | .note .. => isFalse nofun
  | .var n p v, b =>
    match b with
    | .var m q w => decidable_of_iff (n = m ∧ p = q ∧ v = w) (by simp)
    | .text .. | .mention .. | .link .. | .note .. => isFalse nofun
  | .mention k i l, b =>
    match b with
    | .mention k' i' l' => decidable_of_iff (k = k' ∧ i = i' ∧ l = l') (by simp)
    | .text .. | .var .. | .link .. | .note .. => isFalse nofun
  | .link h xs, b =>
    match b with
    | .link h' ys =>
      have := decEqAll xs ys
      decidable_of_iff (h = h' ∧ xs = ys) (by simp)
    | .text .. | .var .. | .mention .. | .note .. => isFalse nofun
  | .note t c xs, b =>
    match b with
    | .note t' c' ys =>
      have := decEqAll xs ys
      decidable_of_iff (t = t' ∧ c = c' ∧ xs = ys) (by simp)
    | .text .. | .var .. | .mention .. | .link .. => isFalse nofun
termination_by structural a => a

def decEqAll : (xs ys : List Inline) → Decidable (xs = ys)
  | [], [] => isTrue rfl
  | [], _ :: _ => isFalse nofun
  | _ :: _, [] => isFalse nofun
  | x :: xs, y :: ys =>
    have := x.decEq y
    have := decEqAll xs ys
    decidable_of_iff (x = y ∧ xs = ys) (by simp)
termination_by structural xs => xs

end

instance : DecidableEq Inline := decEq

def plain (chars : String) : Inline := .text chars []

def styled (chars : String) (styles : List String) : Inline := .text chars (Style.canonical styles)

def isText : Inline → Bool
  | .text .. => true
  | _ => false

def isVar : Inline → Bool
  | .var .. => true
  | _ => false

def nested? : Inline → Option (List Inline)
  | .link _ content | .note _ _ content => some content
  | .text .. | .var .. | .mention .. => none

mutual

/-- A piece and all content nested in it, containers before what they contain. -/
def pieces : Inline → List Inline
  | .text chars styles => [.text chars styles]
  | .var name prompt value => [.var name prompt value]
  | .mention kind id label => [.mention kind id label]
  | .link href content => .link href content :: piecesOf content
  | .note title comment content =>
    .note title comment content :: piecesOf content
termination_by structural i => i

def piecesOf : List Inline → List Inline
  | [] => []
  | item :: rest => item.pieces ++ piecesOf rest
termination_by structural items => items

end

theorem pieces_eq (item : Inline) : item.pieces = item :: piecesOf (item.nested?.getD []) := by
  cases item <;> simp [pieces, nested?, piecesOf]

theorem piecesOf_append (first second : List Inline) :
    piecesOf (first ++ second) = piecesOf first ++ piecesOf second := by
  induction first with
  | nil => simp [piecesOf]
  | cons item rest ih => simp [piecesOf, ih]

/-- The pieces reached by taking the first one that waits and letting its content wait before the
others. -/
def walk : List Inline → List Inline
  | [] => []
  | item :: waiting => item :: walk (item.nested?.getD [] ++ waiting)
termination_by items => (piecesOf items).length
decreasing_by
  rw [piecesOf, piecesOf_append, pieces_eq item, List.cons_append, List.length_cons]
  exact Nat.lt_succ_self _

/-- Puts a piece in front of content: empty text vanishes, and text joins text of the same
styles. -/
def glue : Inline → List Inline → List Inline
  | .text chars styles, rest =>
    if chars.isEmpty then rest
    else
      match rest with
      | .text more styles' :: after =>
        if styles = styles' then .text (chars ++ more) styles :: after
        else .text chars styles :: rest
      | _ => .text chars styles :: rest
  | item, rest => item :: rest

/-- Puts content in front of content, joining the text where they meet. -/
def glueAll (items rest : List Inline) : List Inline :=
  items.foldr glue rest

end Inline

end LiveDoc
