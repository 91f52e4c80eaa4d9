import LiveDoc.Proofs.Inline.Canonical

/-!
# Leaves of inline content

Inline content as the sequence of its single characters, each with the styles on it, and of
variables, mentions and containers between them. How the characters are gathered into pieces of text
does not show in it; content in normal form is the one way to gather them.
-/

set_option autoImplicit false
set_option relaxedAutoImplicit false

namespace LiveDoc

inductive Leaf where
  | char (c : Char) (styles : List String)
  | var (name : String) (prompt : Option String) (value : Option Json)
  | mention (kind id label : String)
  | link (href : String) (inside : List Leaf)
  | note (title comment : Option String) (inside : List Leaf)

def Leaf.chars (chars : String) (styles : List String) : List Leaf :=
  chars.toList.map (.char · styles)

def Style.listed (styles : List String) : List String :=
  known.filter (· ∈ styles)

namespace Inline

mutual

def leaves : Inline → List Leaf
  | .text chars styles => Leaf.chars chars styles
  | .var name prompt value => [.var name prompt value]
  | .mention kind ident label => [.mention kind ident label]
  | .link href content => [.link href (leavesOf content)]
  | .note title comment content => [.note title comment (leavesOf content)]
termination_by structural i => i

def leavesOf : List Inline → List Leaf
  | [] => []
  | item :: rest => item.leaves ++ leavesOf rest
termination_by structural items => items

end

mutual

/-- In a piece no text is empty, and all styles are known, in their order and there once. -/
def Normal : Inline → Prop
  | .text chars styles => chars ≠ "" ∧ styles.Sublist Style.known
  | .var .. => True
  | .mention .. => True
  | .link _ content => NormalAll content
  | .note _ _ content => NormalAll content
termination_by structural i => i

/-- All pieces of some content are normal, and no text stands beside text of the same styles. -/
def NormalAll : List Inline → Prop
  | [] => True
  | item :: rest => item.Normal ∧ joins item rest = false ∧ NormalAll rest
termination_by structural items => items

end

mutual

theorem Canonical.normal {g : Grammar} : ∀ {item : Inline}, item.Canonical g → item.Normal
  | _, .text ne known => ⟨ne, known⟩
  | _, .var .. => trivial
  | _, .mention _ => trivial
  | _, .link _ inside => inside.normal
  | _, .note _ inside => inside.normal

theorem CanonicalAll.normal {g : Grammar} :
    ∀ {content : List Inline}, CanonicalAll g content → NormalAll content
  | _, .nil => trivial
  | _, .cons first apart after => ⟨first.normal, apart, after.normal⟩

end

section Leaves

variable {chars : String} {styles : List String} {item : Inline} {rest found : List Inline}

theorem leavesOf_glue : leavesOf (glue item rest) = item.leaves ++ leavesOf rest := by
  cases item with
  | text chars styles =>
    by_cases hchars : chars = ""
    · simp [glue, leaves, Leaf.chars, hchars]
    · cases rest with
      | nil => simp [glue, hchars, leavesOf]
      | cons next after =>
        cases next with
        | text more others =>
          by_cases hsame : styles = others
          · simp [glue, hchars, hsame, leavesOf, leaves, Leaf.chars]
          · simp [glue, hchars, hsame, leavesOf]
        | _ => simp [glue, hchars, leavesOf]
  | _ => rfl

theorem leavesOf_glueAll : leavesOf (glueAll found rest) = leavesOf found ++ leavesOf rest := by
  induction found with
  | nil => rfl
  | cons item after ih =>
    have hcons : glueAll (item :: after) rest = glue item (glueAll after rest) := rfl
    rw [hcons, leavesOf_glue, ih, leavesOf, List.append_assoc]

end Leaves

end Inline

namespace Style

variable {styles more : List String}

theorem canonical_eq_listed (h : ∀ style ∈ styles, style ∈ known) :
    canonical styles = listed styles :=
  canonical_eq_filter h

theorem canonical_listed_append (h : ∀ style ∈ styles, style ∈ known)
    (hmore : ∀ style ∈ more, style ∈ known) :
    canonical (listed styles ++ more) = listed (styles ++ more) := by
  have hall : ∀ style ∈ styles ++ more, style ∈ known := List.forall_mem_append.2 ⟨h, hmore⟩
  rw [← canonical_eq_listed h, canonical_append, canonical_eq_listed hall]

end Style

end LiveDoc
