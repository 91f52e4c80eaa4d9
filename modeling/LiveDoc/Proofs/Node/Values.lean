import LiveDoc.Proofs.Inline.Values
import LiveDoc.Proofs.Node.Canonical

/-!
# Values of variables in nodes

Nodes with other values in the variables of their content and instructions. Nothing else of a node
depends on the values, so it is written alike if the texts of the values stay.
-/

set_option autoImplicit false
set_option relaxedAutoImplicit false

namespace LiveDoc

open Markup (Layout)

def Block.mapValues (f : String → Option Json → Option Json) (b : Block) : Block :=
  { b with content := Inline.mapValuesAll f b.content }

def Call.mapValues (f : String → Option Json → Option Json) (c : Call) : Call :=
  { c with instructions := Inline.mapValuesAll f c.instructions }

mutual

/-- A node with other values in the variables in it and below it. -/
def Node.mapValues (f : String → Option Json → Option Json) : Node → Node
  | .block head none => .block (head.mapValues f) none
  | .block head (some children) => .block (head.mapValues f) (some (Forest.mapValues f children))
  | .call c => .call (c.mapValues f)
termination_by structural n => n

def Forest.mapValues (f : String → Option Json → Option Json) : List Node → List Node
  | [] => []
  | n :: rest => n.mapValues f :: Forest.mapValues f rest
termination_by structural ns => ns

end

variable {f f' : String → Option Json → Option Json}

section Node

variable (n : Node)

@[simp] theorem Node.id_mapValues : (n.mapValues f).id = n.id := by
  match n with
  | .block _ none => rfl
  | .block _ (some _) => rfl
  | .call _ => rfl

@[simp] theorem Node.children?_mapValues :
    (n.mapValues f).children? = n.children?.map (Forest.mapValues f) := by
  match n with
  | .block _ none => rfl
  | .block _ (some _) => rfl
  | .call _ => rfl

@[simp] theorem Node.element_mapValues : (n.mapValues f).element = n.element := by
  match n with
  | .block _ none => rfl
  | .block _ (some _) => rfl
  | .call _ => rfl

@[simp] theorem Node.content_mapValues :
    (n.mapValues f).content = Inline.mapValuesAll f n.content := by
  match n with
  | .block _ none => rfl
  | .block _ (some _) => rfl
  | .call _ => rfl

end Node

namespace Forest

theorem withValues_eq (values : Table Json) (ns : Forest) :
    withValues values ns = mapValues (Inline.given values) ns := by
  induction ns using Forest.induct with
  | nil => rfl
  | leaf head rest ih =>
    rw [withValues, Node.withValues, Inline.withValuesAll_eq, ih]
    rfl
  | inner head children rest ihc ih =>
    rw [withValues, Node.withValues, Inline.withValuesAll_eq, ihc, ih]
    rfl
  | call c rest ih =>
    rw [withValues, Node.withValues, Inline.withValuesAll_eq, ih]
    rfl

theorem mapValues_mapValues (ns : Forest) :
    mapValues f' (mapValues f ns) = mapValues (fun name own => f' name (f name own)) ns := by
  induction ns using Forest.induct with
  | nil => rfl
  | leaf head rest ih =>
    simp [mapValues, Node.mapValues, Block.mapValues, Inline.mapValuesAll_mapValuesAll, ih]
  | inner head children rest ihc ih =>
    simp [mapValues, Node.mapValues, Block.mapValues, Inline.mapValuesAll_mapValuesAll, ihc, ih]
  | call c rest ih =>
    simp [mapValues, Node.mapValues, Call.mapValues, Inline.mapValuesAll_mapValuesAll, ih]

theorem preorder_mapValues (ns : Forest) :
    preorder (mapValues f ns) = (preorder ns).map (Node.mapValues f) := by
  induction ns using induct_cons with
  | nil => rfl
  | cons n rest ihc ih =>
    have hchildren : (n.mapValues f).children?.getD [] = mapValues f (n.children?.getD []) := by
      rw [Node.children?_mapValues]
      cases n.children? <;> rfl
    rw [mapValues, preorder_cons, preorder_cons, hchildren, ihc, ih, List.map_append,
      List.map_cons]

theorem isEmpty_mapValues (ns : Forest) : (mapValues f ns).isEmpty = ns.isEmpty := by
  cases ns <;> rfl

theorem mapValues_ne_nil {ns : Forest} (h : ns ≠ []) : mapValues f ns ≠ [] := by
  cases ns with
  | nil => exact absurd rfl h
  | cons n rest => simp [mapValues]

end Forest

section Written

variable (hf : ∀ name own, (f name own).map Json.plainText = own.map Json.plainText)

private theorem Block.model_mapValues (b : Block) : (b.mapValues f).model = b.model := rfl

private theorem Block.childLayout_mapValues (b : Block) (l : Layout) :
    (b.mapValues f).childLayout l = b.childLayout l := by
  unfold Block.childLayout
  rw [b.model_mapValues]

private theorem Block.plainText_mapValues (b : Block) :
    (b.mapValues f).plainText = b.plainText := by
  rw [plainText, plainText, mapValues]
  induction b.content with
  | nil => rfl
  | cons item rest ih =>
    rw [Inline.mapValuesAll, List.map_cons, List.map_cons, String.join_cons, String.join_cons, ih]
    cases item <;> rfl

include hf in
private theorem Block.print_mapValues (b : Block) (l : Layout) (childless : Bool)
    (children : String) :
    (b.mapValues f).print l childless children = b.print l childless children := by
  have helement : (b.mapValues f).element = b.element := rfl
  have hattrs : (b.mapValues f).attrs = b.attrs := rfl
  have hcontent : Inline.printAll (b.mapValues f).content = Inline.printAll b.content :=
    Inline.print_mapValuesAll hf b.content
  have hempty : (b.mapValues f).content.isEmpty = b.content.isEmpty :=
    Inline.isEmpty_mapValuesAll b.content
  rw [print, print, helement, hattrs, b.model_mapValues, hcontent, hempty, b.plainText_mapValues]

include hf in
private theorem Call.print_mapValues (c : Call) (l : Layout) :
    (c.mapValues f).print l = c.print l := by
  have hinstructions : Inline.printAll (c.mapValues f).instructions =
      Inline.printAll c.instructions := Inline.print_mapValuesAll hf c.instructions
  have hempty : (c.mapValues f).instructions.isEmpty = c.instructions.isEmpty :=
    Inline.isEmpty_mapValuesAll c.instructions
  rw [print, print, hinstructions, hempty]
  rfl

include hf in
theorem Forest.print_mapValues (l : Layout) (ns : Forest) :
    Forest.print l (Forest.mapValues f ns) = Forest.print l ns := by
  induction ns using Forest.induct generalizing l with
  | nil => rfl
  | leaf head rest ih =>
    rw [mapValues, Node.mapValues, print, print, Node.print, Node.print, ih,
      Block.print_mapValues hf]
  | inner head children rest ihc ih =>
    rw [mapValues, Node.mapValues, print, print, Node.print, Node.print, ih,
      Block.print_mapValues hf, isEmpty_mapValues, head.childLayout_mapValues, ihc]
  | call c rest ih =>
    rw [mapValues, Node.mapValues, print, print, Node.print, Node.print, ih,
      Call.print_mapValues hf]

end Written

section Canonical

variable {g : Grammar}

private theorem Block.Canonical.mapValues {b : Block} (h : b.Canonical g) :
    (b.mapValues f).Canonical g :=
  ⟨h.kind, h.type, h.model, h.writable, h.checked, h.props⟩

private theorem mapValuesAll_plainContent (chars : String) :
    Inline.mapValuesAll f (Reading.plainContent chars) = Reading.plainContent chars := by
  rw [Reading.plainContent]
  split <;> rfl

mutual

private theorem Node.Canonical.mapValues (hg : g.Printable)
    (hf : ∀ name own, ∀ j ∈ f name own, ∃ s, j = .str s) : ∀ {n : Node}, n.Canonical g →
    (n.mapValues f).Canonical g
  | _, .call inside => .call ⟨inside.kind, inside.writable, inside.checked, inside.extra,
      inside.parameters, inside.instructions.mapValuesAll hg hf⟩
  | _, .rich head model content => .rich head.mapValues model (content.mapValuesAll hg hf)
  | _, .mixed head model content ne inside =>
    .mixed head.mapValues model (content.mapValuesAll hg hf)
      (Forest.mapValues_ne_nil ne) (inside.mapValues hg hf)
  | _, @Node.Canonical.text _ b chars head model content =>
    .text head.mapValues model (by rw [Block.mapValues, content, mapValuesAll_plainContent])
  | _, .container head model rule content inside =>
    .container head.mapValues model rule (by rw [Block.mapValues, content]; rfl)
      (inside.mapValues hg hf)
  | _, .empty head model rule content =>
    .empty head.mapValues model rule (by rw [Block.mapValues, content]; rfl)

theorem Forest.Canonical.mapValues (hg : g.Printable)
    (hf : ∀ name own, ∀ j ∈ f name own, ∃ s, j = .str s) : ∀ {type : String} {ns : Forest},
    Forest.Canonical g type ns → Forest.Canonical g type (Forest.mapValues f ns)
  | _, _, .nil => .nil
  | _, _, .cons first fits after =>
    .cons (first.mapValues hg hf) (by rwa [Node.element_mapValues]) (after.mapValues hg hf)

end

end Canonical

end LiveDoc
