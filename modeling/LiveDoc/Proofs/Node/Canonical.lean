import LiveDoc.Proofs.Json.Reading
import LiveDoc.Proofs.Node.Reread

/-!
# Canonical nodes

Nodes in the form in which they are read: their attributes are in order and hold all there is to
know besides content and children, which are as the model of the element has them. What such nodes
are written as is read as these nodes, and takes no new ids.
-/

set_option autoImplicit false
set_option relaxedAutoImplicit false

namespace LiveDoc

open Markup (Element Item Layout Writable)

/-- A block of which the written attributes are in order and are read as its props. -/
structure Block.Canonical (g : Grammar) (b : Block) : Prop where
  kind : (g.spec? b.element).map ElementSpec.kind = some .block
  type : g.type? b.element = some b.kind
  model : g.model? b.element = some b.model
  writable : Writable b.element b.attributes
  checked : g.checkAttributes b.element b.attributes = []
  props : Reading.blockProps b.element b.kind b.attributes = b.props

/-- A call of which the written attributes are in order and are read as what it is, and of which
parameters and instructions are as they are read. -/
structure Call.Canonical (g : Grammar) (c : Call) : Prop where
  kind : (g.spec? c.kind.element).map ElementSpec.kind = some .executable
  writable : Writable c.kind.element c.attributes
  checked : g.checkAttributes c.kind.element c.attributes = []
  extra : Reading.textTable ["id", "enabled", c.kind.functionAttr] c.attributes = c.extra
  parameters : c.parameters = [] ∨ (Json.obj c.parameters).Readable
  instructions : Inline.CanonicalAll g c.instructions

mutual

/-- A node in the form in which it is read, by the model of its element. -/
inductive Node.Canonical (g : Grammar) : Node → Prop
  | call {c : Call} (inside : c.Canonical g) : Node.Canonical g (.call c)
  | rich {b : Block} (head : b.Canonical g) (model : b.model = .rich)
    (content : Inline.CanonicalAll g b.content) : Node.Canonical g (.block b none)
  | mixed {b : Block} {children : Forest} (head : b.Canonical g) (model : b.model = .rich)
    (content : Inline.CanonicalAll g b.content) (ne : children ≠ [])
    (inside : Forest.Canonical g b.kind children) : Node.Canonical g (.block b (some children))
  | text {b : Block} {chars : String} (head : b.Canonical g) (model : b.model = .text)
    (content : b.content = Reading.plainContent chars) : Node.Canonical g (.block b none)
  | container {b : Block} {children : Forest} (head : b.Canonical g)
    (model : b.model = .json ∨ b.model = .none) (rule : g.hasChildrenRule b.element = true)
    (content : b.content = []) (inside : Forest.Canonical g b.kind children) :
    Node.Canonical g (.block b (some children))
  | empty {b : Block} (head : b.Canonical g) (model : b.model = .json ∨ b.model = .none)
    (rule : g.hasChildrenRule b.element = false) (content : b.content = []) :
    Node.Canonical g (.block b none)

/-- Nodes in the form in which they are read, all of which may stand in a type of element. -/
inductive Forest.Canonical (g : Grammar) : String → List Node → Prop
  | nil {type : String} : Forest.Canonical g type []
  | cons {type : String} {n : Node} {rest : Forest} (first : Node.Canonical g n)
    (fits : g.has n.element = true ∧ g.allows type n.element = true)
    (after : Forest.Canonical g type rest) : Forest.Canonical g type (n :: rest)

end

theorem Forest.Canonical.writable {g : Grammar} {type : String} {ns : Forest}
    (h : Forest.Canonical g type ns) :
    ∀ n ∈ Forest.preorder ns, Writable n.element n.attributes := by
  induction ns using Forest.induct generalizing type with
  | nil => simp [Forest.preorder]
  | leaf head rest ih =>
    obtain _ | ⟨first, -, after⟩ := h
    simp only [Forest.preorder, Node.preorder, List.singleton_append, List.forall_mem_cons]
    refine ⟨?_, ih after⟩
    cases first with
    | rich head | text head | empty head => exact head.writable
  | inner head children rest ihc ih =>
    obtain _ | ⟨first, -, after⟩ := h
    simp only [Forest.preorder, Node.preorder, List.cons_append, List.forall_mem_cons,
      List.forall_mem_append]
    cases first with
    | mixed head _ _ _ inside | container head _ _ _ inside =>
      exact ⟨head.writable, ihc inside, ih after⟩
  | call c rest ih =>
    obtain _ | ⟨first, -, after⟩ := h
    obtain ⟨inside⟩ := first
    simp only [Forest.preorder, Node.preorder, List.singleton_append, List.forall_mem_cons]
    exact ⟨inside.writable, ih after⟩

section Reread

variable {g : Grammar}

theorem Call.Canonical.legible {c : Call} (h : c.Canonical g) : c.Legible g :=
  ⟨h.kind, h.checked, h.extra, h.parameters.imp_right fun hreadable => ⟨_, hreadable.read?_text⟩,
    h.instructions⟩

theorem Call.Canonical.reread_eq {c : Call} (h : c.Canonical g) : c.reread = c := by
  have hparameters : (if c.parameters.isEmpty then [] else Json.rereadMembers c.parameters) =
      c.parameters := by
    split
    · rename_i hempty
      exact (List.isEmpty_iff.1 hempty).symm
    · rename_i hne
      have hreadable := h.parameters.resolve_left (by simpa using hne)
      rw [Json.rereadMembers, hreadable.read?_text]
  rw [Call.reread, hparameters]

theorem Block.Canonical.legible {b : Block} (h : b.Canonical g)
    (hcontent : b.model = .rich → Inline.CanonicalAll g b.content) : b.Legible g :=
  ⟨h.kind, h.type, h.model, h.checked, hcontent⟩

theorem Block.Canonical.reread_eq {b : Block} (h : b.Canonical g)
    (hcontent : b.contentRead = b.content) : b.reread = b := by
  rw [Block.reread, h.props, hcontent]

mutual

theorem Node.Canonical.legible : ∀ {n : Node}, n.Canonical g → n.Legible g
  | _, .call inside => .call inside.legible
  | _, .rich head model content =>
    .block (head.legible fun _ => content) (fun _ _ => rfl) .nil
  | _, .mixed head model content ne inside =>
    .block (head.legible fun _ => content) (by simp [model]) inside.legible
  | _, .text head model content =>
    .block (head.legible (by simp [model])) (fun _ _ => rfl) .nil
  | _, .container head model rule content inside =>
    .block (head.legible (by rcases model with model | model <;> simp [model]))
      (by simp [rule]) inside.legible
  | _, .empty head model rule content =>
    .block (head.legible (by rcases model with model | model <;> simp [model])) (fun _ _ => rfl)
      .nil

theorem Forest.Canonical.legible : ∀ {type : String} {ns : Forest},
    Forest.Canonical g type ns → Forest.Legible g type ns
  | _, _, .nil => .nil
  | _, _, .cons first fits after => .cons first.legible fits after.legible

end

mutual

theorem Node.Canonical.reread_eq : ∀ {n : Node}, n.Canonical g → n.reread g = n
  | _, .call inside => by rw [Node.reread, inside.reread_eq]
  | _, @Node.Canonical.rich _ b head model content => by
    obtain ⟨hcontent, hchildren⟩ := Block.read_of_rich g [] model
    rw [Node.reread_block, head.reread_eq hcontent]
    exact congrArg _ hchildren
  | _, @Node.Canonical.mixed _ b children head model content ne inside => by
    obtain ⟨hcontent, hchildren⟩ := Block.read_of_rich g children model
    have hne : children.isEmpty = false := by simpa using ne
    rw [Node.reread, inside.reread_eq, head.reread_eq hcontent, hchildren, hne]
    rfl
  | _, @Node.Canonical.text _ b chars head model content => by
    obtain ⟨hcontent, hchildren⟩ := Block.read_of_text g [] model
    have hchars : b.chars = chars := by
      rw [Block.chars, content, Reading.plainContent]
      split
      · rename_i hempty
        rw [String.isEmpty_iff] at hempty
        simp [hempty]
      · simp [Inline.plain]
    rw [hchars, ← content] at hcontent
    rw [Node.reread, head.reread_eq hcontent, hchildren]
  | _, @Node.Canonical.container _ b children head model rule content inside => by
    obtain ⟨hcontent, hchildren⟩ := Block.read_of_blocks g children model
    rw [Node.reread, inside.reread_eq, head.reread_eq (hcontent.trans content.symm),
      hchildren, rule]
    rfl
  | _, @Node.Canonical.empty _ b head model rule content => by
    obtain ⟨hcontent, hchildren⟩ := Block.read_of_blocks g [] model
    rw [Node.reread, head.reread_eq (hcontent.trans content.symm), hchildren, rule]
    rfl

theorem Forest.Canonical.reread_eq : ∀ {type : String} {ns : Forest},
    Forest.Canonical g type ns → Forest.reread g ns = ns
  | _, _, .nil => rfl
  | _, _, .cons first fits after => by
    rw [Forest.reread, first.reread_eq, after.reread_eq]

end

end Reread

theorem Reading.blocks_outline {g : Grammar} (hg : g.Printable) (hs : g.Supported) {type : String}
    {ns : Forest} (h : Forest.Canonical g type ns) {l : Layout}
    (hl : Text.isAllBlank l.indent = true) (path : Path) (parent : String) (index : Nat)
    (supply : IdSupply) {tail : List (Item Element)}
    (htail : ∀ index, blocks g path parent type index tail supply = .ok ([], supply)) :
    blocks g path parent type index (Forest.outline l ns ++ tail) supply = .ok (ns, supply) := by
  have hread := blocks_reread hg hs h.legible hl path parent index supply htail
  rwa [h.reread_eq] at hread

end LiveDoc
