import LiveDoc.Proofs.Forest.Traversal
import LiveDoc.Proofs.Inline.Outline
import LiveDoc.Proofs.Reading.TextTable

/-!
# Outlines of nodes

The elements that nodes are written as, between blanks that lay them out on lines.
-/

set_option autoImplicit false
set_option relaxedAutoImplicit false

namespace LiveDoc

open Markup (Element Item Layout Spells Writable attributeChars given)

def lined (l : Layout) (e : Element) : List (Item Element) :=
  [.text l.margin, .element e, .text l.lineEnd]

theorem spells_lined {l : Layout} (hl : Text.isAllBlank l.indent = true) {e : Element}
    {written : String} (h : Spells [.element e] written.toList) :
    Spells (lined l e) (l.margin ++ written ++ l.lineEnd).toList := by
  have hspells := (Markup.spells_blank (Layout.isAllBlank_margin hl)).append
    (h.append (Markup.spells_blank (Layout.isAllBlank_lineEnd (l := l))))
  simpa [lined] using hspells

namespace Block

def attributes (b : Block) : List (String × String) :=
  ("id", b.id) :: tableAttributes (if b.kind = "heading" then ["level"] else []) b.props

def chars (b : Block) : String :=
  String.join (b.content.map fun item => match item with
    | .text chars _ => chars
    | _ => "")

/-- The element that a block is written as, around the items for its children. -/
def outline (b : Block) (l : Layout) (childless : Bool) (children : List (Item Element)) :
    Element :=
  ⟨b.element, b.attributes,
    if b.content.isEmpty && childless then []
    else
      match b.model with
      | .text => [.text b.chars]
      | .rich => Inline.outlineAll b.content ++ children
      | .json | .none => .text l.lineEnd :: (children ++ [.text l.margin])⟩

theorem toList_attrs (b : Block) : b.attrs.toList = attributeChars b.attributes := by
  rw [attrs, attributes, String.toList_append, Markup.attributeChars_cons, Markup.toList_attr,
    toList_tableAttrs]

private theorem plainText_eq_escape (b : Block) : b.plainText = Markup.escape b.chars := by
  have happend (first second : String) :
      Markup.escape (first ++ second) = Markup.escape first ++ Markup.escape second := by
    simp [Markup.escape, Markup.escapeChars]
  rw [plainText, chars]
  induction b.content with
  | nil => rfl
  | cons item rest ih =>
    rw [List.map_cons, List.map_cons, String.join_cons, String.join_cons, happend, ih]
    cases item <;> rfl

theorem spells_print (b : Block) {l : Layout} (hl : Text.isAllBlank l.indent = true)
    (h : Writable b.element b.attributes) (childless : Bool) {children : List (Item Element)}
    {written : String} (hchildren : Spells children written.toList) :
    Spells (lined l (b.outline l childless children)) (b.print l childless written).toList := by
  rw [outline, print]
  generalize b.element = name at h ⊢
  generalize b.model = model
  split
  · simpa [String.append_assoc] using spells_lined hl (Markup.spells_single h b.toList_attrs)
  · have hpair {items : List (Item Element)} {inside : String}
        (hinside : Spells items inside.toList) :
        Spells (lined l ⟨name, b.attributes, items⟩)
          (l.margin ++ "<" ++ name ++ b.attrs ++ ">" ++ inside ++ Markup.closingTag name ++
            l.lineEnd).toList := by
      simpa [String.append_assoc] using spells_lined hl
        (Markup.spells_pair h b.toList_attrs hinside)
    have hlines : Spells (.text l.lineEnd :: (children ++ [.text l.margin]))
        (l.lineEnd ++ written ++ l.margin).toList := by
      have hmargin := Markup.spells_blank (Layout.isAllBlank_margin hl)
      have hend := Markup.spells_blank (Layout.isAllBlank_lineEnd (l := l))
      simpa using hend.append (hchildren.append hmargin)
    cases model with
    | text =>
      refine hpair ?_
      rw [plainText_eq_escape]
      exact Markup.spells_escape b.chars
    | rich =>
      refine hpair ?_
      rw [String.toList_append]
      exact (Inline.spells_printAll b.content).append hchildren
    | json => exact hpair hlines
    | none => exact hpair hlines

end Block

namespace Call

def attributes (c : Call) : List (String × String) :=
  ("id", c.id) :: (c.kind.functionAttr, c.function) ::
    (given "enabled" (if c.enabled then none else some "false") ++ tableAttributes [] c.extra)

def parameterItems (c : Call) (l : Layout) : List (Item Element) :=
  if c.parameters.isEmpty then []
  else lined l ⟨"params", [],
    (Markup.sectionParts (Json.obj c.parameters).text).map .literal⟩

def instructionItems (c : Call) (l : Layout) : List (Item Element) :=
  if c.instructions.isEmpty then []
  else lined l ⟨"content", [], Inline.outlineAll c.instructions⟩

def outline (c : Call) (l : Layout) : Element :=
  ⟨c.kind.element, c.attributes,
    if c.parameters.isEmpty && c.instructions.isEmpty then []
    else .text l.lineEnd ::
      (c.parameterItems l.deeper ++ (c.instructionItems l.deeper ++ [.text l.margin]))⟩

theorem toList_attrs (c : Call) : c.attrs.toList = attributeChars c.attributes := by
  rw [attrs, attributes, Markup.attributeChars_cons,
    Markup.attributeChars_cons (c.kind.functionAttr, c.function), Markup.attributeChars_append,
    ← Markup.toList_attr, ← Markup.toList_attr, ← toList_tableAttrs, ← Markup.toList_attr?]
  cases c.enabled <;> simp [Markup.attr?]

private theorem spells_line {l : Layout} (hl : Text.isAllBlank l.indent = true) {name : String}
    (hname : Markup.isTagName name = true) {items : List (Item Element)} {inside : String}
    (h : Spells items inside.toList) :
    Spells (lined l ⟨name, [], items⟩) (line l name inside).toList := by
  have hwritable : Writable name [] := ⟨hname, by simp, by simp⟩
  have hattributes : ("" : String).toList = attributeChars [] := rfl
  have hspells := spells_lined hl (Markup.spells_pair hwritable hattributes h)
  simpa [line] using hspells

theorem spells_print (c : Call) {l : Layout} (hl : Text.isAllBlank l.indent = true)
    (h : Writable c.kind.element c.attributes) :
    Spells (lined l (c.outline l)) (c.print l).toList := by
  rw [outline, print]
  split
  · simpa [String.append_assoc] using spells_lined hl (Markup.spells_single h c.toList_attrs)
  · have hparameters : Spells (c.parameterItems l.deeper)
        (if c.parameters.isEmpty then ""
          else line l.deeper "params" (Markup.sections (Json.obj c.parameters).text)).toList := by
      rw [parameterItems]
      split
      · exact .nil
      · exact spells_line (l := l.deeper) hl (by decide) (Markup.spells_sections _)
    have hinstructions : Spells (c.instructionItems l.deeper)
        (if c.instructions.isEmpty then ""
          else line l.deeper "content" (Inline.printAll c.instructions)).toList := by
      rw [instructionItems]
      split
      · exact .nil
      · exact spells_line (l := l.deeper) hl (by decide) (Inline.spells_printAll _)
    have hmargin := Markup.spells_blank (Layout.isAllBlank_margin hl)
    have hend := Markup.spells_blank (Layout.isAllBlank_lineEnd (l := l))
    have hinside := hend.append (hparameters.append (hinstructions.append hmargin))
    simp only [← String.toList_append] at hinside
    have hspells := spells_lined hl (Markup.spells_pair h c.toList_attrs hinside)
    simpa [String.append_assoc] using hspells

end Call

mutual

def Node.outline (l : Layout) : Node → Element
  | .block head none => head.outline l true []
  | .block head (some children) =>
    head.outline l children.isEmpty (Forest.outline (head.childLayout l) children)
  | .call c => c.outline l
termination_by structural n => n

def Forest.outline (l : Layout) : List Node → List (Item Element)
  | [] => []
  | n :: rest => lined l (n.outline l) ++ Forest.outline l rest
termination_by structural ns => ns

end

namespace Node

def element : Node → String
  | .block head _ => head.element
  | .call c => c.kind.element

def attributes : Node → List (String × String)
  | .block head _ => head.attributes
  | .call c => c.attributes

theorem name_outline (l : Layout) (n : Node) : (n.outline l).name = n.element := by
  match n with
  | .block head none => rfl
  | .block head (some children) => rfl
  | .call c => rfl

theorem attributes_outline (l : Layout) (n : Node) : (n.outline l).attributes = n.attributes := by
  match n with
  | .block head none => rfl
  | .block head (some children) => rfl
  | .call c => rfl

theorem outline_block (l : Layout) (b : Block) (children : Option Forest) :
    (Node.block b children).outline l = b.outline l (children.getD []).isEmpty
      (Forest.outline (b.childLayout l) (children.getD [])) := by
  cases children <;> rfl

end Node

namespace Block

variable {b : Block} {l : Layout}

theorem childLayout_of_rich (h : b.model = .rich) : b.childLayout l = l.onOneLine := by
  unfold Block.childLayout
  rw [h]

theorem isAllBlank_childLayout (hl : Text.isAllBlank l.indent = true) :
    Text.isAllBlank (b.childLayout l).indent = true := by
  unfold Block.childLayout
  split <;> exact hl

end Block

theorem Forest.spells_print {ns : Forest}
    (h : ∀ n ∈ Forest.preorder ns, Writable n.element n.attributes) {l : Layout}
    (hl : Text.isAllBlank l.indent = true) :
    Spells (Forest.outline l ns) (Forest.print l ns).toList := by
  induction ns using Forest.induct generalizing l with
  | nil => exact .nil
  | leaf head rest ih =>
    simp only [Forest.preorder, Node.preorder, List.singleton_append, List.forall_mem_cons] at h
    rw [Forest.outline, Forest.print, String.toList_append, Node.outline, Node.print]
    exact (head.spells_print hl h.1 true .nil).append (ih h.2 hl)
  | inner head children rest ihc ih =>
    simp only [Forest.preorder, Node.preorder, List.cons_append, List.forall_mem_cons,
      List.forall_mem_append] at h
    obtain ⟨hhead, hchildren, hrest⟩ := h
    rw [Forest.outline, Forest.print, String.toList_append, Node.outline, Node.print]
    exact (head.spells_print hl hhead children.isEmpty
      (ihc hchildren (Block.isAllBlank_childLayout hl))).append (ih hrest hl)
  | call c rest ih =>
    simp only [Forest.preorder, Node.preorder, List.singleton_append, List.forall_mem_cons] at h
    rw [Forest.outline, Forest.print, String.toList_append, Node.outline, Node.print]
    exact (c.spells_print hl h.1).append (ih h.2 hl)

end LiveDoc
