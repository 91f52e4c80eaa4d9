import LiveDoc.Proofs.Inline.Canonical
import LiveDoc.Proofs.Node.Outline
import LiveDoc.Proofs.Reading.Joined
import LiveDoc.Proofs.Reading.Node

/-!
# What written nodes are read as

Nodes are written as far as their elements have room for them. What is read of them is what was
written: content by the model of the element, attributes as texts, the level of a heading in range.
-/

set_option autoImplicit false
set_option relaxedAutoImplicit false

namespace LiveDoc

open Markup (Element Item Layout)

def Json.rereadMembers (members : Table Json) : Table Json :=
  match Json.read? (Json.obj members).text with
  | some (.obj found) => found
  | _ => []

def Call.reread (c : Call) : Call :=
  { c with parameters := if c.parameters.isEmpty then [] else Json.rereadMembers c.parameters }

namespace Block

def contentRead (b : Block) : List Inline :=
  match b.model with
  | .rich => b.content
  | .text => Reading.plainContent b.chars
  | .json | .none => []

def reread (b : Block) : Block :=
  ⟨b.id, b.kind, Reading.blockProps b.element b.kind b.attributes, b.contentRead⟩

/-- The child list that a block is read with when some children are read in its element. -/
def childrenRead (g : Grammar) (b : Block) (children : Forest) : Option Forest :=
  match b.model with
  | .rich => if children.isEmpty then none else some children
  | .text => none
  | .json | .none => if g.hasChildrenRule b.element then some children else none

section Models

variable (g : Grammar) {b : Block} (children : Forest)

theorem read_of_rich (h : b.model = .rich) :
    b.contentRead = b.content ∧
      b.childrenRead g children = if children.isEmpty then none else some children := by
  unfold contentRead childrenRead
  simp only [h, and_self]

theorem read_of_text (h : b.model = .text) :
    b.contentRead = Reading.plainContent b.chars ∧ b.childrenRead g children = none := by
  unfold contentRead childrenRead
  simp only [h, and_self]

theorem read_of_blocks (h : b.model = .json ∨ b.model = .none) :
    b.contentRead = [] ∧ b.childrenRead g children =
      if g.hasChildrenRule b.element then some children else none := by
  unfold contentRead childrenRead
  rcases h with h | h <;> simp only [h, and_self]

end Models

end Block

mutual

def Node.reread (g : Grammar) : Node → Node
  | .block head none => .block head.reread (head.childrenRead g [])
  | .block head (some children) =>
    .block head.reread (head.childrenRead g (Forest.reread g children))
  | .call c => .call c.reread
termination_by structural n => n

def Forest.reread (g : Grammar) : List Node → List Node
  | [] => []
  | n :: rest => n.reread g :: Forest.reread g rest
termination_by structural ns => ns

end

/-- A block that can be read as one of its kind when it is written. -/
structure Block.Legible (g : Grammar) (b : Block) : Prop where
  kind : (g.spec? b.element).map ElementSpec.kind = some .block
  type : g.type? b.element = some b.kind
  model : g.model? b.element = some b.model
  checked : g.checkAttributes b.element b.attributes = []
  content : b.model = .rich → Inline.CanonicalAll g b.content

/-- A call that can be read when it is written. -/
structure Call.Legible (g : Grammar) (c : Call) : Prop where
  kind : (g.spec? c.kind.element).map ElementSpec.kind = some .executable
  checked : g.checkAttributes c.kind.element c.attributes = []
  extra : Reading.textTable ["id", "enabled", c.kind.functionAttr] c.attributes = c.extra
  parameters : c.parameters = [] ∨
    ∃ found, Json.read? (Json.obj c.parameters).text = some (.obj found)
  instructions : Inline.CanonicalAll g c.instructions

mutual

/-- A node that can be read when it is written. -/
inductive Node.Legible (g : Grammar) : Node → Prop
  | call {c : Call} (inside : c.Legible g) : Node.Legible g (.call c)
  | block {b : Block} {children : Option Forest} (head : b.Legible g)
    (childless : b.model = .json ∨ b.model = .none → g.hasChildrenRule b.element = false →
      children.getD [] = [])
    (inside : Forest.Legible g b.kind (children.getD [])) : Node.Legible g (.block b children)

/-- Nodes that can be read when they are written in a type of element. -/
inductive Forest.Legible (g : Grammar) : String → List Node → Prop
  | nil {type : String} : Forest.Legible g type []
  | cons {type : String} {n : Node} {rest : Forest} (first : Node.Legible g n)
    (fits : g.has n.element = true ∧ g.allows type n.element = true)
    (after : Forest.Legible g type rest) : Forest.Legible g type (n :: rest)

end

theorem Node.Legible.not_inline {g : Grammar} {n : Node} (h : n.Legible g) :
    g.isInline n.element = false := by
  have hkind : ∃ kind, (g.spec? n.element).map ElementSpec.kind = some kind ∧ kind ≠ .inline := by
    cases h with
    | call inside => exact ⟨_, inside.kind, by simp⟩
    | block head => exact ⟨_, head.kind, by simp⟩
  obtain ⟨kind, hspec, hne⟩ := hkind
  obtain ⟨spec, hfound, rfl⟩ := Option.map_eq_some_iff.1 hspec
  simp [Grammar.isInline, hfound, hne]

theorem Node.reread_block (g : Grammar) (b : Block) (children : Option Forest) :
    (Node.block b children).reread g =
      .block b.reread (b.childrenRead g (Forest.reread g (children.getD []))) := by
  cases children <;> rfl

theorem Forest.isEmpty_reread (g : Grammar) (ns : Forest) :
    (Forest.reread g ns).isEmpty = ns.isEmpty := by
  cases ns <;> rfl

namespace Reading

open Inline (outlineAll)

variable {g : Grammar}

section Calls

variable {path : Path} {name type : String} {parts : CallParts} {rest : List (Item Element)}

theorem callParts_lined {l : Layout} (hl : Text.isAllBlank l.indent = true) (e : Element) :
    callParts g path name type parts (lined l e ++ rest) =
      callParts g path name type parts (.element e :: .text l.lineEnd :: rest) := by
  simp [lined, callParts, Layout.isAllBlank_margin hl]

theorem callParts_blank {chars : String} (h : Text.isAllBlank chars = true) :
    callParts g path name type parts (.text chars :: rest) =
      callParts g path name type parts rest := by
  simp [callParts, h]

private theorem exists_text_obj (members : List (String × Json)) :
    ∃ inside, (Json.obj members).text.toList = '\x7b' :: (inside ++ ['\x7d']) := by
  have hmembers (members : List (String × Json)) :
      ∃ inside, (Json.textMembers members).toList = inside ++ ['\x7d'] := by
    induction members with
    | nil => exact ⟨[], by simp [Json.textMembers]⟩
    | cons member rest ih =>
      obtain ⟨inside, hinside⟩ := ih
      obtain ⟨name, value⟩ := member
      exact ⟨',' :: ((Json.quote name).toList ++ ':' :: (value.text.toList ++ inside)),
        by simp [Json.textMembers, hinside]⟩
  cases members with
  | nil => exact ⟨[], by simp [Json.text]⟩
  | cons member rest =>
    obtain ⟨name, value⟩ := member
    obtain ⟨inside, hinside⟩ := hmembers rest
    exact ⟨(Json.quote name).toList ++ ':' :: (value.text.toList ++ inside),
      by simp [Json.text, hinside]⟩

private theorem trim_text_obj (members : List (String × Json)) :
    Text.trim (Json.obj members).text = (Json.obj members).text := by
  obtain ⟨inside, hinside⟩ := exists_text_obj members
  have hopen : Text.isBlank '\x7b' = false := by decide
  have hclose : Text.isBlank '\x7d' = false := by decide
  rw [Text.trim, hinside, Text.trimChars, List.dropWhile_cons_of_neg (by simp [hopen]),
    ← List.cons_append, List.reverse_concat, List.dropWhile_cons_of_neg (by simp [hclose]),
    ← List.reverse_concat, List.reverse_reverse, List.cons_append, ← hinside, String.ofList_toList]

theorem jsonObject_sections {name : String} {attributes : List (String × String)}
    {parameters found : Table Json} (hcheck : g.checkAttributes name attributes = [])
    (h : Json.read? (Json.obj parameters).text = some (.obj found)) (path : Path) :
    jsonObject g path ⟨name, attributes,
      (Markup.sectionParts (Json.obj parameters).text).map .literal⟩ = .ok found := by
  have hchecked : checkAttributes g path name attributes = .ok () :=
    checkAttributes_eq_ok_iff.2 hcheck
  have hchild : Element.firstChild? ⟨name, attributes,
      (Markup.sectionParts (Json.obj parameters).text).map .literal⟩ = none := by
    simp [Element.firstChild?]
  have htext : Element.text ⟨name, attributes,
      (Markup.sectionParts (Json.obj parameters).text).map .literal⟩ =
        (Json.obj parameters).text := by
    have hjoin := Markup.join_sectionParts (Json.obj parameters).text
    simpa [Element.text, Function.comp_def] using hjoin
  have hne : (Json.obj parameters).text.isEmpty = false := by
    obtain ⟨inside, hinside⟩ := exists_text_obj parameters
    cases hempty : (Json.obj parameters).text.isEmpty with
    | false => rfl
    | true =>
      rw [String.isEmpty_iff] at hempty
      simp [hempty] at hinside
  rw [jsonObject, hchecked, hchild, htext, trim_text_obj]
  simp [bind, Except.bind, hne, h]

private theorem checkChild_call (hg : g.Printable) {inner : String}
    (hkind : (g.spec? name).map ElementSpec.kind = some .executable)
    (htype : g.type? name = some type) (hinner : inner ∈ ["params", "content"]) :
    checkChild g path name type inner = .ok () := by
  obtain ⟨e, he, rfl⟩ := Grammar.type?_eq_some_iff.1 htype
  have hmem := (Grammar.entry?_eq_some he).1
  have hexecutable : e.spec.kind = .executable := by simpa [Grammar.spec?, he] using hkind
  obtain ⟨hparams, hcontent⟩ := hg.call_allows e hmem hexecutable
  refine checkChild_eq_ok_iff.2 ⟨?_, Grammar.allows_eq_true_iff.2 ⟨e, hmem, rfl, ?_⟩⟩
  all_goals
    simp only [List.mem_cons, List.not_mem_nil, or_false] at hinner
    rcases hinner with rfl | rfl
  · exact Grammar.has_of_type?_eq_some hg.type_params
  · exact Grammar.has_of_type?_eq_some hg.type_content
  · exact hparams
  · exact hcontent

private theorem callParts_parameterItems (hg : g.Printable) {c : Call} (h : c.Legible g)
    {l : Layout} (hl : Text.isAllBlank l.indent = true) (htype : g.type? c.kind.element = some type)
    (path : Path) (rest : List (Item Element)) :
    callParts g path c.kind.element type ⟨none, none⟩ (c.parameterItems l ++ rest) =
      callParts g path c.kind.element type
        ⟨if c.parameters.isEmpty then none else some c.reread.parameters, none⟩ rest := by
  rw [Call.parameterItems]
  split
  · rfl
  · rename_i hne
    obtain ⟨found, hfound⟩ := h.parameters.resolve_left (by simpa using hne)
    have hreread : c.reread.parameters = found := by
      simp [Call.reread, hne, Json.rereadMembers, hfound]
    rw [callParts_lined hl, callParts, checkChild_call hg h.kind htype (by simp)]
    have hchecked : g.checkAttributes "params" [] = [] := List.isEmpty_iff.1 hg.params_attributes
    simp [bind, Except.bind, jsonObject_sections hchecked hfound, hreread,
      callParts_blank Layout.isAllBlank_lineEnd]

private theorem callParts_instructionItems (hg : g.Printable) (hs : g.Supported) {c : Call}
    (h : c.Legible g) {l : Layout} (hl : Text.isAllBlank l.indent = true)
    (htype : g.type? c.kind.element = some type) (path : Path) (parameters : Option (Table Json))
    (rest : List (Item Element)) :
    callParts g path c.kind.element type ⟨parameters, none⟩ (c.instructionItems l ++ rest) =
      callParts g path c.kind.element type
        ⟨parameters, if c.instructions.isEmpty then none else some c.instructions⟩ rest := by
  rw [Call.instructionItems]
  split
  · rfl
  · have hcontent (place : Path) := rich_outlineAll hg hs h.instructions place "content" "content"
      (takesInlines hg hg.type_content hs.model_content)
    rw [callParts_lined hl, callParts, checkChild_call hg h.kind htype (by simp)]
    simp [bind, Except.bind, typeOf_eq_ok_iff.2 hg.type_content, hcontent,
      callParts_blank Layout.isAllBlank_lineEnd]

private theorem callParts_outline (hg : g.Printable) (hs : g.Supported) {c : Call}
    (h : c.Legible g) {l : Layout} (hl : Text.isAllBlank l.indent = true)
    (htype : g.type? c.kind.element = some type) (path : Path) :
    ∃ parts, callParts g path c.kind.element type ⟨none, none⟩ (c.outline l).items = .ok parts ∧
      parts.parameters.getD [] = c.reread.parameters ∧
        parts.instructions.getD [] = c.instructions := by
  rw [Call.outline]
  split
  · rename_i hempty
    rw [Bool.and_eq_true, List.isEmpty_iff, List.isEmpty_iff] at hempty
    exact ⟨⟨none, none⟩, rfl, by simp [Call.reread, hempty.1], hempty.2.symm⟩
  · refine ⟨⟨if c.parameters.isEmpty then none else some c.reread.parameters,
      if c.instructions.isEmpty then none else some c.instructions⟩, ?_, ?_, ?_⟩
    · rw [callParts_blank Layout.isAllBlank_lineEnd,
        callParts_parameterItems hg h (l := l.deeper) hl htype,
        callParts_instructionItems hg hs h (l := l.deeper) hl htype,
        callParts_blank (Layout.isAllBlank_margin hl)]
      rfl
    · cases hparameters : c.parameters <;> simp [Call.reread, hparameters]
    · cases c.instructions <;> rfl

theorem call_reread (hg : g.Printable) (hs : g.Supported) {c : Call} (h : c.Legible g)
    {l : Layout} (hl : Text.isAllBlank l.indent = true) (path : Path) (supply : IdSupply) :
    call g path (c.outline l) supply = .ok (c.reread, supply) := by
  obtain ⟨type, htype⟩ : ∃ type, g.type? c.kind.element = some type := by
    obtain ⟨spec, hspec, -⟩ := Option.map_eq_some_iff.1 h.kind
    obtain ⟨e, he, -⟩ := Option.map_eq_some_iff.1 hspec
    exact ⟨e.type, Grammar.type?_eq_some_iff.2 ⟨e, he, rfl⟩⟩
  obtain ⟨parts, hparts, hparameters, hinstructions⟩ := callParts_outline hg hs h hl htype path
  have hkind : callKind c.kind.element = c.kind := by cases c.kind <;> rfl
  have hattribute : functionAttribute c.kind = c.kind.functionAttr := by cases c.kind <;> rfl
  have hident : nodeId (c.outline l) supply = .ok (c.id, supply) := by
    simp [nodeId, attr?_eq_value?, Call.outline, Call.attributes, Markup.value?_cons_self,
      Read.pure_eq_ok_iff]
  have hfunction : (c.outline l).attr c.kind.functionAttr = c.function := by
    have hne : "id" ≠ c.kind.functionAttr := by cases c.kind <;> decide
    rw [Element.attr, attr?_eq_value?, Call.outline, Call.attributes, Markup.value?_cons_of_ne hne,
      Markup.value?_cons_self, Option.getD_some]
  have henabled : (c.outline l).attr? "enabled" = if c.enabled then none else some "false" := by
    have hne : c.kind.functionAttr ≠ "enabled" := by cases c.kind <;> decide
    have hextra := isTextTable_textTable ["id", "enabled", c.kind.functionAttr] c.attributes
    rw [h.extra] at hextra
    have hin : "enabled" ∈ ["id", "enabled", c.kind.functionAttr] := by simp
    have hnone := hextra.value?_eq_none hin []
    rw [attr?_eq_value?, Call.outline, Call.attributes, Markup.value?_cons_of_ne (by decide),
      Markup.value?_cons_of_ne hne, Markup.value?_append, Markup.value?_given_self, hnone,
      Option.or_none]
  simp only [call, Read.bind_eq_ok_iff, Read.lift_eq_ok_iff, Read.pure_eq_ok_iff]
  refine ⟨type, supply, ⟨typeOf_eq_ok_iff.2 htype, rfl⟩, c.id, supply, hident, parts, supply,
    ⟨hparts, rfl⟩, ?_, rfl⟩
  have hname : (c.outline l).name = c.kind.element := rfl
  have hattributes : (c.outline l).attributes = c.attributes := rfl
  rw [hname, hkind, hattribute, hfunction, henabled, hattributes, h.extra, hparameters,
    hinstructions]
  cases hc : c.enabled <;> simp [Call.reread, hc]

end Calls

section Blocks

variable {path : Path} {parent type : String} {index : Nat} {supply : IdSupply}

theorem blocks_blank {chars : String} (h : Text.isAllBlank chars = true)
    (rest : List (Item Element)) :
    blocks g path parent type index (.text chars :: rest) =
      blocks g path parent type index rest := by
  simp [blocks, h]

private theorem mixed_empty (rest : List (Item Element)) {content : List Inline} {ns : Forest}
    {left : IdSupply} (h : mixed g path parent type index rest supply = .ok ((content, ns), left)) :
    mixed g path parent type index (.text "" :: rest) supply = .ok ((content, ns), left) := by
  simp only [mixed, Read.bind_eq_ok_iff, Read.pure_eq_ok_iff]
  exact ⟨(content, ns), left, h, by simp [Inline.plain], rfl⟩

private theorem mixed_outlineAll (hg : g.Printable) (hs : g.Supported)
    (htakes : TakesInlines g type) {content : List Inline} (h : Inline.CanonicalAll g content)
    {items : List (Item Element)} {ns : Forest}
    (hitems : mixed g path parent type index items supply = .ok (([], ns), supply)) :
    mixed g path parent type index (outlineAll content ++ items) supply =
      .ok ((content, ns), supply) := by
  induction content with
  | nil => exact hitems
  | cons item rest ih =>
    obtain ⟨first, apart, after⟩ : item.Canonical g ∧ item.joins rest = false ∧
        Inline.CanonicalAll g rest := by
      cases h with
      | cons first apart after => exact ⟨first, apart, after⟩
    have hrest := ih after
    rw [outlineAll, List.cons_append]
    cases hitem : item.outline with
    | text chars =>
      obtain rfl := Inline.eq_text_of_outline hitem
      simp only [mixed, Read.bind_eq_ok_iff, Read.pure_eq_ok_iff]
      exact ⟨(rest, ns), supply, hrest, by simp [Inline.plain, first.glue_eq apart], rfl⟩
    | literal chars => exact absurd hitem (Inline.outline_ne_literal item chars)
    | element inner =>
      have hfound := inline_outline hg hs first path inner hitem
      obtain ⟨written, hwritten, hname⟩ := Inline.name_of_outline hitem
      obtain ⟨hhas, hallows, hinline⟩ := htakes written hwritten
      rw [← hname] at hhas hallows hinline
      simp only [mixed, hinline, if_true, Read.bind_eq_ok_iff, Read.lift_eq_ok_iff,
        Read.pure_eq_ok_iff]
      refine ⟨(), supply, ⟨checkChild_eq_ok_iff.2 ⟨hhas, hallows⟩, rfl⟩, [item], supply,
        ⟨hfound, rfl⟩, (rest, ns), supply, hrest, ?_, rfl⟩
      simp [Inline.glueAll, first.glue_eq apart]

theorem blocks_lined {l : Layout} (hl : Text.isAllBlank l.indent = true) (e : Element)
    (rest : List (Item Element)) :
    blocks g path parent type index (lined l e ++ rest) supply =
      blocks g path parent type index (.element e :: .text l.lineEnd :: rest) supply := by
  simp only [lined, List.cons_append, List.nil_append]
  rw [blocks_blank (Layout.isAllBlank_margin hl)]

section Inside

variable {b : Block} {l : Layout}

private theorem heads_of_legible (h : b.Legible g) {e : Element}
    (hname : e.name = b.element) (hattributes : e.attributes = b.attributes) :
    Heads g e supply b.kind b.id supply := by
  refine ⟨hname ▸ h.kind, hname ▸ h.type, ?_⟩
  simp [nodeId, attr?_eq_value?, hattributes, Block.attributes, Markup.value?_cons_self,
    Read.pure_eq_ok_iff]

private theorem items_outline_rich (hmodel : b.model = .rich) (childless : Bool)
    {children : List (Item Element)} (hchildren : childless = true → children = []) :
    (b.outline l childless children).items = outlineAll b.content ++ children := by
  simp only [Block.outline, hmodel]
  split
  · rename_i hempty
    rw [Bool.and_eq_true, List.isEmpty_iff] at hempty
    rw [hempty.1, hchildren hempty.2]
    rfl
  · rfl

private theorem text_outline (hmodel : b.model = .text) (childless : Bool)
    (children : List (Item Element)) :
    (b.outline l childless children).children = [] ∧
      (b.outline l childless children).text = b.chars := by
  simp only [Block.outline, hmodel]
  split
  · rename_i hempty
    rw [Bool.and_eq_true, List.isEmpty_iff] at hempty
    exact ⟨rfl, by simp [Element.text, Block.chars, hempty.1]⟩
  · exact ⟨rfl, by simp [Element.text]⟩

private theorem empty_outline (hmodel : b.model = .json ∨ b.model = .none)
    (hl : Text.isAllBlank l.indent = true) :
    (b.outline l true []).children = [] ∧
      Text.isAllBlank (b.outline l true []).text = true := by
  have hlines : Element.children ⟨b.element, b.attributes, [.text l.lineEnd, .text l.margin]⟩ = [] ∧
      Text.isAllBlank
        (Element.text ⟨b.element, b.attributes, [.text l.lineEnd, .text l.margin]⟩) = true := by
    refine ⟨rfl, ?_⟩
    have hend := Layout.isAllBlank_lineEnd (l := l)
    have hmargin := Layout.isAllBlank_margin hl
    simp only [Text.isAllBlank] at hend hmargin
    simp [Element.text, Text.isAllBlank, hend, hmargin]
  simp only [Block.outline]
  split
  · exact ⟨rfl, rfl⟩
  · rcases hmodel with hmodel | hmodel <;> simpa only [hmodel, List.nil_append] using hlines

private theorem blocks_items_outline (hmodel : b.model = .json ∨ b.model = .none)
    (hl : Text.isAllBlank l.indent = true) {ns found : Forest} (hempty : ns = [] → found = [])
    (hinside : ∀ {tail : List (Item Element)},
      (∀ index, blocks g path parent type index tail supply = .ok ([], supply)) →
        blocks g path parent type 0 (Forest.outline (b.childLayout l) ns ++ tail) supply =
          .ok (found, supply)) :
    blocks g path parent type 0
      (b.outline l ns.isEmpty (Forest.outline (b.childLayout l) ns)).items supply =
        .ok (found, supply) := by
  have htail (index : Nat) :
      blocks g path parent type index [.text l.margin] supply = .ok ([], supply) := by
    rw [blocks_blank (Layout.isAllBlank_margin hl)]
    simp [blocks, Read.pure_eq_ok_iff]
  have hlines : blocks g path parent type 0
      (.text l.lineEnd :: (Forest.outline (b.childLayout l) ns ++ [.text l.margin])) supply =
        .ok (found, supply) := by
    rw [blocks_blank Layout.isAllBlank_lineEnd]
    exact hinside htail
  simp only [Block.outline]
  split
  · rename_i hnothing
    rw [Bool.and_eq_true, List.isEmpty_iff, List.isEmpty_iff] at hnothing
    simp [hempty hnothing.2, blocks, Read.pure_eq_ok_iff]
  · rcases hmodel with hmodel | hmodel <;> simpa only [hmodel] using hlines

private theorem node_of_makes (h : b.Legible g) {e : Element} (hname : e.name = b.element)
    (hattributes : e.attributes = b.attributes) {children : Option Forest}
    (hmakes : Makes g path e supply
      (.block ⟨b.id, b.kind, blockProps e.name b.kind e.attributes, b.contentRead⟩ children)
        supply) :
    node g path e supply = .ok (.block b.reread children, supply) := by
  have hb : (⟨b.id, b.kind, blockProps e.name b.kind e.attributes, b.contentRead⟩ : Block) =
      b.reread := by
    rw [hname, hattributes, Block.reread]
  rw [hb] at hmakes
  refine node_eq_ok_iff.2 ⟨?_, hmakes⟩
  rw [hname, hattributes]
  exact h.checked

private theorem block_reread (hg : g.Printable) (hs : g.Supported) (h : b.Legible g)
    (hl : Text.isAllBlank l.indent = true) {ns found : Forest}
    (hempty : found.isEmpty = ns.isEmpty)
    (hchildless : b.model = .json ∨ b.model = .none → g.hasChildrenRule b.element = false →
      ns = [])
    (hmixed : b.model = .rich → mixed g path b.element b.kind 0
      (Forest.outline l.onOneLine ns) supply = .ok (([], found), supply))
    (hblocks : ∀ {tail : List (Item Element)},
      (∀ index, blocks g path b.element b.kind index tail supply = .ok ([], supply)) →
        blocks g path b.element b.kind 0 (Forest.outline (b.childLayout l) ns ++ tail) supply =
          .ok (found, supply)) :
    node g path (b.outline l ns.isEmpty (Forest.outline (b.childLayout l) ns)) supply =
      .ok (.block b.reread (b.childrenRead g found), supply) := by
  generalize he : b.outline l ns.isEmpty (Forest.outline (b.childLayout l) ns) = e
  have hname : e.name = b.element := by simp only [← he, Block.outline]
  have hattributes : e.attributes = b.attributes := by simp only [← he, Block.outline]
  have hheads : Heads g e supply b.kind b.id supply := heads_of_legible h hname hattributes
  have hmodel := h.model
  rw [← hname] at hmodel
  refine node_of_makes h hname hattributes ?_
  have hnothing (hns : ns.isEmpty = true) : Forest.outline (b.childLayout l) ns = [] := by
    rw [List.isEmpty_iff.1 hns, Forest.outline]
  have hinside (model : b.model = .json ∨ b.model = .none) :
      Makes g path e supply
        (.block ⟨b.id, b.kind, blockProps e.name b.kind e.attributes, b.contentRead⟩
          (b.childrenRead g found)) supply := by
    have hmodels : g.model? e.name = some .json ∨ g.model? e.name = some .none := by
      rw [hmodel]
      simpa only [Option.some.injEq] using model
    obtain ⟨hcontent, hchildren⟩ := Block.read_of_blocks g found model
    rw [hcontent, hchildren, ← hname]
    cases hrule : g.hasChildrenRule e.name with
    | true =>
      refine .blocks hheads hmodels hrule ?_
      rw [hname, ← he]
      refine blocks_items_outline model hl (fun hns => ?_) hblocks
      simpa [hns] using hempty
    | false =>
      obtain rfl := hchildless model (hname ▸ hrule)
      refine .empty hheads hmodels hrule ?_
      rw [← he]
      exact empty_outline model hl
  cases model : b.model with
  | rich =>
    obtain ⟨hcontent, hchildren⟩ := Block.read_of_rich g found model
    rw [model] at hmodel
    rw [hcontent, hchildren]
    refine .rich hheads hmodel ?_
    rw [hname, ← he, items_outline_rich model _ hnothing, Block.childLayout_of_rich model]
    exact mixed_outlineAll hg hs (takesInlines hg h.type (hname ▸ hmodel)) (h.content model)
      (hmixed model)
  | text =>
    obtain ⟨hcontent, hchildren⟩ := Block.read_of_text g found model
    obtain ⟨hnone, htext⟩ := text_outline (l := l) model ns.isEmpty
      (Forest.outline (b.childLayout l) ns)
    rw [he] at hnone htext
    rw [model] at hmodel
    rw [hcontent, hchildren, ← htext]
    exact .text hheads hmodel hnone
  | json => exact hinside (.inl model)
  | none => exact hinside (.inr model)

end Inside

mutual

theorem node_reread (hg : g.Printable) (hs : g.Supported) : ∀ {n : Node}, n.Legible g →
    ∀ {l : Layout}, Text.isAllBlank l.indent = true → ∀ (path : Path) (supply : IdSupply),
      node g path (n.outline l) supply = .ok (n.reread g, supply)
  | _, .call inside, l, hl, path, supply =>
    node_eq_ok_iff.2 ⟨inside.checked, .call inside.kind (call_reread hg hs inside hl path supply)⟩
  | _, @Node.Legible.block _ b children head childless inside, l, hl, path, supply => by
    rw [Node.outline_block, Node.reread_block]
    refine block_reread hg hs head hl (Forest.isEmpty_reread g _) childless (fun _ => ?_) ?_
    · exact mixed_reread hg hs inside (l := l.onOneLine) hl rfl path b.element 0 supply
    · exact blocks_reread hg hs inside (Block.isAllBlank_childLayout hl) path b.element 0 supply

/-- The items that nodes are written as are read as what the nodes are written as, between
blanks. -/
theorem blocks_reread (hg : g.Printable) (hs : g.Supported) : ∀ {type : String} {ns : Forest},
    Forest.Legible g type ns → ∀ {l : Layout}, Text.isAllBlank l.indent = true →
      ∀ (path : Path) (parent : String) (index : Nat) (supply : IdSupply)
        {tail : List (Item Element)},
        (∀ index, blocks g path parent type index tail supply = .ok ([], supply)) →
          blocks g path parent type index (Forest.outline l ns ++ tail) supply =
            .ok (Forest.reread g ns, supply)
  | _, _, .nil, l, hl, path, parent, index, supply, tail, htail => htail index
  | _, _, @Forest.Legible.cons _ type n rest first fits after, l, hl, path, parent, index, supply,
      tail, htail => by
    have hnode := node_reread hg hs first hl (path.down (.nth n.element index)) supply
    have hrest := blocks_reread hg hs after hl path parent (index + 1) supply htail
    have hcheck : checkChild g path parent type n.element = .ok () := checkChild_eq_ok_iff.2 fits
    rw [Forest.outline, List.append_assoc, blocks_lined hl]
    simp only [blocks, n.name_outline, Layout.isAllBlank_lineEnd, if_true, Read.bind_eq_ok_iff,
      Read.lift_eq_ok_iff, Read.pure_eq_ok_iff]
    exact ⟨(), supply, ⟨hcheck, rfl⟩, _, supply, hnode, _, supply, hrest, rfl, rfl⟩

theorem mixed_reread (hg : g.Printable) (hs : g.Supported) : ∀ {type : String} {ns : Forest},
    Forest.Legible g type ns → ∀ {l : Layout}, Text.isAllBlank l.indent = true →
      l.compact = true → ∀ (path : Path) (parent : String) (index : Nat) (supply : IdSupply),
        mixed g path parent type index (Forest.outline l ns) supply =
          .ok (([], Forest.reread g ns), supply)
  | _, _, .nil, l, hl, hcompact, path, parent, index, supply => by
    simp [Forest.outline, Forest.reread, mixed, Read.pure_eq_ok_iff]
  | _, _, @Forest.Legible.cons _ type n rest first fits after, l, hl, hcompact, path, parent, index,
      supply => by
    have hnode := node_reread hg hs first hl (path.down (.nth n.element index)) supply
    have hrest := mixed_reread hg hs after hl hcompact path parent (index + 1) supply
    have hcheck : checkChild g path parent type n.element = .ok () := checkChild_eq_ok_iff.2 fits
    have hmargin : l.margin = "" := by simp [Layout.margin, hcompact]
    have hend : l.lineEnd = "" := by simp [Layout.lineEnd, hcompact]
    have hinside : mixed g path parent type index
        (.element (n.outline l) :: .text "" :: Forest.outline l rest) supply =
          .ok (([], Forest.reread g (n :: rest)), supply) := by
      have hafter := mixed_empty _ hrest
      simp only [mixed, n.name_outline, first.not_inline, Bool.false_eq_true, if_false,
        Read.bind_eq_ok_iff, Read.lift_eq_ok_iff, Read.pure_eq_ok_iff] at hafter ⊢
      exact ⟨(), supply, ⟨hcheck, rfl⟩, _, supply, hnode, _, _, hafter, rfl, rfl⟩
    have houtline : Forest.outline l (n :: rest) =
        .text "" :: .element (n.outline l) :: .text "" :: Forest.outline l rest := by
      simp [Forest.outline, lined, hmargin, hend]
    rw [houtline]
    exact mixed_empty _ hinside

end

end Blocks

end Reading

end LiveDoc
