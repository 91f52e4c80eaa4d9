import LiveDoc.Document.Printer
import LiveDoc.Proofs.Grammar.Operable
import LiveDoc.Proofs.Node.Canonical
import LiveDoc.Proofs.Reading.Operation
import LiveDoc.Proofs.Text.Commas

/-!
# Outlines of operations

The elements that operations are written as, and operations in the form in which they are read. What
such operations are written as is read as these operations, and takes no new ids.
-/

set_option autoImplicit false
set_option relaxedAutoImplicit false

namespace LiveDoc.Edit

open Markup (Element Item Layout Spells Writable attributeChars given)

def Markers.attributes (m : Markers) : List (String × String) :=
  given "afterBlockId" m.after ++
    (given "atStart" (if m.atStart then some "true" else Option.none) ++
      given "atEnd" (if m.atEnd then some "true" else Option.none))

def Targets.attributes (t : Targets) : List (String × String) :=
  given "blockId" t.block ++ (given "blockIds" (t.blocks.map (String.intercalate ",")) ++
    (given "fromBlockId" t.first ++ given "toBlockId" t.last))

namespace Operation

def attributes : Operation → List (String × String)
  | .setProp block name value => [("blockId", block), ("name", name), ("value", value.plainText)]
  | .rename block new => [("blockId", block), ("newId", new)]
  | .setContent block _ | .setParameters block _ | .delete block | .replace block _ =>
    [("blockId", block)]
  | .insert place _ => place.attributes
  | .move targets place => targets.attributes ++ place.attributes

def nodeItems (l : Layout) (nodes : Forest) : List (Item Element) :=
  if nodes.isEmpty then []
  else .text "\n" :: (Forest.outline l.deeper nodes ++ [.text l.margin])

def items (l : Layout) : Operation → List (Item Element)
  | .setContent _ content => Inline.outlineAll content
  | .setParameters _ parameters =>
    if parameters.isEmpty then []
    else (Markup.sectionParts (Json.obj parameters).text).map .literal
  | .insert _ nodes | .replace _ nodes => nodeItems l nodes
  | .setProp .. | .rename .. | .delete _ | .move .. => []

def outline (l : Layout) (o : Operation) : Element := ⟨o.name, o.attributes, o.items l⟩

/-- What an operation carries is in the form in which it is read. -/
def Formed (g : Grammar) : Operation → Prop
  | .setProp _ _ value => ∃ s, value = .str s
  | .setContent _ content => Inline.CanonicalAll g content
  | .setParameters _ parameters => parameters = [] ∨ (Json.obj parameters).Readable
  | .insert _ nodes => ∃ type, g.type? "insert" = some type ∧ Forest.Canonical g type nodes
  | .replace _ nodes => ∃ type, g.type? "replace" = some type ∧ Forest.Canonical g type nodes
  | .move targets _ =>
    ∀ idents ∈ targets.blocks, Reading.idList (String.intercalate "," idents) = idents
  | .rename .. | .delete _ => True

section Names

private theorem names_markers (m : Markers) :
    (m.attributes.map Prod.fst).Sublist ["afterBlockId", "atStart", "atEnd"] := by
  rw [Markers.attributes, List.map_append, List.map_append]
  exact (Markup.map_fst_given _ _).append
    ((Markup.map_fst_given _ _).append (Markup.map_fst_given _ _))

private theorem names_targets (t : Targets) :
    (t.attributes.map Prod.fst).Sublist ["blockId", "blockIds", "fromBlockId", "toBlockId"] := by
  rw [Targets.attributes, List.map_append, List.map_append, List.map_append]
  exact (Markup.map_fst_given _ _).append ((Markup.map_fst_given _ _).append
    ((Markup.map_fst_given _ _).append (Markup.map_fst_given _ _)))

theorem writable (o : Operation) : Writable o.name o.attributes := by
  have hnames : ∃ names : List String, (o.attributes.map Prod.fst).Sublist names ∧
      names.Nodup ∧ ∀ name ∈ names, Markup.isAttributeName name = true := by
    cases o with
    | setProp => exact ⟨["blockId", "name", "value"], .refl _, by decide, by decide⟩
    | rename => exact ⟨["blockId", "newId"], .refl _, by decide, by decide⟩
    | setContent | setParameters | delete | replace =>
      exact ⟨["blockId"], .refl _, by decide, by decide⟩
    | insert place => exact ⟨_, names_markers place, by decide, by decide⟩
    | move targets place =>
      have hsub := (names_targets targets).append (names_markers place)
      rw [← List.map_append] at hsub
      exact ⟨_, hsub, by decide, by decide⟩
  obtain ⟨names, hsub, hnodup, hvalid⟩ := hnames
  have htags : ∀ name ∈ Grammar.writtenOperations.map Prod.fst, Markup.isTagName name = true := by
    decide
  have hname : o.name ∈ Grammar.writtenOperations.map Prod.fst := by
    cases o <;> simp [name, Grammar.writtenOperations]
  exact ⟨htags _ hname,
    fun a ha => hvalid a.1 (hsub.subset (List.mem_map_of_mem ha)), hnodup.sublist hsub⟩

end Names

/-- An operation of which the written attributes are in order and that carries what is in the form
in which it is read. -/
structure Canonical (g : Grammar) (o : Operation) : Prop where
  type : ∃ type, g.type? o.name = some type
  checked : g.checkAttributes o.name o.attributes = []
  formed : o.Formed g

end Operation

section Spelling

variable {g : Grammar} {l : Layout}

private theorem toList_flag (name : String) (flag : Bool) :
    (if flag then Markup.attr name "true" else "").toList =
      attributeChars (given name (if flag then some "true" else none)) := by
  cases flag with
  | true => exact Markup.toList_attr name "true"
  | false => rfl

theorem Markers.toList_attrs (m : Markers) : m.attrs.toList = attributeChars m.attributes := by
  simp only [attrs, attributes, String.toList_append, Markup.attributeChars_append,
    Markup.toList_attr?, toList_flag, List.append_assoc]

theorem Targets.toList_attrs (t : Targets) : t.attrs.toList = attributeChars t.attributes := by
  simp only [attrs, attributes, String.toList_append, Markup.attributeChars_append,
    Markup.toList_attr?, List.append_assoc]

private theorem spells_printNodes (hl : Text.isAllBlank l.indent = true) {name written : String}
    {attributes : List (String × String)} (h : Writable name attributes)
    (hwritten : written.toList = attributeChars attributes) {type : String} {nodes : Forest}
    (hnodes : Forest.Canonical g type nodes) :
    Spells [.element ⟨name, attributes, Operation.nodeItems l nodes⟩]
      ("<" ++ name ++ written ++ printNodes l name nodes).toList := by
  rw [Operation.nodeItems, printNodes]
  split
  · exact Markup.spells_single h hwritten
  · have hline : Text.isAllBlank "\n" = true := by decide
    have hinside := (Markup.spells_blank hline).append
      ((Forest.spells_print hnodes.writable (l := l.deeper) hl).append
        (Markup.spells_blank (Layout.isAllBlank_margin hl)))
    simp only [← String.toList_append] at hinside
    have hopen : (">\n" : String) = ">" ++ "\n" := by decide
    simpa [hopen, String.append_assoc] using Markup.spells_pair h hwritten hinside

theorem Operation.Canonical.spells_print {o : Operation} (h : o.Canonical g)
    (hl : Text.isAllBlank l.indent = true) :
    Spells [.text l.margin, .element (o.outline l), .text "\n"] (o.print l).toList := by
  have hline : Spells [.element (o.outline l)] ("<" ++ o.name ++ o.printRest l).toList := by
    have hwritable := o.writable
    have hformed := h.formed
    have hbare {written : String} (hitems : o.items l = [])
        (hwritten : written.toList = attributeChars o.attributes) :
        Spells [.element (o.outline l)] ("<" ++ o.name ++ written ++ "/>").toList := by
      rw [outline, hitems]
      exact Markup.spells_single hwritable hwritten
    have hblock (block : String) :
        (Markup.attr "blockId" block).toList = attributeChars [("blockId", block)] :=
      Markup.toList_attr "blockId" block
    cases o with
    | setProp block name value =>
      have hwritten : (Markup.attr "blockId" block ++ Markup.attr "name" name ++
          Markup.attr "value" value.plainText).toList =
            attributeChars (setProp block name value).attributes := by
        simp [attributes, Markup.toList_attr, attributeChars]
      simpa [printRest, String.append_assoc] using hbare rfl hwritten
    | setContent block content =>
      have hpair := Markup.spells_pair hwritable (hblock block) (Inline.spells_printAll content)
      simpa [outline, items, printRest, String.append_assoc] using hpair
    | setParameters block parameters =>
      by_cases hempty : parameters.isEmpty = true
      · have hsingle := hbare (by simp [items, hempty]) (hblock block)
        simpa [printRest, hempty, String.append_assoc] using hsingle
      · have hpair := Markup.spells_pair hwritable (hblock block)
          (Markup.spells_sections (Json.obj parameters).text)
        simpa [outline, items, printRest, hempty, String.append_assoc] using hpair
    | rename block new =>
      have hwritten : (Markup.attr "blockId" block ++ Markup.attr "newId" new).toList =
          attributeChars (rename block new).attributes := by
        simp [attributes, Markup.toList_attr, attributeChars]
      simpa [printRest, String.append_assoc] using hbare rfl hwritten
    | insert place nodes =>
      obtain ⟨type, -, hnodes⟩ := hformed
      have hspells := spells_printNodes hl hwritable place.toList_attrs hnodes
      simpa only [outline, items, printRest, String.append_assoc] using hspells
    | delete block => simpa [printRest, String.append_assoc] using hbare rfl (hblock block)
    | replace block nodes =>
      obtain ⟨type, -, hnodes⟩ := hformed
      have hspells := spells_printNodes hl hwritable (hblock block) hnodes
      simpa only [outline, items, printRest, String.append_assoc] using hspells
    | move targets place =>
      have hwritten : (targets.attrs ++ place.attrs).toList =
          attributeChars (move targets place).attributes := by
        rw [String.toList_append, targets.toList_attrs, place.toList_attrs, attributes,
          Markup.attributeChars_append]
      simpa [printRest, String.append_assoc] using hbare rfl hwritten
  have hmargin := Markup.spells_blank (Layout.isAllBlank_margin hl)
  have hblank : Text.isAllBlank "\n" = true := by decide
  have hend := Markup.spells_blank hblank
  have hspells := hmargin.append (hline.append hend)
  simp only [← String.toList_append] at hspells
  simpa [Operation.print, String.append_assoc] using hspells

end Spelling

end LiveDoc.Edit

namespace LiveDoc.Reading

open Markup (Element Item Layout value?)
open Edit (Markers Targets Operation)

variable {g : Grammar} {l : Layout}

section Markers

variable (m : Markers) (t : Targets)

theorem value?_markers :
    value? "afterBlockId" m.attributes = m.after ∧
      value? "atStart" m.attributes = (if m.atStart then some "true" else none) ∧
      value? "atEnd" m.attributes = (if m.atEnd then some "true" else none) := by
  refine ⟨?_, ?_, ?_⟩
  all_goals
    simp [Markers.attributes, Markup.value?_append, Markup.value?_given_self,
      Markup.value?_given_of_ne]

theorem value?_targets :
    value? "blockId" t.attributes = t.block ∧
      value? "blockIds" t.attributes = t.blocks.map (String.intercalate ",") ∧
      value? "fromBlockId" t.attributes = t.first ∧ value? "toBlockId" t.attributes = t.last := by
  refine ⟨?_, ?_, ?_, ?_⟩
  all_goals
    simp [Targets.attributes, Markup.value?_append, Markup.value?_given_self,
      Markup.value?_given_of_ne]

theorem value?_eq_none_of_marker {name : String} :
    (name ∈ ["afterBlockId", "atStart", "atEnd"] → value? name t.attributes = none) ∧
      (name ∈ ["blockId", "blockIds", "fromBlockId", "toBlockId"] →
        value? name m.attributes = none) := by
  refine ⟨fun h => ?_, fun h => ?_⟩
  · simp only [List.mem_cons, List.not_mem_nil, or_false] at h
    rcases h with rfl | rfl | rfl <;>
      simp [Targets.attributes, Markup.value?_append, Markup.value?_given_of_ne]
  · simp only [List.mem_cons, List.not_mem_nil, or_false] at h
    rcases h with rfl | rfl | rfl | rfl <;>
      simp [Markers.attributes, Markup.value?_append, Markup.value?_given_of_ne]

theorem markers_eq {e : Element} {front : List (String × String)}
    (hattributes : e.attributes = front ++ m.attributes)
    (hfront : ∀ name ∈ ["afterBlockId", "atStart", "atEnd"], value? name front = none) :
    markers e = m := by
  obtain ⟨hafter, hstart, hend⟩ := value?_markers m
  simp only [List.forall_mem_cons] at hfront
  simp only [markers, Element.flag, attr?_eq_value?, hattributes, Markup.value?_append, hfront,
    Option.none_or, hafter, hstart, hend]
  cases m with
  | mk after atStart atEnd => cases atStart <;> cases atEnd <;> simp

theorem targets_eq {e : Element} {rest : List (String × String)}
    (hattributes : e.attributes = t.attributes ++ rest)
    (hrest : ∀ name ∈ ["blockId", "blockIds", "fromBlockId", "toBlockId"], value? name rest = none)
    (hlists : ∀ idents ∈ t.blocks, idList (String.intercalate "," idents) = idents) :
    targets e = t := by
  obtain ⟨hblock, hblocks, hfirst, hlast⟩ := value?_targets t
  simp only [List.forall_mem_cons] at hrest
  simp only [targets, attr?_eq_value?, hattributes, Markup.value?_append, hrest, Option.or_none,
    hblock, hblocks, hfirst, hlast]
  cases t with
  | mk block blocks first last =>
    cases blocks with
    | none => rfl
    | some idents => simp [hlists idents rfl]

end Markers

private theorem blocks_nodeItems (hg : g.Printable) (hs : g.Supported)
    (hl : Text.isAllBlank l.indent = true) {type : String} {nodes : Forest}
    (h : Forest.Canonical g type nodes) (path : Path) (parent : String) (supply : IdSupply) :
    blocks g path parent type 0 (Operation.nodeItems l nodes) supply = .ok (nodes, supply) := by
  rw [Operation.nodeItems]
  split
  · rename_i hempty
    rw [List.isEmpty_iff.1 hempty]
    simp [blocks, Read.pure_eq_ok_iff]
  · have htail (index : Nat) :
        blocks g path parent type index [.text l.margin] supply = .ok ([], supply) := by
      rw [blocks_blank (Layout.isAllBlank_margin hl)]
      simp [blocks, Read.pure_eq_ok_iff]
    rw [blocks_blank (by decide)]
    exact blocks_outline hg hs h (l := l.deeper) hl path parent 0 supply htail

theorem operation_outline (hg : g.Printable) (hs : g.Supported) {o : Operation}
    (h : o.Canonical g) (hl : Text.isAllBlank l.indent = true) (path : Path) (supply : IdSupply) :
    operation g path (o.outline l) supply = .ok (o, supply) := by
  obtain ⟨type, htype⟩ := h.type
  refine operation_eq_ok_iff.2 ⟨h.checked, type, htype, ?_⟩
  have hformed := h.formed
  cases o with
  | setProp block name value =>
    obtain ⟨s, rfl⟩ := hformed
    exact .setProp rfl
  | setContent block content =>
    have htakes := takesInlines hg htype hs.model_editContent
    exact .setContent rfl (rich_outlineAll hg hs hformed path _ type htakes)
  | setParameters block parameters =>
    have hinside : jsonObject g path ((Operation.setParameters block parameters).outline l) =
        .ok parameters := by
      have hchecked := h.checked
      by_cases hempty : parameters = []
      · have hnothing : (Operation.setParameters block parameters).items l = [] := by
          simp [Operation.items, hempty]
        rw [Operation.outline, hnothing, jsonObject, checkAttributes_eq_ok_iff.2 hchecked, hempty]
        rfl
      · have hsections : (Operation.setParameters block parameters).items l =
            (Markup.sectionParts (Json.obj parameters).text).map .literal := by
          simp [Operation.items, hempty]
        rw [Operation.outline, hsections]
        exact jsonObject_sections hchecked (hformed.resolve_left hempty).read?_text path
    exact .setParameters rfl hinside
  | rename block new => exact .rename rfl
  | insert place nodes =>
    obtain ⟨type', htype', hnodes⟩ := hformed
    obtain rfl := Option.some_inj.1 (htype.symm.trans htype')
    have hattributes : ((Operation.insert place nodes).outline l).attributes =
        [] ++ place.attributes := rfl
    have hmarkers := markers_eq place hattributes (by simp [value?])
    have hperforms : Performs g path ((Operation.insert place nodes).outline l) type supply _ _ :=
      .insert rfl (blocks_nodeItems hg hs hl hnodes path _ supply)
    rwa [hmarkers] at hperforms
  | delete block => exact .delete rfl
  | replace block nodes =>
    obtain ⟨type', htype', hnodes⟩ := hformed
    obtain rfl := Option.some_inj.1 (htype.symm.trans htype')
    exact .replace rfl (blocks_nodeItems hg hs hl hnodes path _ supply)
  | move targets place =>
    have htargets := targets_eq targets (e := (Operation.move targets place).outline l) rfl
      (fun name hname => (value?_eq_none_of_marker place targets).2 hname) hformed
    have hmarkers := markers_eq place (e := (Operation.move targets place).outline l) rfl
      fun name hname => (value?_eq_none_of_marker place targets).1 hname
    have hperforms : Performs g path ((Operation.move targets place).outline l) type supply _ _ :=
      .move rfl
    rwa [htargets, hmarkers] at hperforms

def outlineOperations (l : Layout) (os : List Operation) : List (Item Element) :=
  os.flatMap fun o => [.text l.margin, .element (o.outline l), .text "\n"]

theorem operations_outline (hg : g.Printable) (hs : g.Supported) {type : String}
    {os : List Operation} (h : ∀ o ∈ os, o.Canonical g ∧ g.allows type o.name = true)
    (hl : Text.isAllBlank l.indent = true) (path : Path) (parent : String) (index : Nat)
    (supply : IdSupply) :
    operations g path parent type index (outlineOperations l os) supply = .ok (os, supply) := by
  induction os generalizing index with
  | nil => simp [outlineOperations, operations, Read.pure_eq_ok_iff]
  | cons o rest ih =>
    obtain ⟨⟨hfirst, hallowed⟩, hrest⟩ := List.forall_mem_cons.1 h
    obtain ⟨_, htype⟩ := hfirst.type
    have hcheck : checkChild g path parent type o.name = .ok () :=
      checkChild_eq_ok_iff.2 ⟨Grammar.has_of_type?_eq_some htype, hallowed⟩
    have hread := operation_outline hg hs hfirst hl (path.down (.nth o.name index)) supply
    have hafter := ih hrest (index + 1)
    have hblank : Text.isAllBlank "\n" = true := by decide
    rw [outlineOperations] at hafter ⊢
    simp only [List.flatMap_cons, List.cons_append, List.nil_append, operations,
      Layout.isAllBlank_margin hl, hblank, if_true, Read.bind_eq_ok_iff, Read.lift_eq_ok_iff,
      Read.pure_eq_ok_iff]
    exact ⟨(), supply, ⟨hcheck, rfl⟩, o, supply, hread, rest, supply, hafter, rfl, rfl⟩

end LiveDoc.Reading
