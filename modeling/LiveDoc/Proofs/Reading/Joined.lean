import LiveDoc.Document.Reader
import LiveDoc.Proofs.Markup.Joined

/-!
# Reading joined elements

However character data is cut into pieces, and whether a piece is text or a section of unescaped
text, the same is read.
-/

set_option autoImplicit false
set_option relaxedAutoImplicit false

namespace LiveDoc

namespace Inline

@[simp] theorem glue_text_empty (styles : List String) (rest : List Inline) :
    glue (.text "" styles) rest = rest := by
  simp [glue]

theorem glue_text_glue_text (first second : String) (styles : List String) (rest : List Inline) :
    glue (.text first styles) (glue (.text second styles) rest) =
      glue (.text (first ++ second) styles) rest := by
  by_cases hfirst : first = ""
  · simp [hfirst]
  · by_cases hsecond : second = ""
    · simp [hsecond]
    · match rest with
      | .text more others :: after =>
        by_cases hsame : styles = others <;>
          simp [glue, hfirst, hsecond, hsame, String.append_assoc]
      | [] => simp [glue, hfirst, hsecond]
      | .var .. :: after => simp [glue, hfirst, hsecond]
      | .mention .. :: after => simp [glue, hfirst, hsecond]
      | .link .. :: after => simp [glue, hfirst, hsecond]
      | .note .. :: after => simp [glue, hfirst, hsecond]

end Inline

namespace Reading

open Markup (Element Item)
open Markup.Element (glueText joinItems)

variable (g : Grammar) (path : Path) (parent type : String)

theorem checkEmpty_joined (e : Element) : checkEmpty path e.joined = checkEmpty path e := by
  unfold checkEmpty
  rw [Element.firstChild?_joined, Element.text_joined, Element.joined_name]
  cases e.firstChild? <;> simp

private theorem rich_glueText (styles : List String) (chars : String)
    (items : List (Item Element)) :
    rich g path parent type styles (glueText chars items) =
      rich g path parent type styles (.text chars :: items) := by
  refine Element.apply_glueText (fun items => ?_) (fun first second rest => ?_) chars items
  · rw [rich]
    cases rich g path parent type styles items <;> simp [bind, Except.bind]
  · rw [rich, rich, rich]
    cases rich g path parent type styles rest <;>
      simp [bind, Except.bind, Inline.glue_text_glue_text]

mutual

theorem inline_joined (path : Path) (styles : List String) :
    ∀ e : Element, inline g path styles e.joined = inline g path styles e
  | ⟨name, attributes, items⟩ => by
    have hempty := checkEmpty_joined path ⟨name, attributes, items⟩
    rw [Element.joined] at hempty ⊢
    simp only [inline, hempty, rich_joined path _ _ _ items, Element.attr, Element.attr?]
termination_by structural e => e

theorem rich_joined (path : Path) (parent type : String) (styles : List String) :
    ∀ items : List (Item Element),
      rich g path parent type styles (joinItems items) = rich g path parent type styles items
  | [] => rfl
  | .text chars :: rest => by
    rw [joinItems, rich_glueText, rich, rich_joined path parent type styles rest, rich]
  | .literal chars :: rest => by
    rw [joinItems, rich_glueText, rich, rich_joined path parent type styles rest, rich]
  | .element inner :: rest => by
    rw [joinItems, rich, rich_joined path parent type styles rest, rich]
    simp only [Element.joined_name, inline_joined path styles inner]
termination_by structural items => items

end

theorem jsonObject_joined (e : Element) : jsonObject g path e.joined = jsonObject g path e := by
  unfold jsonObject
  rw [Element.firstChild?_joined, Element.text_joined, Element.joined_name,
    Element.joined_attributes]
  cases e.firstChild? <;> simp

private theorem callParts_glueText (parts : CallParts) (chars : String)
    (items : List (Item Element)) :
    callParts g path parent type parts (glueText chars items) =
      callParts g path parent type parts (.text chars :: items) := by
  refine Element.apply_glueText (fun items => ?_) (fun first second rest => ?_) chars items
  · simp [callParts, Text.isAllBlank]
  · simp only [callParts, Text.isAllBlank, String.toList_append, List.all_append,
      Bool.and_eq_true]
    by_cases hblank : first.toList.all Text.isBlank = true <;> simp [hblank]

theorem callParts_joined (parts : CallParts) (items : List (Item Element)) :
    callParts g path parent type parts (joinItems items) =
      callParts g path parent type parts items := by
  induction items generalizing parts with
  | nil => rfl
  | cons item rest ih =>
    cases item with
    | text chars => rw [joinItems, callParts_glueText, callParts, ih, callParts]
    | literal chars => rw [joinItems, callParts_glueText, callParts, ih, callParts]
    | element inner =>
      simp only [joinItems, callParts, ih, Element.joined_name, Element.joined_items,
        jsonObject_joined, rich_joined]

theorem nodeId_joined (e : Element) : nodeId e.joined = nodeId e := by
  rw [nodeId, Element.attr?_joined, nodeId]

theorem call_joined (e : Element) : call g path e.joined = call g path e := by
  simp only [call, nodeId_joined, Element.attr_joined, Element.attr?_joined, Element.joined_name,
    Element.joined_attributes, Element.joined_items, callParts_joined]

private theorem blocks_glueText (index : Nat) (chars : String) (items : List (Item Element)) :
    blocks g path parent type index (glueText chars items) =
      blocks g path parent type index (.text chars :: items) := by
  refine Element.apply_glueText (fun items => ?_) (fun first second rest => ?_) chars items
  · simp [blocks, Text.isAllBlank]
  · simp only [blocks, Text.isAllBlank, String.toList_append, List.all_append, Bool.and_eq_true]
    by_cases hblank : first.toList.all Text.isBlank = true <;> simp [hblank]

private theorem mixed_glueText (index : Nat) (chars : String) (items : List (Item Element)) :
    mixed g path parent type index (glueText chars items) =
      mixed g path parent type index (.text chars :: items) := by
  refine Element.apply_glueText (fun items => ?_) (fun first second rest => ?_) chars items
  · simp [mixed, Inline.plain]
  · simp [mixed, Inline.plain, Inline.glue_text_glue_text]

mutual

theorem node_joined (path : Path) : ∀ e : Element, node g path e.joined = node g path e
  | ⟨name, attributes, items⟩ => by
    have hempty := checkEmpty_joined path ⟨name, attributes, items⟩
    have hcall := call_joined g path ⟨name, attributes, items⟩
    have hchild := Element.firstChild?_joined ⟨name, attributes, items⟩
    have htext := Element.text_joined ⟨name, attributes, items⟩
    have hident := nodeId_joined ⟨name, attributes, items⟩
    rw [Element.joined] at hempty hcall hchild htext hident ⊢
    simp only [node, hempty, hcall, htext, hchild, hident,
      mixed_joined path name _ _ items, blocks_joined path name _ _ items]
    cases Element.firstChild? ⟨name, attributes, items⟩ <;> simp
termination_by structural e => e

theorem blocks_joined (path : Path) (parent type : String) (index : Nat) :
    ∀ items : List (Item Element),
      blocks g path parent type index (joinItems items) = blocks g path parent type index items
  | [] => rfl
  | .text chars :: rest => by
    rw [joinItems, blocks_glueText, blocks, blocks_joined path parent type index rest, blocks]
  | .literal chars :: rest => by
    rw [joinItems, blocks_glueText, blocks, blocks_joined path parent type index rest, blocks]
  | .element inner :: rest => by
    rw [joinItems, blocks, blocks_joined path parent type (index + 1) rest, blocks]
    simp only [Element.joined_name, node_joined _ inner]
termination_by structural items => items

theorem mixed_joined (path : Path) (parent type : String) (index : Nat) :
    ∀ items : List (Item Element),
      mixed g path parent type index (joinItems items) = mixed g path parent type index items
  | [] => rfl
  | .text chars :: rest => by
    rw [joinItems, mixed_glueText, mixed, mixed_joined path parent type index rest, mixed]
  | .literal chars :: rest => by
    rw [joinItems, mixed_glueText, mixed, mixed_joined path parent type index rest, mixed]
  | .element inner :: rest => by
    rw [joinItems, mixed, mixed_joined path parent type index rest,
      mixed_joined path parent type (index + 1) rest, mixed]
    simp only [Element.joined_name, node_joined _ inner, inline_joined]
termination_by structural items => items

end

theorem operation_joined (e : Element) : operation g path e.joined = operation g path e := by
  simp only [operation, markers, targets, Element.joined_name, Element.joined_attributes,
    Element.joined_items, Element.attr_joined, Element.attr?_joined, Element.flag_joined,
    rich_joined, blocks_joined, jsonObject_joined]

private theorem operations_glueText (index : Nat) (chars : String) (items : List (Item Element)) :
    operations g path parent type index (glueText chars items) =
      operations g path parent type index (.text chars :: items) := by
  refine Element.apply_glueText (fun items => ?_) (fun first second rest => ?_) chars items
  · simp [operations, Text.isAllBlank]
  · simp only [operations, Text.isAllBlank, String.toList_append, List.all_append,
      Bool.and_eq_true]
    by_cases hblank : first.toList.all Text.isBlank = true <;> simp [hblank]

theorem operations_joined (index : Nat) (items : List (Item Element)) :
    operations g path parent type index (joinItems items) =
      operations g path parent type index items := by
  induction items generalizing index with
  | nil => rfl
  | cons item rest ih =>
    cases item with
    | text chars => rw [joinItems, operations_glueText, operations, ih, operations]
    | literal chars => rw [joinItems, operations_glueText, operations, ih, operations]
    | element inner =>
      rw [joinItems, operations, ih, operations]
      simp only [Element.joined_name, operation_joined]

theorem source_joined (root : Element) (ident : String) :
    source g root.joined ident = source g root ident := by
  simp only [source, agent, document, diff, Element.joined_name, Element.joined_attributes,
    Element.joined_items, Element.attr?_joined, blocks_joined, operations_joined]

end Reading

end LiveDoc
