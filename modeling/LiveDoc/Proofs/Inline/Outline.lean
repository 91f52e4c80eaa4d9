import LiveDoc.Inline.Printer
import LiveDoc.Proofs.Markup.Written

/-!
# Outlines of inline content

The items of markup that inline content is written as.
-/

set_option autoImplicit false
set_option relaxedAutoImplicit false

namespace LiveDoc.Inline

open Markup (Element Item given Writable Spells)

/-- The element that a piece is written as; text without styles is written without one. -/
def element : Inline → String
  | .text .. => "span"
  | .var .. => "variable"
  | .mention .. => "mention"
  | .link .. => "link"
  | .note .. => "annotation"

def attributes : Inline → List (String × String)
  | .text _ styles => [("styles", String.intercalate " " (Style.canonical styles))]
  | .var name prompt value =>
    ("name", name) :: (given "prompt" prompt ++ given "value" (value.map Json.plainText))
  | .mention kind ident label => [("id", ident), ("type", kind), ("label", label)]
  | .link href _ => [("href", href)]
  | .note title comment _ => given "title" title ++ given "comment" comment

mutual

def outline : Inline → Item Element
  | .text chars styles =>
    if styles.isEmpty then .text chars
    else .element ⟨"span", (Inline.text chars styles).attributes, [.text chars]⟩
  | .var name prompt value => .element ⟨"variable", (Inline.var name prompt value).attributes, []⟩
  | .mention kind ident label =>
    .element ⟨"mention", (Inline.mention kind ident label).attributes, []⟩
  | .link href content =>
    .element ⟨"link", (Inline.link href content).attributes, outlineAll content⟩
  | .note title comment content =>
    .element ⟨"annotation", (Inline.note title comment content).attributes, outlineAll content⟩
termination_by structural i => i

def outlineAll : List Inline → List (Item Element)
  | [] => []
  | item :: rest => item.outline :: outlineAll rest
termination_by structural items => items

end

/-- The names of the attributes that a piece is written with, if all of them have a value. -/
def attributeNames : Inline → List String
  | .text .. => ["styles"]
  | .var .. => ["name", "prompt", "value"]
  | .mention .. => ["id", "type", "label"]
  | .link .. => ["href"]
  | .note .. => ["title", "comment"]

theorem map_fst_attributes (item : Inline) :
    (item.attributes.map Prod.fst).Sublist item.attributeNames := by
  cases item with
  | var name prompt value =>
    rw [attributes, List.map_cons, List.map_append]
    exact .cons_cons "name" ((Markup.map_fst_given "prompt" prompt).append
      (Markup.map_fst_given "value" _))
  | note title comment content =>
    rw [attributes, List.map_append]
    exact (Markup.map_fst_given "title" title).append (Markup.map_fst_given "comment" comment)
  | _ => exact .refl _

theorem writable (item : Inline) : Writable item.element item.attributes := by
  have hsub := item.map_fst_attributes
  have hnames : item.attributeNames.all Markup.isAttributeName = true := by
    cases item <;> rw [attributeNames] <;> decide
  refine ⟨?_, fun a ha => ?_, ?_⟩
  · cases item <;> rw [element] <;> decide
  · exact List.all_eq_true.1 hnames a.1 (hsub.subset (List.mem_map_of_mem ha))
  · refine hsub.nodup ?_
    cases item <;> rw [attributeNames] <;> decide

mutual

theorem spells_print : ∀ item : Inline, Spells [item.outline] item.print.toList
  | .text chars styles => by
    rw [outline, print]
    split
    · exact Markup.spells_escape chars
    · have hspells := Markup.spells_pair (writable (.text chars styles))
        (Markup.toList_attr _ _) (Markup.spells_escape chars)
      simpa [Markup.closingTag, element] using hspells
  | .var name prompt value => by
    have hattributes : (Markup.attr "name" name ++ Markup.attr? "prompt" prompt ++
        Markup.attr? "value" (value.map Json.plainText)).toList =
          Markup.attributeChars (Inline.var name prompt value).attributes := by
      rw [attributes, Markup.attributeChars_cons, Markup.attributeChars_append]
      simp only [String.toList_append, Markup.toList_attr, Markup.toList_attr?, List.append_assoc]
    have hspells := Markup.spells_single (writable (.var name prompt value)) hattributes
    simpa [outline, print, element] using hspells
  | .mention kind ident label => by
    have hattributes : (Markup.attr "id" ident ++ Markup.attr "type" kind ++
        Markup.attr "label" label).toList =
          Markup.attributeChars (Inline.mention kind ident label).attributes := by
      rw [attributes, Markup.attributeChars_cons, Markup.attributeChars_cons ("type", kind)]
      simp only [String.toList_append, Markup.toList_attr, List.append_assoc]
    have hspells := Markup.spells_single (writable (.mention kind ident label)) hattributes
    simpa [outline, print, element] using hspells
  | .link href content => by
    have hspells := Markup.spells_pair (writable (.link href content)) (Markup.toList_attr _ _)
      (spells_printAll content)
    simpa [outline, print, element, Markup.closingTag] using hspells
  | .note title comment content => by
    have hattributes : (Markup.attr? "title" title ++ Markup.attr? "comment" comment).toList =
        Markup.attributeChars (Inline.note title comment content).attributes := by
      rw [attributes, Markup.attributeChars_append]
      simp only [String.toList_append, Markup.toList_attr?]
    have hspells := Markup.spells_pair (writable (.note title comment content)) hattributes
      (spells_printAll content)
    simpa [outline, print, element, Markup.closingTag] using hspells
termination_by structural item => item

theorem spells_printAll : ∀ content : List Inline,
    Spells (outlineAll content) (printAll content).toList
  | [] => by
    rw [outlineAll, printAll]
    exact .nil
  | item :: rest => by
    rw [outlineAll, printAll, String.toList_append]
    exact (spells_print item).append (spells_printAll rest)
termination_by structural content => content

end

end LiveDoc.Inline
