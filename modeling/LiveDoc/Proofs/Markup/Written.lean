import LiveDoc.Markup.Layout
import LiveDoc.Proofs.Markup.Sections

/-!
# Written elements

Written attributes, margins and elements, character by character, and the items that they spell.
-/

set_option autoImplicit false
set_option relaxedAutoImplicit false

namespace LiveDoc.Markup

def given (name : String) (value : Option String) : List (String × String) :=
  value.toList.map fun value => (name, value)

section Attributes

theorem map_fst_given (name : String) (value : Option String) :
    ((given name value).map Prod.fst).Sublist [name] := by
  cases value <;> simp [given]

theorem attributeChars_append (first second : List (String × String)) :
    attributeChars (first ++ second) = attributeChars first ++ attributeChars second := by
  simp [attributeChars]

theorem attributeChars_cons (a : String × String) (rest : List (String × String)) :
    attributeChars (a :: rest) = attributeChars [a] ++ attributeChars rest :=
  attributeChars_append [a] rest

theorem toList_attr (name value : String) :
    (attr name value).toList = attributeChars [(name, value)] := by
  simp [attr, attributeChars, escape]

theorem toList_attr? (name : String) (value : Option String) :
    (attr? name value).toList = attributeChars (given name value) := by
  cases value with
  | none => rfl
  | some value => exact toList_attr name value

end Attributes

theorem Spells.append {first second : List (Item Element)} {cs ds : List Char} :
    Spells first cs → Spells second ds → Spells (first ++ second) (cs ++ ds)
  | .nil, h => h
  | .text after, h => by
    rw [List.append_assoc]
    exact .text (after.append h)
  | .literal endless after, h => by
    simp only [List.cons_append, List.append_assoc]
    have hall := Spells.literal endless (after.append h)
    simpa only [List.append_assoc] using hall
  | .element inside after, h => by
    rw [List.cons_append, List.cons_append, List.append_assoc]
    exact .element inside (after.append h)

theorem spells_escape (chars : String) : Spells [.text chars] (escape chars).toList := by
  have h : Spells [.text chars] (escapeChars chars.toList ++ []) := .text .nil
  simpa [escape] using h

theorem spells_blank {chars : String} (h : Text.isAllBlank chars = true) :
    Spells [.text chars] chars.toList := by
  have hescape : escapeChars chars.toList = chars.toList :=
    escapeChars_of_blank (by simpa [Text.isAllBlank] using h)
  have hspells := spells_escape chars
  rwa [escape, String.toList_ofList, hescape] at hspells

section Elements

variable {name : String} {attributes : List (String × String)} {written inside : String}
  {items : List (Item Element)}

theorem spells_single (h : Writable name attributes)
    (hwritten : written.toList = attributeChars attributes) :
    Spells [.element ⟨name, attributes, []⟩] ("<" ++ name ++ written ++ "/>").toList := by
  have hspells := Spells.element (SpellsElement.single h) .nil
  simpa [tagChars, hwritten] using hspells

theorem spells_pair (h : Writable name attributes)
    (hwritten : written.toList = attributeChars attributes) (hinside : Spells items inside.toList) :
    Spells [.element ⟨name, attributes, items⟩]
      ("<" ++ name ++ written ++ ">" ++ inside ++ closingTag name).toList := by
  have hspells := Spells.element (SpellsElement.pair h hinside) .nil
  simpa [tagChars, closingTag, hwritten] using hspells

theorem ofText_append_of_spells {e : Element} {tail : String}
    (h : Spells [.element e] written.toList)
    (htail : Text.isAllBlank tail = true) :
    ∃ found, Element.ofText (written ++ tail) = .ok found ∧ found.joined = e.joined := by
  generalize hchars : written.toList = cs at h
  cases h with
  | @element _ _ spelled _ inside after =>
    cases after
    rw [List.append_nil] at hchars
    have hwhole : String.ofList ('<' :: (spelled ++ tail.toList)) = written ++ tail := by
      rw [← List.cons_append, ← hchars, ← String.toList_append, String.ofList_toList]
    rw [← hwhole]
    exact ofText_of_spells inside (by simpa [Text.isAllBlank] using htail)

end Elements

section Margins

variable {l : Layout}

theorem Layout.isAllBlank_margin (h : Text.isAllBlank l.indent = true) :
    Text.isAllBlank l.margin = true := by
  unfold Layout.margin
  split
  · rfl
  · generalize l.level = level
    induction level with
    | zero => rfl
    | succ level ih =>
      simp only [Text.isAllBlank, List.replicate_succ, String.join_cons, String.toList_append,
        List.all_append, Bool.and_eq_true] at h ih ⊢
      exact ⟨h, ih⟩

theorem Layout.isAllBlank_lineEnd : Text.isAllBlank l.lineEnd = true := by
  unfold Layout.lineEnd
  split <;> decide

end Margins

end LiveDoc.Markup
