import LiveDoc.Proofs.Markup.Elements

/-!
# Joined character data

Elements in which no two pieces of character data stand side by side and none is empty. Trees that
are the same when joined differ only in how their character data is cut into pieces.
-/

set_option autoImplicit false
set_option relaxedAutoImplicit false

namespace LiveDoc.Markup

namespace Element

/-- Puts character data in front of items, together with that at their front. -/
def glueText (chars : String) : List (Item Element) → List (Item Element)
  | .text more :: rest => .text (chars ++ more) :: rest
  | items => if chars.isEmpty then items else .text chars :: items

mutual

/-- An element with its character data joined. -/
def joined : Element → Element
  | ⟨name, attributes, items⟩ => ⟨name, attributes, joinItems items⟩
termination_by structural e => e

def joinItems : List (Item Element) → List (Item Element)
  | [] => []
  | .text chars :: rest => glueText chars (joinItems rest)
  | .literal chars :: rest => glueText chars (joinItems rest)
  | .element inner :: rest => .element inner.joined :: joinItems rest
termination_by structural items => items

end

@[simp] theorem joined_name (e : Element) : e.joined.name = e.name := by
  cases e; rfl

@[simp] theorem joined_attributes (e : Element) : e.joined.attributes = e.attributes := by
  cases e; rfl

@[simp] theorem attr?_joined (e : Element) (name : String) :
    e.joined.attr? name = e.attr? name := by
  cases e; rfl

@[simp] theorem attr_joined (e : Element) (name : String) : e.joined.attr name = e.attr name := by
  cases e; rfl

@[simp] theorem flag_joined (e : Element) (name : String) : e.joined.flag name = e.flag name := by
  cases e; rfl

@[simp] theorem joined_items (e : Element) : e.joined.items = joinItems e.items := by
  cases e; rfl

@[simp] theorem glueText_empty (items : List (Item Element)) : glueText "" items = items := by
  unfold glueText
  split <;> simp

/-- What makes the same of two pieces of text as of both put together, and nothing of the empty one,
makes the same of joined character data. -/
theorem apply_glueText {β : Type} {f : List (Item Element) → β}
    (hempty : ∀ items, f (.text "" :: items) = f items)
    (hjoin : ∀ first second rest,
      f (.text first :: .text second :: rest) = f (.text (first ++ second) :: rest))
    (chars : String) (items : List (Item Element)) :
    f (glueText chars items) = f (.text chars :: items) := by
  unfold glueText
  split
  · exact (hjoin _ _ _).symm
  · split
    · rename_i hchars
      rw [String.isEmpty_iff.1 hchars, hempty]
    · rfl

theorem glueText_glueText (first second : String) (items : List (Item Element)) :
    glueText first (glueText second items) = glueText (first ++ second) items := by
  by_cases hsecond : second = ""
  · simp [hsecond]
  · match items with
    | .text more :: rest => simp [glueText, String.append_assoc]
    | [] => simp [glueText, hsecond]
    | .literal chars :: rest => simp [glueText, hsecond]
    | .element inner :: rest => simp [glueText, hsecond]

theorem joinItems_append {left right : List (Item Element)} (h : joinItems left = joinItems right)
    (front : List (Item Element)) : joinItems (front ++ left) = joinItems (front ++ right) := by
  induction front with
  | nil => exact h
  | cons item rest ih => cases item <;> simp [joinItems, ih]

section Reading

private theorem findSome?_glueText (chars : String) (items : List (Item Element)) :
    firstChild? ⟨"", [], glueText chars items⟩ = firstChild? ⟨"", [], items⟩ := by
  unfold glueText
  split
  · simp [firstChild?]
  · split <;> simp [firstChild?]

theorem firstChild?_joined (e : Element) : e.joined.firstChild? = e.firstChild?.map joined := by
  obtain ⟨name, attributes, items⟩ := e
  have hname (items : List (Item Element)) :
      firstChild? ⟨name, attributes, items⟩ = firstChild? ⟨"", [], items⟩ := rfl
  simp only [joined, hname]
  induction items with
  | nil => rfl
  | cons item rest ih =>
    cases item with
    | text chars => rw [joinItems, findSome?_glueText, ih]; simp [firstChild?]
    | literal chars => rw [joinItems, findSome?_glueText, ih]; simp [firstChild?]
    | element inner => simp [joinItems, firstChild?]

private theorem text_glueText (chars : String) (items : List (Item Element)) :
    text ⟨"", [], glueText chars items⟩ = chars ++ text ⟨"", [], items⟩ := by
  unfold glueText
  split
  · simp [text, String.append_assoc]
  · split <;> simp_all [text]

theorem text_joined (e : Element) : e.joined.text = e.text := by
  obtain ⟨name, attributes, items⟩ := e
  have hname (items : List (Item Element)) :
      text ⟨name, attributes, items⟩ = text ⟨"", [], items⟩ := rfl
  simp only [joined, hname]
  induction items with
  | nil => rfl
  | cons item rest ih =>
    cases item with
    | text chars => rw [joinItems, text_glueText, ih]; simp [text]
    | literal chars => rw [joinItems, text_glueText, ih]; simp [text]
    | element inner => simpa [joinItems, text] using ih

private theorem idsOfItems_glueText (chars : String) (items : List (Item Element)) :
    idsOfItems (glueText chars items) = idsOfItems items := by
  unfold glueText
  split
  · rfl
  · split <;> rfl

theorem idsOfItems_joinItems : ∀ items : List (Item Element),
    idsOfItems (joinItems items) = idsOfItems items := by
  refine induct_items (P := fun e => e.joined.ids = e.ids) ?mk rfl ?text ?literal ?element
  case mk =>
    intro name attributes items hinside
    rw [joined, ids, hinside, ids]
  case text =>
    intro chars rest hrest
    rw [joinItems, idsOfItems_glueText, hrest, idsOfItems]
  case literal =>
    intro chars rest hrest
    rw [joinItems, idsOfItems_glueText, hrest, idsOfItems]
  case element =>
    intro inner rest hinner hrest
    rw [joinItems, idsOfItems, hinner, hrest, idsOfItems]

end Reading

end Element

end LiveDoc.Markup
