import LiveDoc.Markup.Element
import LiveDoc.Text.Blank

/-!
# Elements of a tree

Trees of markup by induction, the elements in a tree, and the character data directly inside one of
them.
-/

set_option autoImplicit false
set_option relaxedAutoImplicit false

namespace LiveDoc.Markup

namespace Item

variable {α : Type}

def element? : Item α → Option α
  | .element inner => some inner
  | .text _ | .literal _ => none

def chars : Item α → String
  | .text chars | .literal chars => chars
  | .element _ => ""

end Item

namespace Element

mutual

def decEq : (a b : Element) → Decidable (a = b)
  | ⟨name, attributes, items⟩, ⟨name', attributes', items'⟩ =>
    have := decEqItems items items'
    decidable_of_iff (name = name' ∧ attributes = attributes' ∧ items = items') (by simp)
termination_by structural a => a

def decEqItems : (xs ys : List (Item Element)) → Decidable (xs = ys)
  | [], [] => isTrue rfl
  | [], _ :: _ => isFalse nofun
  | _ :: _, [] => isFalse nofun
  | .text s :: xs, y :: ys =>
    match y with
    | .text t =>
      have := decEqItems xs ys
      decidable_of_iff (s = t ∧ xs = ys) (by simp)
    | .literal _ | .element _ => isFalse (by simp)
  | .literal s :: xs, y :: ys =>
    match y with
    | .literal t =>
      have := decEqItems xs ys
      decidable_of_iff (s = t ∧ xs = ys) (by simp)
    | .text _ | .element _ => isFalse (by simp)
  | .element a :: xs, y :: ys =>
    match y with
    | .element b =>
      have := a.decEq b
      have := decEqItems xs ys
      decidable_of_iff (a = b ∧ xs = ys) (by simp)
    | .text _ | .literal _ => isFalse (by simp)
termination_by structural xs => xs

end

instance : DecidableEq Element := decEq

/-- The elements directly inside, in order. -/
def children (e : Element) : List Element := e.items.filterMap Item.element?

mutual

/-- An element and all below it, each before what is below it. -/
def elements : Element → List Element
  | ⟨name, attributes, items⟩ => ⟨name, attributes, items⟩ :: elementsOfItems items
termination_by structural e => e

def elementsOfItems : List (Item Element) → List Element
  | [] => []
  | .text _ :: rest => elementsOfItems rest
  | .literal _ :: rest => elementsOfItems rest
  | .element inner :: rest => inner.elements ++ elementsOfItems rest
termination_by structural items => items

end

mutual

/-- What holds of every element of which the items are as they should be holds of all elements, and
all items are as they should be. -/
theorem induct {P : Element → Prop} {Q : List (Item Element) → Prop}
    (mk : ∀ name attributes items, Q items → P ⟨name, attributes, items⟩) (nil : Q [])
    (text : ∀ chars rest, Q rest → Q (.text chars :: rest))
    (literal : ∀ chars rest, Q rest → Q (.literal chars :: rest))
    (element : ∀ inner rest, P inner → Q rest → Q (.element inner :: rest)) : ∀ e, P e
  | ⟨name, attributes, items⟩ =>
    mk name attributes items (induct_items mk nil text literal element items)
termination_by structural e => e

theorem induct_items {P : Element → Prop} {Q : List (Item Element) → Prop}
    (mk : ∀ name attributes items, Q items → P ⟨name, attributes, items⟩) (nil : Q [])
    (text : ∀ chars rest, Q rest → Q (.text chars :: rest))
    (literal : ∀ chars rest, Q rest → Q (.literal chars :: rest))
    (element : ∀ inner rest, P inner → Q rest → Q (.element inner :: rest)) : ∀ items, Q items
  | [] => nil
  | .text chars :: rest => text chars rest (induct_items mk nil text literal element rest)
  | .literal chars :: rest => literal chars rest (induct_items mk nil text literal element rest)
  | .element inner :: rest =>
    element inner rest (induct mk nil text literal element inner)
      (induct_items mk nil text literal element rest)
termination_by structural items => items

end

theorem mem_elementsOfItems_iff {d : Element} {items : List (Item Element)} :
    d ∈ elementsOfItems items ↔ ∃ inner, .element inner ∈ items ∧ d ∈ inner.elements := by
  induction items with
  | nil => simp [elementsOfItems]
  | cons item rest ih => cases item <;> simp [elementsOfItems, ih, or_and_right, exists_or]

theorem mem_elements_self (e : Element) : e ∈ e.elements := by
  cases e
  exact List.mem_cons_self

theorem mem_elements_of_items {e d : Element} (h : d ∈ elementsOfItems e.items) :
    d ∈ e.elements := by
  cases e
  exact List.mem_cons_of_mem _ h

theorem mem_elements_of_child {e inner d : Element} (h : inner ∈ e.children)
    (hd : d ∈ inner.elements) : d ∈ e.elements := by
  obtain ⟨item, hitem, heq⟩ := List.mem_filterMap.1 h
  cases item with
  | element other =>
    obtain rfl := Option.some.inj heq
    exact mem_elements_of_items (mem_elementsOfItems_iff.2 ⟨_, hitem, hd⟩)
  | text chars | literal chars => simp [Item.element?] at heq

theorem mem_elements_trans {e d : Element} (hd : d ∈ e.elements) :
    ∀ root : Element, e ∈ root.elements → d ∈ root.elements := by
  refine induct (Q := fun items => e ∈ elementsOfItems items → d ∈ elementsOfItems items) ?mk
    (fun he => absurd he List.not_mem_nil) (fun _ _ ih => ih) (fun _ _ ih => ih) ?element
  case mk =>
    intro name attributes items hinside he
    rcases List.mem_cons.1 he with rfl | he
    · exact hd
    · exact List.mem_cons_of_mem _ (hinside he)
  case element =>
    intro inner rest hinner hrest he
    rcases List.mem_append.1 he with he | he
    · exact List.mem_append_left _ (hinner he)
    · exact List.mem_append_right _ (hrest he)

theorem mem_children_iff {e inner : Element} : inner ∈ e.children ↔ .element inner ∈ e.items := by
  simp only [children, List.mem_filterMap]
  constructor
  · rintro ⟨item, hitem, h⟩
    cases item with
    | element other =>
      obtain rfl := Option.some.inj h
      exact hitem
    | text chars | literal chars => simp [Item.element?] at h
  · exact fun h => ⟨_, h, rfl⟩

theorem firstChild?_eq (e : Element) : e.firstChild? = e.children.head? := by
  rw [children, List.head?_filterMap, firstChild?]
  congr 1
  funext item
  cases item <;> rfl

theorem firstChild?_eq_none_iff {e : Element} : e.firstChild? = none ↔ e.children = [] := by
  rw [firstChild?_eq, List.head?_eq_none_iff]

theorem elementsOfItems_eq_nil {e : Element} (h : e.children = []) :
    elementsOfItems e.items = [] := by
  obtain ⟨name, attributes, items⟩ := e
  simp only [children] at h ⊢
  induction items with
  | nil => rfl
  | cons item rest ih =>
    cases item with
    | text chars => exact ih (by simpa [Item.element?] using h)
    | literal chars => exact ih (by simpa [Item.element?] using h)
    | element inner => simp [Item.element?] at h

theorem isAllBlank_text_iff {e : Element} :
    Text.isAllBlank e.text = true ↔ ∀ item ∈ e.items, Text.isAllBlank item.chars = true := by
  obtain ⟨name, attributes, items⟩ := e
  simp only [text, Text.isAllBlank]
  induction items with
  | nil => simp
  | cons item rest ih => cases item <;> simp_all [Item.chars]

end Element

end LiveDoc.Markup
