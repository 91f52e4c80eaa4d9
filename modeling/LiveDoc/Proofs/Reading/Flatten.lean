import LiveDoc.Proofs.Inline.Leaves
import LiveDoc.Proofs.Reading.InlineForm
import LiveDoc.Proofs.Reading.Node
import LiveDoc.Proofs.Reading.Operation

/-!
# Flattening

Nested formatting is read as a flat list of pieces. The leaves of an element say what this list has
to hold: every character once and in order, with the styles of all formatting around it, and what is
no text in its place. Wherever inline content is read, it has exactly these leaves, in normal form.
-/

set_option autoImplicit false
set_option relaxedAutoImplicit false

namespace LiveDoc

namespace Markup.Element

/-- The formatting elements other than spans, with their styles. -/
def formats : List (String × String) :=
  [("b", "bold"), ("strong", "bold"), ("i", "italic"), ("em", "italic"), ("u", "underline"),
    ("s", "strikethrough"), ("del", "strikethrough"), ("code", "code")]

def atoms : List String := ["link", "annotation", "variable", "mention"]

/-- The styles that an element of formatting puts on the text in it. -/
def formatting? (e : Element) : Option (List String) :=
  if e.name = "span" then some (Text.words (e.attr "styles"))
  else (formats.lookup e.name).map fun style => [style]

def isInlineName (name : String) : Bool :=
  name = "span" || (formats.lookup name).isSome || atoms.contains name

mutual

/-- The leaves of an element in text of some styles; an element that is not inline has none. -/
def leaves (around : List String) : Element → List Leaf
  | ⟨name, attributes, items⟩ =>
    let e : Element := ⟨name, attributes, items⟩
    match e.formatting? with
    | some styles => leavesOf (around ++ styles) items
    | none =>
      match name with
      | "link" => [.link (e.attr "href") (leavesOf around items)]
      | "annotation" => [.note (e.attr? "title") (e.attr? "comment") (leavesOf around items)]
      | "variable" =>
        [.var (e.attr "name") ((e.attr? "prompt").filter (!·.isEmpty))
          ((e.attr? "value").map .str)]
      | "mention" => [.mention (e.attr "type") (e.attr "id") (e.attr "label")]
      | _ => []
termination_by structural e => e

/-- The leaves of what stands in an element, in text of some styles. -/
def leavesOf (around : List String) : List (Item Element) → List Leaf
  | [] => []
  | .text chars :: rest => Leaf.chars chars (Style.listed around) ++ leavesOf around rest
  | .literal chars :: rest => Leaf.chars chars (Style.listed around) ++ leavesOf around rest
  | .element inner :: rest => inner.leaves around ++ leavesOf around rest
termination_by structural items => items

end

def richBlocks : List String :=
  ["p", "h1", "h2", "h3", "h4", "h5", "h6", "blockquote", "li"]

def calls : List String := ["fncall", "trigger"]

def blocksOf (items : List (Item Element)) : List Element :=
  (items.filterMap Item.element?).filter (!isInlineName ·.name)

end Markup.Element

namespace Grammar

open Markup.Element (formats atoms isInlineName richBlocks calls)

/-- What flattening takes for granted of a grammar: what its inline elements are called and which of
them are for formatting, and which elements make blocks of rich content and calls. -/
structure Flattens (g : Grammar) : Prop where
  styles : ∀ e ∈ g.entries, Reading.styleOf? e.type = formats.lookup e.spec.name
  inlines : ∀ e ∈ g.entries, (e.spec.kind = .inline ↔ isInlineName e.spec.name = true)
  atoms : ∀ e ∈ g.entries, ∀ name ∈ "span" :: atoms, (e.type = name ↔ e.spec.name = name)
  rich : ∀ e ∈ g.entries, e.spec.name ∈ richBlocks → e.spec.content = .rich
  calls : ∀ e ∈ g.entries, (e.spec.kind = .executable ↔ e.spec.name ∈ calls)

theorem Standard.flattens : Standard.grammar.Flattens where
  styles := by decide +kernel
  inlines := by decide +kernel
  atoms := by decide +kernel
  rich := by decide +kernel
  calls := by decide +kernel

end Grammar

open Markup (Element Item)

/-- Content is the flattening of what it is read from: it has its leaves, in normal form. -/
structure Flat (items : List (Item Element)) (content : List Inline) : Prop where
  leaves : Inline.leavesOf content = Element.leavesOf [] items
  normal : Inline.NormalAll content

/-- The instructions of a call are the flattening of the content element in it; without one there
are none. -/
def Call.Shows (c : Call) (e : Element) : Prop :=
  match e.children.find? (·.name = "content") with
  | some inner => Flat inner.items c.instructions
  | none => c.instructions = []

mutual

/-- The content of a node is the flattening of its element, where this holds rich content, and the
nodes below it show the elements below this one. -/
def Node.Shows : Node → Element → Prop
  | .block head none, e =>
    e.name ∉ Element.calls ∧ (e.name ∈ Element.richBlocks → Flat e.items head.content) ∧
      Element.blocksOf e.items = []
  | .block head (some children), e =>
    e.name ∉ Element.calls ∧ (e.name ∈ Element.richBlocks → Flat e.items head.content) ∧
      Forest.Shows children (Element.blocksOf e.items)
  | .call c, e => e.name ∈ Element.calls ∧ c.Shows e
termination_by structural n => n

/-- The nodes of a list of siblings show the elements of another list, one by one. -/
def Forest.Shows : List Node → List Element → Prop
  | [], es => es = []
  | n :: rest, es => ∃ e others, es = e :: others ∧ n.Shows e ∧ Forest.Shows rest others
termination_by structural ns => ns

end

/-- The content that an operation sets is the flattening of its element, and the nodes that it
carries show the elements in it. -/
def Edit.Operation.Shows (o : Edit.Operation) (e : Element) : Prop :=
  match o with
  | .setContent _ content => e.name = "edit:content" ∧ Flat e.items content
  | .insert _ nodes => e.name = "insert" ∧ Forest.Shows nodes (Element.blocksOf e.items)
  | .replace _ nodes => e.name = "replace" ∧ Forest.Shows nodes (Element.blocksOf e.items)
  | .setProp .. | .setParameters .. | .rename .. | .delete _ | .move .. =>
    e.name ∉ ["edit:content", "insert", "replace"]

/-- All rich content of a source is the flattening of the elements that it is read from. -/
def Source.Shows (s : Source) (root : Element) : Prop :=
  match s with
  | .document d => Forest.Shows d.nodes (Element.blocksOf root.items)
  | .agent a => Forest.Shows a.document.nodes (Element.blocksOf root.items)
  | .diff d => List.Forall₂ Edit.Operation.Shows d.operations root.children

namespace Reading

open Markup (Element Item)
open Inline (leavesOf_glue leavesOf_glueAll)

variable {g : Grammar}

theorem isInline_eq (hf : g.Flattens) {name : String} (hhas : g.has name = true) :
    g.isInline name = Element.isInlineName name := by
  obtain ⟨e, he⟩ := Option.isSome_iff_exists.1 hhas
  obtain ⟨hmem, rfl⟩ := Grammar.entry?_eq_some he
  rw [Bool.eq_iff_iff, ← hf.inlines e hmem]
  simp [Grammar.isInline, Grammar.spec?, he]

theorem leaves_eq_nil {e : Element} (h : Element.isInlineName e.name = false)
    (around : List String) : e.leaves around = [] := by
  obtain ⟨name, attributes, items⟩ := e
  simp only [Element.isInlineName, Element.atoms, Bool.or_eq_false_iff, decide_eq_false_iff_not,
    Option.isSome_eq_false_iff, Option.isNone_iff_eq_none] at h
  obtain ⟨⟨hspan, hformats⟩, hatoms⟩ := h
  have hnone : Element.formatting? ⟨name, attributes, items⟩ = none := by
    simp [Element.formatting?, hspan, hformats]
  simp only [Element.leaves, hnone]
  split <;> simp_all

private theorem formatting?_eq_none {e : Element} (h : e.name ∈ Element.atoms) :
    e.formatting? = none := by
  have hall : ∀ name ∈ Element.atoms, name ≠ "span" ∧ Element.formats.lookup name = none := by
    decide
  obtain ⟨hspan, hformats⟩ := hall e.name h
  rw [Element.formatting?, if_neg hspan, hformats, Option.map_none]

theorem leaves_eq_of_formatting {e : Element} {styles : List String}
    (h : e.formatting? = some styles) (around : List String) :
    e.leaves around = Element.leavesOf (around ++ styles) e.items := by
  obtain ⟨name, attributes, items⟩ := e
  simp only [Element.leaves, h]

mutual

theorem inline_leaves (hg : g.Printable) (hf : g.Flattens) {path : Path} {around : List String}
    {found : List Inline} (hknown : ∀ style ∈ around, style ∈ Style.known) :
    ∀ e : Element, inline g path (Style.listed around) e = .ok found →
      Inline.leavesOf found = e.leaves around
  | ⟨name, attributes, items⟩, h => by
    simp only [inline, bind_eq_ok_iff, typeOf_eq_ok_iff] at h
    obtain ⟨⟨⟩, hcheck, type, htype, h⟩ := h
    have hattributes := checkAttributes_eq_ok_iff.1 hcheck
    obtain ⟨entry, hentry, hentryType⟩ := Grammar.type?_eq_some_iff.1 htype
    obtain ⟨hmem, hname⟩ := Grammar.entry?_eq_some hentry
    have hstyle := hf.styles entry hmem
    have hatom := hf.atoms entry hmem
    rw [hname, hentryType] at hstyle hatom
    have hformatted {styles : List String}
        (hadds : Element.formatting? ⟨name, attributes, items⟩ = some styles)
        (hnew : ∀ style ∈ styles, style ∈ Style.known)
        (hrich : rich g path name type (Style.canonical (Style.listed around ++ styles)) items =
          .ok found) :
        Inline.leavesOf found = Element.leaves around ⟨name, attributes, items⟩ := by
      rw [Style.canonical_listed_append hknown hnew] at hrich
      have hall : ∀ style ∈ around ++ styles, style ∈ Style.known :=
        List.forall_mem_append.2 ⟨hknown, hnew⟩
      rw [leaves_eq_of_formatting hadds, rich_leaves hg hf hall items hrich]
    have hatomic (h : name ∈ Element.atoms) :
        Element.formatting? ⟨name, attributes, items⟩ = none :=
      formatting?_eq_none h
    split at h
    · rename_i style hadds
      have hnotSpan : name ≠ "span" := fun hspan => by
        rw [(hatom "span" (by decide)).2 hspan] at hadds
        simp [styleOf?] at hadds
      refine hformatted ?_ (by simpa using known_of_styleOf? hadds) h
      rw [Element.formatting?, if_neg hnotSpan, ← hstyle, hadds, Option.map_some]
    · split at h
      · have hspan : name = "span" := (hatom "span" (by decide)).1 rfl
        refine hformatted (if_pos hspan) ?_ h
        exact words_known hg htype hattributes
      · obtain rfl : name = "link" := (hatom "link" (by decide)).1 rfl
        obtain ⟨content, hcontent, hlink⟩ := bind_eq_ok_iff.1 h
        obtain rfl := Except.ok.inj hlink
        simp [Inline.leavesOf, Inline.leaves, Element.leaves, hatomic (by decide),
          rich_leaves hg hf hknown items hcontent]
      · obtain rfl : name = "annotation" := (hatom "annotation" (by decide)).1 rfl
        obtain ⟨content, hcontent, hnote⟩ := bind_eq_ok_iff.1 h
        obtain rfl := Except.ok.inj hnote
        simp [Inline.leavesOf, Inline.leaves, Element.leaves, hatomic (by decide),
          rich_leaves hg hf hknown items hcontent]
      · obtain rfl : name = "variable" := (hatom "variable" (by decide)).1 rfl
        obtain ⟨⟨⟩, -, hvar⟩ := bind_eq_ok_iff.1 h
        obtain rfl := Except.ok.inj hvar
        simp [Inline.leavesOf, Inline.leaves, Element.leaves, hatomic (by decide)]
      · obtain rfl : name = "mention" := (hatom "mention" (by decide)).1 rfl
        obtain ⟨⟨⟩, -, hmention⟩ := bind_eq_ok_iff.1 h
        obtain rfl := Except.ok.inj hmention
        simp [Inline.leavesOf, Inline.leaves, Element.leaves, hatomic (by decide)]
      · simp at h
termination_by structural e => e

theorem rich_leaves (hg : g.Printable) (hf : g.Flattens) {path : Path} {parent type : String}
    {around : List String} {found : List Inline} (hknown : ∀ style ∈ around, style ∈ Style.known) :
    ∀ items : List (Item Element),
      rich g path parent type (Style.listed around) items = .ok found →
        Inline.leavesOf found = Element.leavesOf around items
  | [], h => by
    obtain rfl := Except.ok.inj h
    rfl
  | .text chars :: rest, h => by
    obtain ⟨after, hafter, hglue⟩ := bind_eq_ok_iff.1 h
    obtain rfl := Except.ok.inj hglue
    rw [leavesOf_glue, rich_leaves hg hf hknown rest hafter]
    rfl
  | .literal chars :: rest, h => by
    obtain ⟨after, hafter, hglue⟩ := bind_eq_ok_iff.1 h
    obtain rfl := Except.ok.inj hglue
    rw [leavesOf_glue, rich_leaves hg hf hknown rest hafter]
    rfl
  | .element inner :: rest, h => by
    obtain ⟨⟨⟩, hcheck, h⟩ := bind_eq_ok_iff.1 h
    split at h
    · simp at h
    · obtain ⟨first, hfirst, h⟩ := bind_eq_ok_iff.1 h
      obtain ⟨after, hafter, hglue⟩ := bind_eq_ok_iff.1 h
      obtain rfl := Except.ok.inj hglue
      rw [leavesOf_glueAll, rich_leaves hg hf hknown rest hafter,
        inline_leaves hg hf hknown inner hfirst]
      rfl
termination_by structural items => items

end

theorem flat_of_rich (hg : g.Printable) (hf : g.Flattens) {path : Path} {parent type : String}
    {items : List (Item Element)} {found : List Inline}
    (h : rich g path parent type [] items = .ok found) : Flat items found := by
  have hnone : ∀ style ∈ ([] : List String), style ∈ Style.known := by simp
  exact ⟨rich_leaves hg hf hnone items h,
    (rich_canonical hg (List.nil_sublist _) items h).normal⟩

theorem shows_block_iff {head : Block} {children : Option Forest} {e : Element} :
    (Node.block head children).Shows e ↔
      e.name ∉ Element.calls ∧ (e.name ∈ Element.richBlocks → Flat e.items head.content) ∧
        Forest.Shows (children.getD []) (Element.blocksOf e.items) := by
  cases children <;> simp [Node.Shows, Forest.Shows]

private theorem exists_entry {name : String} {kind : ElementKind}
    (h : (g.spec? name).map ElementSpec.kind = some kind) :
    ∃ entry, g.entry? name = some entry ∧ entry ∈ g.entries ∧ entry.spec.name = name ∧
      entry.spec.kind = kind := by
  obtain ⟨spec, hspec, hkind⟩ := Option.map_eq_some_iff.1 h
  obtain ⟨entry, hentry, rfl⟩ := Option.map_eq_some_iff.1 hspec
  obtain ⟨hmem, hname⟩ := Grammar.entry?_eq_some hentry
  exact ⟨entry, hentry, hmem, hname, hkind⟩

theorem Makes.isInlineName_eq_false (hf : g.Flattens) {path : Path} {e : Element} {n : Node}
    {supply left : IdSupply} (h : Makes g path e supply n left) :
    Element.isInlineName e.name = false := by
  have hkind : ∃ kind, (g.spec? e.name).map ElementSpec.kind = some kind ∧ kind ≠ .inline := by
    cases h with
    | call kind inside => exact ⟨_, kind, by decide⟩
    | rich head model inside => exact ⟨_, head.kind, by decide⟩
    | text head model inside => exact ⟨_, head.kind, by decide⟩
    | blocks head model rule inside => exact ⟨_, head.kind, by decide⟩
    | empty head model rule inside => exact ⟨_, head.kind, by decide⟩
  obtain ⟨kind, hkind, hne⟩ := hkind
  obtain ⟨entry, -, hmem, hname, rfl⟩ := exists_entry hkind
  rw [← Bool.not_eq_true, ← hname, ← hf.inlines entry hmem]
  exact hne

theorem Heads.notMem_calls (hf : g.Flattens) {e : Element} {type ident : String}
    {supply left : IdSupply} (h : Heads g e supply type ident left) : e.name ∉ Element.calls := by
  obtain ⟨entry, -, hmem, hname, hkind⟩ := exists_entry h.kind
  rw [← hname, ← hf.calls entry hmem, hkind]
  decide

theorem model_of_mem_richBlocks (hf : g.Flattens) {e : Element} {type ident : String}
    {supply left : IdSupply} (h : Heads g e supply type ident left)
    (hrich : e.name ∈ Element.richBlocks) : g.model? e.name = some .rich := by
  obtain ⟨entry, hentry, hmem, hname, -⟩ := exists_entry h.kind
  have hcontent := hf.rich entry hmem (hname ▸ hrich)
  simp [Grammar.model?, Grammar.spec?, hentry, hcontent]

theorem callParts_keeps {path : Path} {name type : String} {parts found : CallParts}
    {items : List (Item Element)} {content : List Inline}
    (h : callParts g path name type parts items = .ok found)
    (hparts : parts.instructions = some content) : found.instructions = some content := by
  induction items generalizing parts with
  | nil =>
    obtain rfl := Except.ok.inj h
    exact hparts
  | cons item rest ih =>
    cases item with
    | text chars =>
      simp only [callParts] at h
      split at h
      · exact ih h hparts
      · simp at h
    | literal chars =>
      simp only [callParts] at h
      split at h
      · exact ih h hparts
      · simp at h
    | element inner =>
      obtain ⟨⟨⟩, -, h⟩ := bind_eq_ok_iff.1 h
      simp only [hparts, Option.isNone_some, Bool.false_eq_true, and_false, if_false] at h
      split at h
      · obtain ⟨parameters, -, h⟩ := bind_eq_ok_iff.1 h
        exact ih h rfl
      · simp at h

theorem callParts_flat (hg : g.Printable) (hf : g.Flattens) {path : Path} {name type : String}
    {parts found : CallParts} {items : List (Item Element)}
    (h : callParts g path name type parts items = .ok found) (hparts : parts.instructions = none) :
    match (items.filterMap Item.element?).find? (·.name = "content") with
    | some inner => Flat inner.items (found.instructions.getD [])
    | none => found.instructions = none := by
  induction items generalizing parts with
  | nil =>
    obtain rfl := Except.ok.inj h
    exact hparts
  | cons item rest ih =>
    cases item with
    | text chars =>
      simp only [callParts] at h
      split at h
      · exact ih h hparts
      · simp at h
    | literal chars =>
      simp only [callParts] at h
      split at h
      · exact ih h hparts
      · simp at h
    | element inner =>
      obtain ⟨⟨⟩, -, h⟩ := bind_eq_ok_iff.1 h
      simp only [hparts, Option.isNone_none, and_true] at h
      split at h
      · rename_i hparams
        obtain ⟨parameters, -, h⟩ := bind_eq_ok_iff.1 h
        simpa [Item.element?, hparams.1] using ih h rfl
      · split at h
        · rename_i hcontent
          obtain ⟨innerType, -, h⟩ := bind_eq_ok_iff.1 h
          obtain ⟨content, hrich, h⟩ := bind_eq_ok_iff.1 h
          simpa [Item.element?, hcontent, callParts_keeps h rfl] using flat_of_rich hg hf hrich
        · simp at h

theorem call_shows (hg : g.Printable) (hf : g.Flattens) {path : Path} {e : Element} {c : Call}
    {supply left : IdSupply} (h : call g path e supply = .ok (c, left)) : c.Shows e := by
  simp only [call, Read.bind_eq_ok_iff, Read.lift_eq_ok_iff, Read.pure_eq_ok_iff] at h
  obtain ⟨type, _, -, ident, _, -, parts, _, ⟨hparts, -⟩, rfl, -⟩ := h
  have hflat := callParts_flat hg hf hparts rfl
  unfold Call.Shows Element.children
  split <;> rename_i hfind <;> simp only [hfind] at hflat
  · exact hflat
  · simp [hflat]

mutual

theorem node_shows (hg : g.Printable) (hf : g.Flattens) {path : Path} {n : Node}
    {supply left : IdSupply} :
    ∀ e : Element, node g path e supply = .ok (n, left) → n.Shows e
  | ⟨name, attributes, items⟩, h => by
    obtain ⟨-, hmakes⟩ := node_eq_ok_iff.1 h
    -- Only elements with the model for it hold rich content, and all that they hold is read.
    have hother {ident type : String} {supply left : IdSupply} {content : List Inline}
        (head : Heads g ⟨name, attributes, items⟩ supply type ident left)
        (hmodel : g.model? name ≠ some .rich) :
        name ∈ Element.richBlocks → Flat items content :=
      fun hrich => absurd (model_of_mem_richBlocks hf head hrich) hmodel
    have hnone (h : Element.children ⟨name, attributes, items⟩ = []) :
        Element.blocksOf items = [] := by
      rw [Element.blocksOf]
      exact congrArg (List.filter _) h
    cases hmakes with
    | call kind inside =>
      obtain ⟨entry, -, hmem, hname, hkind⟩ := exists_entry kind
      exact ⟨hname ▸ (hf.calls entry hmem).1 hkind, call_shows hg hf inside⟩
    | @rich type ident mid left content children head model inside =>
      obtain ⟨hleaves, hcanonical, hshows⟩ := mixed_shows hg hf items inside
      refine shows_block_iff.2 ⟨head.notMem_calls hf, fun _ => ⟨hleaves, hcanonical.normal⟩, ?_⟩
      cases children with
      | nil => exact hshows
      | cons first rest => exact hshows
    | text head model inside =>
      exact shows_block_iff.2 ⟨head.notMem_calls hf, hother head (by simp [model]), hnone inside⟩
    | blocks head model rule inside =>
      refine shows_block_iff.2
        ⟨head.notMem_calls hf, hother head ?_, blocks_shows hg hf items inside⟩
      rcases model with model | model <;> simp [model]
    | empty head model rule inside =>
      refine shows_block_iff.2 ⟨head.notMem_calls hf, hother head ?_, hnone inside.1⟩
      rcases model with model | model <;> simp [model]
termination_by structural e => e

theorem blocks_shows (hg : g.Printable) (hf : g.Flattens) {path : Path} {parent type : String}
    {index : Nat} {ns : Forest} {supply left : IdSupply} : ∀ items : List (Item Element),
      blocks g path parent type index items supply = .ok (ns, left) →
        Forest.Shows ns (Element.blocksOf items)
  | [], h => by
    obtain ⟨rfl, -⟩ := Read.pure_eq_ok_iff.1 h
    rfl
  | .text chars :: rest, h => by
    simp only [blocks] at h
    split at h
    · exact blocks_shows hg hf rest h
    · simp [Read.lift_eq_ok_iff] at h
  | .literal chars :: rest, h => by
    simp only [blocks] at h
    split at h
    · exact blocks_shows hg hf rest h
    · simp [Read.lift_eq_ok_iff] at h
  | .element inner :: rest, h => by
    simp only [blocks, Read.bind_eq_ok_iff, Read.lift_eq_ok_iff, Read.pure_eq_ok_iff] at h
    obtain ⟨⟨⟩, _, ⟨hcheck, -⟩, first, _, hinner, others, _, hrest, rfl, -⟩ := h
    have hkind := (node_eq_ok_iff.1 hinner).2.isInlineName_eq_false hf
    exact ⟨inner, _, by simp [Element.blocksOf, Item.element?, hkind],
      node_shows hg hf inner hinner, blocks_shows hg hf rest hrest⟩
termination_by structural items => items

/-- The content and the nodes in an element that may hold both show what stands in it: the content
has the leaves of the inline elements and the text, the nodes show the other elements. -/
theorem mixed_shows (hg : g.Printable) (hf : g.Flattens) {path : Path} {parent type : String}
    {index : Nat} {content : List Inline} {children : Forest} {supply left : IdSupply} :
    ∀ items : List (Item Element),
      mixed g path parent type index items supply = .ok ((content, children), left) →
        Inline.leavesOf content = Element.leavesOf [] items ∧ Inline.CanonicalAll g content ∧
          Forest.Shows children (Element.blocksOf items)
  | [], h => by
    obtain ⟨hpair, -⟩ := Read.pure_eq_ok_iff.1 h
    obtain ⟨rfl, rfl⟩ := Prod.mk.inj hpair
    exact ⟨rfl, .nil, rfl⟩
  | .text chars :: rest, h => by
    simp only [mixed, Read.bind_eq_ok_iff, Read.pure_eq_ok_iff, Prod.mk.injEq] at h
    obtain ⟨⟨after, below⟩, _, hrest, ⟨rfl, rfl⟩, -⟩ := h
    obtain ⟨hleaves, hcanonical, hshows⟩ := mixed_shows hg hf rest hrest
    refine ⟨?_, hcanonical.glue_text (List.nil_sublist _), hshows⟩
    rw [leavesOf_glue, hleaves]
    rfl
  | .literal chars :: rest, h => by
    simp only [mixed, Read.bind_eq_ok_iff, Read.pure_eq_ok_iff, Prod.mk.injEq] at h
    obtain ⟨⟨after, below⟩, _, hrest, ⟨rfl, rfl⟩, -⟩ := h
    obtain ⟨hleaves, hcanonical, hshows⟩ := mixed_shows hg hf rest hrest
    refine ⟨?_, hcanonical.glue_text (List.nil_sublist _), hshows⟩
    rw [leavesOf_glue, hleaves]
    rfl
  | .element inner :: rest, h => by
    simp only [mixed, Read.bind_eq_ok_iff, Read.lift_eq_ok_iff] at h
    obtain ⟨⟨⟩, _, ⟨hcheck, rfl⟩, h⟩ := h
    have hinline := isInline_eq hf (checkChild_eq_ok_iff.1 hcheck).1
    split at h
    · rename_i hkind
      rw [hinline] at hkind
      simp only [Read.bind_eq_ok_iff, Read.lift_eq_ok_iff, Read.pure_eq_ok_iff,
        Prod.mk.injEq] at h
      obtain ⟨found, _, ⟨hfound, rfl⟩, ⟨after, below⟩, _, hrest, ⟨rfl, rfl⟩, -⟩ := h
      obtain ⟨hleaves, hcanonical, hshows⟩ := mixed_shows hg hf rest hrest
      refine ⟨?_, hcanonical.glueAll (inline_canonical hg (List.nil_sublist _) inner hfound), ?_⟩
      · have hnone : ∀ style ∈ ([] : List String), style ∈ Style.known := by simp
        rw [leavesOf_glueAll, hleaves, inline_leaves hg hf hnone inner hfound]
        rfl
      · simpa [Element.blocksOf, Item.element?, hkind] using hshows
    · rename_i hkind
      rw [hinline, Bool.not_eq_true] at hkind
      simp only [Read.bind_eq_ok_iff, Read.pure_eq_ok_iff, Prod.mk.injEq] at h
      obtain ⟨first, _, hinner, ⟨after, below⟩, _, hrest, ⟨rfl, rfl⟩, -⟩ := h
      obtain ⟨hleaves, hcanonical, hshows⟩ := mixed_shows hg hf rest hrest
      refine ⟨?_, hcanonical, ?_⟩
      · rw [hleaves, Element.leavesOf, leaves_eq_nil hkind, List.nil_append]
      · exact ⟨inner, _, by simp [Element.blocksOf, Item.element?, hkind],
          node_shows hg hf inner hinner, hshows⟩
termination_by structural items => items

end

theorem operation_shows (hg : g.Printable) (hf : g.Flattens) {path : Path} {e : Element}
    {o : Edit.Operation} {supply left : IdSupply}
    (h : operation g path e supply = .ok (o, left)) : o.Shows e := by
  obtain ⟨-, type, -, hperforms⟩ := operation_eq_ok_iff.1 h
  cases hperforms with
  | setContent name inside => exact ⟨name, flat_of_rich hg hf inside⟩
  | insert name inside => exact ⟨name, blocks_shows hg hf e.items inside⟩
  | replace name inside => exact ⟨name, blocks_shows hg hf e.items inside⟩
  | setProp name | setParameters name _ | rename name | delete name | move name =>
    simp [Edit.Operation.Shows, name]

theorem operations_show (hg : g.Printable) (hf : g.Flattens) {path : Path} {parent type : String}
    {index : Nat} {items : List (Item Element)} {os : List Edit.Operation}
    {supply left : IdSupply}
    (h : operations g path parent type index items supply = .ok (os, left)) :
    List.Forall₂ Edit.Operation.Shows os (items.filterMap Item.element?) := by
  induction items generalizing index os supply left with
  | nil =>
    obtain ⟨rfl, -⟩ := Read.pure_eq_ok_iff.1 h
    exact .nil
  | cons item rest ih =>
    cases item with
    | text chars =>
      simp only [operations] at h
      split at h
      · exact ih h
      · simp [Read.lift_eq_ok_iff] at h
    | literal chars =>
      simp only [operations] at h
      split at h
      · exact ih h
      · simp [Read.lift_eq_ok_iff] at h
    | element inner =>
      simp only [operations, Read.bind_eq_ok_iff, Read.pure_eq_ok_iff] at h
      obtain ⟨⟨⟩, _, -, first, _, hinner, others, _, hrest, rfl, -⟩ := h
      exact .cons (operation_shows hg hf hinner) (ih hrest)

theorem document_shows (hg : g.Printable) (hf : g.Flattens) {root : Element} {ident : String}
    {besides : List String} {d : Document} {supply left : IdSupply}
    (h : document g root ident besides supply = .ok (d, left)) :
    Forest.Shows d.nodes (Element.blocksOf root.items) := by
  simp only [document, Read.bind_eq_ok_iff, Read.pure_eq_ok_iff] at h
  obtain ⟨⟨⟩, _, -, type, _, -, nodes, _, hblocks, rfl, -⟩ := h
  exact blocks_shows hg hf root.items hblocks

end Reading

/-- Wherever a source that can be read holds inline content, it is read as its flattening: each
character once and in order with the canonical list of all styles around it, and in normal form. -/
theorem Source.shows_of_parse {text : String} {s : Source} (h : Source.parse text = .ok s) :
    ∃ root, Element.ofText text = .ok root ∧ s.Shows root := by
  have hg := Grammar.Standard.printable
  have hf := Grammar.Standard.flattens
  obtain ⟨root, hroot, left, hsource⟩ := Reading.parse_eq_ok_iff.1 h
  refine ⟨root, hroot, ?_⟩
  cases Reading.source_eq_ok_iff.1 hsource with
  | document name inside => exact Reading.document_shows hg hf inside
  | agent name inside =>
    simp only [Reading.agent, Reading.Read.bind_eq_ok_iff, Reading.Read.pure_eq_ok_iff] at inside
    obtain ⟨d, _, hd, rfl, -⟩ := inside
    exact Reading.document_shows hg hf hd
  | diff name inside =>
    simp only [Reading.diff, Reading.Read.bind_eq_ok_iff, Reading.Read.pure_eq_ok_iff] at inside
    obtain ⟨⟨⟩, _, -, type, _, -, os, _, hos, rfl, -⟩ := inside
    exact Reading.operations_show hg hf hos

/-- Text in nested formatting on both sides of a list in an item, and in a link. -/
theorem Source.shows_of_parse_item :
    let text := "<document id=\"d\"><ul><li>a<i>b</i><ul><li/></ul><em>c<b>d</b></em>" ++
      "<u><link href=\"#x\">e<s>f</s></link></u></li></ul></document>"
    let content : List Inline := [.plain "a", .text "bc" ["italic"], .text "d" ["bold", "italic"],
      .link "#x" [.text "e" ["underline"], .text "f" ["underline", "strikethrough"]]]
    let item (ident : String) (content : List Inline) (children : Option Forest) : Node :=
      .block ⟨ident, "list_item", [], content⟩ children
    let list (ident : String) (items : Forest) : Node :=
      .block ⟨ident, "bullet_list", [], []⟩ (some items)
    let s := Source.document
      ⟨"d", [list "d-1" [item "d-2" content (some [list "d-3" [item "d-4" [] none]])]], none⟩
    Source.parse text = .ok s ∧ (∃ root, Element.ofText text = .ok root ∧ s.Shows root) ∧
      Inline.leavesOf content =
        [.char 'a' [], .char 'b' ["italic"], .char 'c' ["italic"], .char 'd' ["bold", "italic"],
          .link "#x" [.char 'e' ["underline"], .char 'f' ["underline", "strikethrough"]]] := by
  intro text content item list s
  have hread : Source.parse text = .ok s := by
    rw [Source.parse_eq_ofChars (append_eq_ofList rfl rfl)]
    exact toOption_eq_some_iff.1 (by decide +kernel)
  exact ⟨hread, Source.shows_of_parse hread, rfl⟩

end LiveDoc
