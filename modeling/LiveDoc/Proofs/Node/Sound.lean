import LiveDoc.Proofs.Grammar.Editable
import LiveDoc.Proofs.Json.Reread
import LiveDoc.Proofs.Node.Reread

/-!
# Sound nodes

What holds of every node that is read and what no edit takes from it: its type, its content and most
of its attributes are in order. Sound nodes are legible where the grammar allows them, if they have
proper ids and if definitions have names.
-/

set_option autoImplicit false
set_option relaxedAutoImplicit false

namespace LiveDoc

open Grammar (definitionTypes isNamed)
open Grammar.Standard (isId)
open Markup (value?)

/-- A block of a type of the grammar, with content as it is read and props besides the id. -/
structure Block.Sound (g : Grammar) (b : Block) : Prop where
  kind : ∃ e, g.entry? e.spec.name = some e ∧ e.spec.kind = .block ∧ e.type = b.kind
  sorted : b.props.Sorted
  props : "id" ∉ b.props.names
  content : Inline.CanonicalAll g b.content

/-- A call with attributes that are in order but for the id, and with parameters and instructions as
they are read. -/
structure Call.Sound (g : Grammar) (c : Call) : Prop where
  kind : ∃ e, g.entry? c.kind.element = some e ∧ e.spec.kind = .executable ∧
    ∀ a ∈ e.spec.attributes, a.name ≠ "id" → e.Accepts a (value? a.name c.attributes)
  extra : Reading.textTable ["id", "enabled", c.kind.functionAttr] c.attributes = c.extra
  parameters : c.parameters = [] ∨ ∃ s, Json.read? s = some (.obj c.parameters)
  instructions : Inline.CanonicalAll g c.instructions

/-- A sound block or call by itself. A block of plain text has no list of children. -/
def Node.Sound (g : Grammar) : Node → Prop
  | .block b children => b.Sound g ∧ (children.isSome = true →
      ∀ e ∈ g.entries, e.spec.kind = .block → e.type = b.kind → e.spec.content ≠ .text)
  | .call c => c.Sound g

theorem Node.sound_bare {g : Grammar} {n : Node} : n.bare.Sound g ↔ n.Sound g := by
  cases n with
  | block head children => cases children <;> exact Iff.rfl
  | call c => exact Iff.rfl

/-- A node that has a proper id, and a name if it is a definition. -/
def Node.IsLabelled : Node → Prop
  | .block b _ => isId b.id = true ∧
      (b.kind ∈ definitionTypes → isNamed ((b.props.get? "name").map Json.plainText) = true)
  | .call c => isId c.id = true

instance : DecidablePred Node.IsLabelled
  | .block _ _ => inferInstanceAs (Decidable (_ ∧ _))
  | .call _ => inferInstanceAs (Decidable (_ = _))

variable {g : Grammar} {b : Block}

namespace Block

theorem Sound.entry (hg : g.Printable) (he : g.Editable) (h : b.Sound g) :
    ∃ e, g.entry? b.element = some e ∧ e.spec.kind = .block ∧ e.type = b.kind := by
  obtain ⟨e, hentry, hkind, htype⟩ := h.kind
  by_cases hheading : b.kind = "heading"
  · have hlevel : b.level ∈ List.range' 1 6 := by
      rw [List.mem_range'_1, level]
      omega
    obtain ⟨hspec, htype⟩ := he.headings b.level hlevel
    obtain ⟨found, hfound, htype⟩ := Grammar.type?_eq_some_iff.1 htype
    rw [Grammar.spec?, hfound] at hspec
    rw [element, if_pos hheading, hheading]
    exact ⟨found, hfound, Option.some.inj hspec, htype⟩
  · have hwritten := hg.block_written e (Grammar.entry?_eq_some hentry).1 hkind (htype ▸ hheading)
    have helement : b.element = e.spec.name := by
      rw [Grammar.writtenBlock?, htype] at hwritten
      rw [element, if_neg hheading, hwritten, Option.getD_some]
    exact ⟨e, helement ▸ hentry, hkind, htype⟩

private theorem value?_name (b : Block) :
    value? "name" b.attributes = (b.props.get? "name").map Json.plainText := by
  have hbesides : "name" ∉ (if b.kind = "heading" then ["level"] else []) := by
    split <;> simp
  rw [attributes, Markup.value?_cons_of_ne (by decide), value?_tableAttributes hbesides]

theorem Sound.checkAttributes_iff (hg : g.Printable) (he : g.Editable) (h : b.Sound g)
    (children : Option Forest) :
    g.checkAttributes b.element b.attributes = [] ↔ (Node.block b children).IsLabelled := by
  obtain ⟨e, hentry, hkind, htype⟩ := h.entry hg he
  have hmem := (Grammar.entry?_eq_some hentry).1
  have hids := hg.node_ids e hmem (.inl hkind)
  have hid : value? "id" b.attributes = some b.id := Markup.value?_cons_self _ _ _
  have hname := b.value?_name
  rw [Grammar.checkAttributes_eq_nil_iff]
  simp only [hentry, Option.some.injEq, exists_eq_left']
  constructor
  · intro haccepts
    refine ⟨?_, fun hdefinition => ?_⟩
    · obtain ⟨a, ha, haname⟩ := he.have_ids e hmem (.inl hkind)
      have haccept := haccepts a ha
      rwa [haname, hid, hids.accepts_iff ha haname] at haccept
    · rw [← htype] at hdefinition
      obtain ⟨⟨a, ha, haname⟩, hiff⟩ := he.definitions e hmem hdefinition
      have haccept := haccepts a ha
      rwa [hiff a ha haname, haname, hname] at haccept
  · rintro ⟨hproper, hnamed⟩ a ha
    rcases he.props e hmem hkind a ha with haname | ⟨hfree, hrequired⟩ | ⟨haname, hdefinition⟩
    · rw [haname, hid, hids.accepts_iff ha haname]
      exact hproper
    · exact Grammar.Entry.accepts_of_isFree hfree hrequired _
    · rw [(he.definitions e hmem hdefinition).2 a ha haname, haname, hname]
      exact hnamed (htype ▸ hdefinition)

theorem model_eq (hg : g.Printable) {e : Grammar.Entry} (hentry : g.entry? b.element = some e)
    (hkind : e.spec.kind = .block) : b.model = e.spec.content := by
  obtain ⟨hmem, hname⟩ := Grammar.entry?_eq_some hentry
  have hmodel := hg.block_model e hmem hkind
  rw [hname] at hmodel
  rw [model, hmodel, Option.getD_some]

theorem Sound.legible (hg : g.Printable) (he : g.Editable) (h : b.Sound g)
    {children : Option Forest} (hlabelled : (Node.block b children).IsLabelled) : b.Legible g := by
  obtain ⟨e, hentry, hkind, htype⟩ := h.entry hg he
  refine ⟨?_, ?_, ?_, (h.checkAttributes_iff hg he children).2 hlabelled, fun _ => h.content⟩
  · simp [Grammar.spec?, hentry, hkind]
  · exact Grammar.type?_eq_some_iff.2 ⟨e, hentry, htype⟩
  · rw [model_eq hg hentry hkind, Grammar.model?, Grammar.spec?, hentry]
    rfl

end Block

namespace Call

variable {c : Call}

theorem Sound.checkAttributes (h : c.Sound g)
    (hid : ∀ e, g.entry? c.kind.element = some e → ∀ a ∈ e.spec.attributes, a.name = "id" →
      e.Accepts a (some c.id)) : g.checkAttributes c.kind.element c.attributes = [] := by
  obtain ⟨e, hentry, -, haccepts⟩ := h.kind
  refine Grammar.checkAttributes_eq_nil_iff.2 ⟨e, hentry, fun a ha => ?_⟩
  by_cases hname : a.name = "id"
  · rw [hname, attributes, Markup.value?_cons_self]
    exact hid e hentry a ha hname
  · exact haccepts a ha hname

theorem Sound.checkAttributes_iff (hg : g.Printable) (he : g.Editable) (h : c.Sound g) :
    g.checkAttributes c.kind.element c.attributes = [] ↔ (Node.call c).IsLabelled := by
  obtain ⟨e, hentry, hkind, -⟩ := h.kind
  have hmem := (Grammar.entry?_eq_some hentry).1
  have hids := hg.node_ids e hmem (.inr hkind)
  constructor
  · intro hcheck
    obtain ⟨a, ha, hname⟩ := he.have_ids e hmem (.inr hkind)
    obtain ⟨e', hentry', haccepts⟩ := Grammar.checkAttributes_eq_nil_iff.1 hcheck
    obtain rfl := Option.some.inj (hentry.symm.trans hentry')
    have haccept := haccepts a ha
    rwa [hname, attributes, Markup.value?_cons_self, hids.accepts_iff ha hname] at haccept
  · intro hproper
    refine h.checkAttributes fun e' hentry' a ha hname => ?_
    obtain rfl := Option.some.inj (hentry.symm.trans hentry')
    exact (hids.accepts_iff ha hname).2 hproper

theorem Sound.spec (h : c.Sound g) :
    (g.spec? c.kind.element).map ElementSpec.kind = some .executable := by
  obtain ⟨e, hentry, hkind, -⟩ := h.kind
  simp [Grammar.spec?, hentry, hkind]

theorem Sound.legible (hg : g.Printable) (he : g.Editable) (h : c.Sound g)
    (hlabelled : (Node.call c).IsLabelled) : c.Legible g := by
  refine ⟨h.spec, (h.checkAttributes_iff hg he).2 hlabelled, h.extra,
    h.parameters.imp_right fun hread => ?_, h.instructions⟩
  obtain ⟨s, hs⟩ := hread
  exact Json.exists_read?_text_obj hs

theorem Sound.withId (h : c.Sound g) (new : String) : Call.Sound g { c with id := new } := by
  obtain ⟨e, hentry, hkind, haccepts⟩ := h.kind
  refine ⟨⟨e, hentry, hkind, fun a ha hname => ?_⟩, ?_, h.parameters, h.instructions⟩
  · have haccept := haccepts a ha hname
    rw [attributes, Markup.value?_cons_of_ne (Ne.symm hname)] at haccept ⊢
    exact haccept
  · have hextra := h.extra
    simp only [attributes, Reading.textTable, List.filter_cons] at hextra ⊢
    simpa using hextra

theorem Sound.nodup (h : c.Sound g) : (c.attributes.map Prod.fst).Nodup := by
  have htable := Reading.isTextTable_textTable ["id", "enabled", c.kind.functionAttr] c.attributes
  rw [h.extra] at htable
  have hfront : (("id" :: c.kind.functionAttr ::
      (Markup.given "enabled" (if c.enabled then none else some "false")).map Prod.fst)).Nodup := by
    cases c.kind <;> cases c.enabled <;> decide
  have hsplit : c.attributes.map Prod.fst = ("id" :: c.kind.functionAttr ::
      (Markup.given "enabled" (if c.enabled then none else some "false")).map Prod.fst) ++
        (tableAttributes [] c.extra).map Prod.fst := by
    simp [attributes]
  rw [hsplit, List.nodup_append]
  refine ⟨hfront, Reading.tableAttributes_nodup [] htable.sorted, ?_⟩
  rintro name hname _ hother rfl
  obtain ⟨a, ha, rfl⟩ := List.mem_map.1 hother
  obtain ⟨entry, hentry, rfl⟩ := List.mem_map.1 ha
  refine htable.names entry (List.mem_filter.1 hentry).1 ?_
  have hin : ∀ name ∈ ("id" :: c.kind.functionAttr ::
      (Markup.given "enabled" (if c.enabled then none else some "false")).map Prod.fst),
        name ∈ ["id", "enabled", c.kind.functionAttr] := by
    cases c.enabled <;> simp [Markup.given]
  exact hin _ hname

end Call

theorem Block.Sound.nodup (h : b.Sound g) : (b.attributes.map Prod.fst).Nodup := by
  rw [Block.attributes, List.map_cons, List.nodup_cons]
  refine ⟨fun hmem => ?_, Reading.tableAttributes_nodup _ h.sorted⟩
  obtain ⟨a, ha, heq⟩ := List.mem_map.1 hmem
  obtain ⟨entry, hentry, rfl⟩ := List.mem_map.1 ha
  have hname : entry.1 = "id" := heq
  exact h.props (hname ▸ List.mem_map_of_mem (List.mem_filter.1 hentry).1)

namespace Node.Sound

variable {n : Node}

theorem writable (hg : g.Printable) (he : g.Editable) (h : n.Sound g)
    (hnames : ∀ a ∈ n.attributes, Markup.isAttributeName a.1 = true) :
    Markup.Writable n.element n.attributes := by
  cases n with
  | block b children =>
    obtain ⟨e, hentry, -⟩ := h.1.entry hg he
    obtain ⟨hmem, hname⟩ := Grammar.entry?_eq_some hentry
    have htag := hg.names e hmem
    rw [hname] at htag
    exact ⟨htag, hnames, h.1.nodup⟩
  | call c =>
    obtain ⟨e, hentry, -⟩ := h.kind
    obtain ⟨hmem, hname⟩ := Grammar.entry?_eq_some hentry
    have htag := hg.names e hmem
    rw [hname] at htag
    exact ⟨htag, hnames, h.nodup⟩

theorem has (hg : g.Printable) (he : g.Editable) (h : n.Sound g) : g.has n.element = true := by
  cases n with
  | block b children =>
    obtain ⟨e, hentry, -⟩ := h.1.entry hg he
    simp [Grammar.has, Node.element, hentry]
  | call c =>
    obtain ⟨e, hentry, -⟩ := h.kind
    simp [Grammar.has, Node.element, hentry]

theorem checkAttributes_iff (hg : g.Printable) (he : g.Editable) (h : n.Sound g) :
    g.checkAttributes n.element n.attributes = [] ↔ n.IsLabelled := by
  cases n with
  | block b children => exact h.1.checkAttributes_iff hg he children
  | call c => exact Call.Sound.checkAttributes_iff hg he h

end Node.Sound

theorem Forest.legible_of_sound (hg : g.Printable) (he : g.Editable) {type : String} {ns : Forest}
    (hsound : ∀ n ∈ Forest.preorder ns, n.Sound g)
    (hlabelled : ∀ n ∈ Forest.preorder ns, n.IsLabelled)
    (htop : ∀ n ∈ ns, g.allows type n.element = true)
    (hinside : ∀ n ∈ Forest.preorder ns, ∀ child ∈ n.children?.getD [],
      g.allows n.typeName child.element = true) : Forest.Legible g type ns := by
  induction ns using Forest.induct generalizing type with
  | nil => exact .nil
  | leaf head rest ih =>
    simp only [Forest.preorder, Node.preorder, List.singleton_append, List.forall_mem_cons]
      at hsound hlabelled hinside htop
    refine .cons (.block (hsound.1.1.legible hg he hlabelled.1) (fun _ _ => rfl) .nil)
      ⟨hsound.1.has hg he, htop.1⟩ (ih hsound.2 hlabelled.2 htop.2 hinside.2)
  | inner head children rest ihc ih =>
    simp only [Forest.preorder, Node.preorder, List.cons_append, List.forall_mem_cons,
      List.forall_mem_append] at hsound hlabelled hinside htop
    have hhead := hsound.1.1.legible hg he hlabelled.1
    have hchildren := ihc hsound.2.1 hlabelled.2.1 hinside.1 hinside.2.1
    refine .cons (.block hhead (fun _ hrule => ?_) hchildren) ⟨hsound.1.has hg he, htop.1⟩
      (ih hsound.2.2 hlabelled.2.2 htop.2 hinside.2.2)
    -- Where the grammar has no rule for children it allows none.
    obtain ⟨e, hentry, hkind, htype⟩ := hsound.1.1.entry hg he
    have hallowed : e.allowed.isNone = true := by
      simpa [Grammar.hasChildrenRule, hentry] using hrule
    refine List.eq_nil_iff_forall_not_mem.2 fun child hchild => ?_
    obtain ⟨other, hother, hsame, hin⟩ :=
      Grammar.allows_eq_true_iff.1 (hinside.1 child hchild)
    rw [he.childless e (Grammar.entry?_eq_some hentry).1 hkind hallowed other hother
      (hsame.trans htype.symm)] at hin
    exact absurd hin (by simp)
  | call c rest ih =>
    simp only [Forest.preorder, Node.preorder, List.singleton_append, List.forall_mem_cons]
      at hsound hlabelled hinside htop
    exact .cons (.call (Call.Sound.legible hg he hsound.1 hlabelled.1)) ⟨hsound.1.has hg he, htop.1⟩
      (ih hsound.2 hlabelled.2 htop.2 hinside.2)

end LiveDoc
