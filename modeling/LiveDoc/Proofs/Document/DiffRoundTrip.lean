import LiveDoc.Proofs.Document.RoundTrip
import LiveDoc.Proofs.Reading.OperationForm

/-!
# Reading written batches

A batch of operations that has been read is read again from what it is written as, whatever its
operations carry.
-/

set_option autoImplicit false
set_option relaxedAutoImplicit false

namespace LiveDoc

open Markup (Element Item Layout Spells Unquoted Writable given value?)
open Grammar.Standard (isId)
open Reading (Rewritable)

variable {g : Grammar} {l : Layout} {d : Diff}

namespace Diff

def attributes (d : Diff) : List (String × String) := given "target" d.target

def outline (d : Diff) (l : Layout) : Element :=
  ⟨"diff", d.attributes, if d.operations.isEmpty then []
    else .text "\n" :: Reading.outlineOperations l.deeper d.operations⟩

/-- A batch in the form in which it is read. -/
structure Canonical (g : Grammar) (d : Diff) : Prop where
  operations : ∃ type, g.type? "diff" = some type ∧
    ∀ o ∈ d.operations, o.Canonical g ∧ g.allows type o.name = true
  checked : g.checkAttributes "diff" d.attributes = []

theorem writable (d : Diff) : Writable "diff" d.attributes := by
  have hnames : ∀ name ∈ ["target"], Markup.isAttributeName name = true := by decide
  have hsub := Markup.map_fst_given "target" d.target
  exact ⟨by decide, fun a ha => hnames _ (hsub.subset (List.mem_map_of_mem ha)),
    hsub.nodup (by decide)⟩

private theorem spells_operations (hl : Text.isAllBlank l.indent = true) {os : List Edit.Operation}
    (h : ∀ o ∈ os, o.Canonical g) :
    Spells (Reading.outlineOperations l os)
      (String.join (os.map (Edit.Operation.print l))).toList := by
  induction os with
  | nil => exact .nil
  | cons o rest ih =>
    obtain ⟨hfirst, hrest⟩ := List.forall_mem_cons.1 h
    have hspells := (hfirst.spells_print hl).append (ih hrest)
    rw [← String.toList_append] at hspells
    simpa [Reading.outlineOperations, String.join_cons] using hspells

/-- A written batch is read as the element that it was written as, but for how its character data is
cut into pieces. -/
theorem Canonical.ofText_print (h : d.Canonical g) (hl : Text.isAllBlank l.indent = true) :
    ∃ found, Element.ofText (d.print l) = .ok found ∧
      found.joined = (d.outline l).joined := by
  have htail : Text.isAllBlank "\n" = true := by decide
  have hattributes : (Markup.attr? "target" d.target).toList =
      Markup.attributeChars d.attributes := Markup.toList_attr? "target" d.target
  rw [print, outline]
  split
  · have hread := Markup.ofText_append_of_spells
      (Markup.spells_single d.writable hattributes) htail
    simpa [String.append_assoc] using hread
  · obtain ⟨type, -, hoperations⟩ := h.operations
    have hinside := (Markup.spells_blank htail).append
      (spells_operations (l := l.deeper) hl fun o ho => (hoperations o ho).1)
    rw [← String.toList_append] at hinside
    have hread := Markup.ofText_append_of_spells
      (Markup.spells_pair d.writable hattributes hinside) htail
    have hname : ("<diff" : String) = "<" ++ "diff" := by decide
    have hopen : (">\n" : String) = ">" ++ "\n" := by decide
    have hclose : ("</diff>\n" : String) = Markup.closingTag "diff" ++ "\n" := by decide
    rw [hname, hopen, hclose]
    simpa only [String.append_assoc, List.singleton_append] using hread

end Diff

namespace Reading

theorem diff_outline (hg : g.Printable) (hs : g.Supported) (h : d.Canonical g)
    (hl : Text.isAllBlank l.indent = true) (supply : IdSupply) :
    diff g (d.outline l) supply = .ok (d, supply) := by
  obtain ⟨type, htype, hoperations⟩ := h.operations
  have hread : operations g ⟨"diff", []⟩ "diff" type 0 (d.outline l).items supply =
      .ok (d.operations, supply) := by
    rw [Diff.outline]
    split
    · rename_i hempty
      simp [List.isEmpty_iff.1 hempty, operations, Read.pure_eq_ok_iff]
    · have hinside := operations_outline hg hs hoperations (l := l.deeper) hl ⟨"diff", []⟩ "diff" 0
        supply
      simpa [operations, show Text.isAllBlank "\n" = true by decide] using hinside
  have htarget : (d.outline l).attr? "target" = d.target := by
    rw [attr?_eq_value?]
    exact Markup.value?_given_self _ _
  simp only [diff, Read.bind_eq_ok_iff, Read.lift_eq_ok_iff, Read.pure_eq_ok_iff]
  refine ⟨(), supply, ⟨checkAttributes_eq_ok_iff.2 h.checked, rfl⟩, type, supply,
    ⟨typeOf_eq_ok_iff.2 htype, rfl⟩, d.operations, supply, hread, ?_, rfl⟩
  rw [htarget]

/-- A batch that is read is canonical, if the attributes in it can be written again and the numbers
in parameters are integers. -/
theorem diff_canonical (hg : g.Printable) (ho : g.Operable) {root : Element}
    {supply left : IdSupply} (hname : root.name = "diff")
    (hgiven : ∀ e ∈ root.elements, Rewritable e) (hseed : isId supply.seed = true)
    (h : diff g root supply = .ok (d, left)) (hintegers : ∀ o ∈ d.operations, o.HasIntegers) :
    d.Canonical g := by
  obtain ⟨name, attributes, items⟩ := root
  obtain rfl : name = "diff" := hname
  obtain ⟨-, hitems⟩ := rewritable_items hgiven
  simp only [diff, Read.bind_eq_ok_iff, Read.lift_eq_ok_iff, Read.pure_eq_ok_iff,
    typeOf_eq_ok_iff] at h
  obtain ⟨⟨⟩, _, ⟨hcheck, rfl⟩, type, _, ⟨htype, rfl⟩, os, _, hoperations, rfl, rfl⟩ := h
  refine ⟨⟨type, htype, operations_canonical hg ho hitems hseed hoperations hintegers⟩, ?_⟩
  obtain ⟨entry, hentry, -⟩ := Grammar.type?_eq_some_iff.1 htype
  obtain ⟨hmem, hentryName⟩ := Grammar.entry?_eq_some hentry
  refine Grammar.checkAttributes_of_accepts hentry (checkAttributes_eq_ok_iff.1 hcheck)
    fun a ha haccepts => ?_
  obtain ⟨htarget, -⟩ := ho.diff_attributes entry hmem hentryName a ha
  rw [htarget] at haccepts
  rwa [htarget, Diff.attributes, Markup.value?_given_self, attr?_eq_value?]

end Reading

namespace Source

open Reading

/-- A batch of operations that has been read from a text, the root of which has no id or one that
the grammar takes, in which no quotes stand in names of attributes and the numbers in parameters are
integers, that is, numerals that fit a word of 64 bits, is read again from what it is written as. -/
theorem parse_print_diff {text : String} {root : Element}
    (hroot : Element.ofText text = .ok root)
    (hident : ∀ ident, root.attr? "id" = some ident → isId ident = true)
    (hunquoted : ∀ e ∈ root.elements, ∀ a ∈ e.attributes, Unquoted a.1)
    (hread : Source.parse text = .ok (.diff d)) (hintegers : ∀ o ∈ d.operations, o.HasIntegers)
    (hindent : Text.isAllBlank l.indent = true) :
    Source.parse ((Source.diff d).print l) = .ok (.diff d) := by
  have hg := Grammar.Standard.printable
  have hs := Grammar.Standard.supported
  obtain ⟨_, hroot', left, hmade⟩ := parse_eq_ok_iff.1 hread
  obtain rfl := Except.ok.inj (hroot.symm.trans hroot')
  cases source_eq_ok_iff.1 hmade with
  | diff hname hd =>
    have hgiven (e : Element) (he : e ∈ root.elements) : Rewritable e :=
      ⟨Markup.given_of_ofText hroot e he, hunquoted e he⟩
    have hseed : isId ((root.attr? "id").getD (documentId text)) = true := by
      cases hvalue : root.attr? "id" with
      | none => exact Grammar.Standard.isId_documentId text
      | some ident => exact hident ident hvalue
    have hcanonical := diff_canonical hg Grammar.Standard.operable hname hgiven hseed hd hintegers
    refine parse_of_joined (hcanonical.ofText_print hindent) fun supply => ?_
    exact source_eq_ok_iff.2 (.diff rfl (diff_outline hg hs hcanonical hindent supply))

/-- A batch with all operations, with blocks that have no ids and a list of ids with blanks in
it. -/
theorem parse_print_diff_all :
    let text := "<diff id=\"q\" target=\"d\">" ++
      "<edit:attr blockId=\"a\" name=\"lang\" value=\"x &amp; y\"/>" ++
      "<edit:content blockId=\"a\">b <strong>c</strong></edit:content>" ++
      "<edit:params blockId=\"c\">\x7b\"n\":-3\x7d</edit:params>" ++
      "<edit:id blockId=\"a\" newId=\"e\"/>" ++
      "<insert atStart=\"true\" atEnd=\"false\"><ul><li>f</li></ul></insert>" ++
      "<delete blockId=\"g\"/><replace blockId=\"h\"/>" ++
      "<move blockIds=\" i , j \" afterBlockId=\"k\"/></diff>"
    let item : Node := .block ⟨"q-2", "list_item", [], [.plain "f"]⟩ none
    let d : Diff := ⟨some "d",
      [.setProp "a" "lang" (.str "x & y"), .setContent "a" [.plain "b ", .text "c" ["bold"]],
        .setParameters "c" [("n", .num (.int (-3)))], .rename "a" "e",
        .insert ⟨none, true, false⟩ [.block ⟨"q-1", "bullet_list", [], []⟩ (some [item])],
        .delete "g", .replace "h" [],
        .move ⟨none, some ["i", "j"], none, none⟩ ⟨some "k", false, false⟩]⟩
    Source.parse text = .ok (.diff d) ∧
      Source.parse ((Source.diff d).print ⟨"\t", 0, false⟩) = .ok (.diff d) := by
  intro text item d
  have htext : text = String.ofList _ :=
    append_eq_ofList (append_eq_ofList (append_eq_ofList (append_eq_ofList (append_eq_ofList
      (append_eq_ofList (append_eq_ofList rfl rfl) rfl) rfl) rfl) rfl) rfl) rfl
  have hread : Source.parse text = .ok (.diff d) := by
    rw [parse_eq_ofChars htext]
    exact toOption_eq_some_iff.1 (by decide +kernel)
  obtain ⟨root, hroot, -⟩ := parse_eq_ok_iff.1 hread
  have hunquoted := unquoted_of_all hroot (by
    rw [Element.ofText_eq_ofChars htext]
    decide +kernel)
  have hident : ∀ ident, root.attr? "id" = some ident → isId ident = true := by
    have hvalue : (Element.ofText text).toOption.map (·.attr? "id") = some (some "q") := by
      rw [Element.ofText_eq_ofChars htext]
      decide +kernel
    rw [hroot, Except.toOption, Option.map_some, Option.some_inj] at hvalue
    rw [hvalue]
    rintro _ ⟨⟩
    decide +kernel
  have hintegers : ∀ o ∈ d.operations, o.HasIntegers := by
    decide +kernel
  exact ⟨hread, parse_print_diff hroot hident hunquoted hread hintegers (by decide)⟩

end Source

end LiveDoc
