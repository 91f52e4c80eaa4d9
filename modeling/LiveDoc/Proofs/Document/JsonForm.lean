import LiveDoc.Document.JsonForm
import LiveDoc.Proofs.Edit.JsonForm

/-!
# Reading back the JSON form of documents

Nodes, operations and sources are read back from their JSON forms, whatever is nested in them. Two
things are not told by a JSON form: that a variable has null for a value, and what a call has under
the name of the mark that it is enabled.
-/

set_option autoImplicit false
set_option relaxedAutoImplicit false

namespace LiveDoc

open Json (required?_ofList optional?_ofList optional?_string fields? member? names_member?
  Tagging)

namespace Document

/-- All tables and values in a document are in order, as all that are kept are. -/
structure IsOrdered (d : Document) : Prop where
  metadata : ∀ t ∈ d.metadata, (Json.obj t).IsOrdered
  nodes : ∀ n ∈ Forest.preorder d.nodes, n.IsOrdered

/-- The JSON form tells everything about the nodes of a document. -/
def IsTold (d : Document) : Prop := ∀ n ∈ Forest.preorder d.nodes, n.IsTold

instance : DecidablePred IsOrdered := fun d =>
  decidable_of_iff ((∀ t ∈ d.metadata, (Json.obj t).IsOrdered) ∧
    ∀ n ∈ Forest.preorder d.nodes, n.IsOrdered)
    ⟨fun h => ⟨h.1, h.2⟩, fun h => ⟨h.metadata, h.nodes⟩⟩

instance : DecidablePred IsTold := fun d =>
  inferInstanceAs (Decidable (∀ n ∈ Forest.preorder d.nodes, n.IsTold))

theorem names_members (d : Document) : (d.members.map Prod.fst).Sublist fieldNames := by
  rw [members, List.map_append]
  exact (List.Sublist.refl ["id", "nodes"]).append names_member?

theorem ofJson?_record {d : Document} {members : List (String × Json)} (hordered : d.IsOrdered)
    (htold : d.IsTold) (hnodup : (members.map Prod.fst).Nodup)
    (hget : ∀ name ∈ fieldNames, Table.get? name members = Table.get? name d.members) :
    ofJson? (.record members) = some d := by
  have hnodes := Node.listOfJson?_listToJson fun n hn => ⟨hordered.nodes n hn, htold n hn⟩
  have hid : Table.get? "id" members = some (.str d.id) := by
    simp [hget "id" (by simp [fieldNames]), Document.members, Table.get?]
  have hinside : Table.get? "nodes" members = some (Node.listToJson d.nodes) := by
    simp [hget "nodes" (by simp [fieldNames]), Document.members, Table.get?]
  have hmetadata : Table.get? "metadata" members = d.metadata.map .obj := by
    simp [hget "metadata" (by simp [fieldNames]), Document.members, Table.get?]
  have hread : Json.optional? Json.table? "metadata" (Table.ofList members) = some d.metadata :=
    optional?_ofList hnodup hmetadata fun t ht => ⟨by simp, (hordered.metadata t ht).table?⟩
  simp [ofJson?, fields?, Json.record, required?_ofList hnodup, hid, hinside, hread, hnodes,
    Json.string?]

end Document

namespace Agent

theorem names_members (a : Agent) : (a.members.map Prod.fst).Sublist
    (Document.fieldNames ++ ["name", "description", "model"]) := by
  rw [members, List.map_append, List.map_append, List.map_append]
  exact ((a.document.names_members.append names_member?).append names_member?).append names_member?

theorem ofJson?_record {a : Agent} (hordered : a.document.IsOrdered)
    (htold : a.document.IsTold) : ofJson? (.record a.members) = some a := by
  have hnodup : (a.members.map Prod.fst).Nodup := a.names_members.nodup (by decide)
  have hdocument := Document.ofJson?_record hordered htold hnodup
    (by simp [Document.fieldNames, members])
  have hname : Table.get? "name" a.members = a.name.map .str := by
    simp [members, Document.members, Table.get?]
  have hdescription : Table.get? "description" a.members = a.description.map .str := by
    simp [members, Document.members, Table.get?]
  have hmodel : Table.get? "model" a.members = a.model.map .str := by
    simp [members, Document.members, Table.get?]
  rw [Json.record] at hdocument
  simp [ofJson?, Json.record, hdocument, optional?_string hnodup hname,
    optional?_string hnodup hdescription, optional?_string hnodup hmodel]

end Agent

namespace Diff

theorem names_members (d : Diff) : (d.members.map Prod.fst).Sublist fieldNames := by
  rw [members, List.map_append]
  exact names_member?.append (List.Sublist.refl ["operations"])

theorem ofJson?_record (tagging : Tagging) {d : Diff} (hordered : ∀ o ∈ d.operations, o.IsOrdered)
    (htold : ∀ o ∈ d.operations, o.IsTold) : ofJson? tagging (.record d.members) = some d := by
  have hnodup : (d.members.map Prod.fst).Nodup := d.names_members.nodup (by decide)
  have htarget : Table.get? "targetDocument" d.members = d.target.map .str := by
    simp [members, Table.get?]
  have hinside : Table.get? "operations" d.members =
      some (.arr (d.operations.map Edit.Operation.toJson)) := by
    simp [members, Table.get?]
  have hoperations : Json.list? (Edit.Operation.ofJson? tagging)
      (.arr (d.operations.map Edit.Operation.toJson)) = some d.operations :=
    Json.list?_map fun o ho => Edit.Operation.ofJson?_toJson tagging (hordered o ho) (htold o ho)
  simp [ofJson?, fields?, Json.record, required?_ofList hnodup, hinside, hoperations,
    optional?_string hnodup htarget]

end Diff

namespace Source

/-- All tables and values in a source are in order, as all that are kept are. -/
def IsOrdered : Source → Prop
  | .document d => d.IsOrdered
  | .agent a => a.document.IsOrdered
  | .diff d => ∀ o ∈ d.operations, o.IsOrdered

/-- The JSON form tells everything about what a source holds. -/
def IsTold : Source → Prop
  | .document d => d.IsTold
  | .agent a => a.document.IsTold
  | .diff d => ∀ o ∈ d.operations, o.IsTold

instance : DecidablePred IsOrdered
  | .document d => inferInstanceAs (Decidable d.IsOrdered)
  | .agent a => inferInstanceAs (Decidable a.document.IsOrdered)
  | .diff d => inferInstanceAs (Decidable (∀ o ∈ d.operations, o.IsOrdered))

instance : DecidablePred IsTold
  | .document d => inferInstanceAs (Decidable d.IsTold)
  | .agent a => inferInstanceAs (Decidable a.document.IsTold)
  | .diff d => inferInstanceAs (Decidable (∀ o ∈ d.operations, o.IsTold))

theorem nodup_members (s : Source) :
    ((("kind", Json.str s.kindName) :: s.members).map Prod.fst).Nodup := by
  cases s with
  | document d => exact (d.names_members.cons_cons "kind").nodup (by decide)
  | agent a => exact (a.names_members.cons_cons "kind").nodup (by decide)
  | diff d => exact (d.names_members.cons_cons "kind").nodup (by decide)

theorem ofJson?_toJson {s : Source} (hordered : s.IsOrdered) (htold : s.IsTold) :
    ofJson? s.toJson = some s := by
  have htagged : Json.tagged? "kind" .named kinds s.toJson = some (s.kindName, .record s.members) :=
    Json.tagged?_record s.nodup_members (by cases s <;> simp [kindName, kinds])
  rw [ofJson?, htagged, Option.bind_eq_bind, Option.bind_some]
  cases s with
  | document d =>
    have hnodup : (d.members.map Prod.fst).Nodup := d.names_members.nodup (by decide)
    have hread := Document.ofJson?_record hordered htold hnodup fun _ _ => rfl
    simp [kindName, members, hread]
  | agent a =>
    have hread := Agent.ofJson?_record hordered htold
    simp [kindName, members, hread]
  | diff d =>
    have hread := Diff.ofJson?_record .numbered hordered htold
    simp [kindName, members, hread]

end Source

/-- Every node, operation and source is read back from its JSON form, if all that its JSON form does
not tell is as it is read: no variable has null for a value, and no call has another mark named like
the one that it is enabled. -/
theorem json_forms_read_back :
    (∀ n : Node, (∀ m ∈ n.preorder, m.IsOrdered) → (∀ m ∈ n.preorder, m.IsTold) →
      Node.ofJson? n.toJson = some n) ∧
    (∀ (tagging : Tagging) (o : Edit.Operation), o.IsOrdered → o.IsTold →
      Edit.Operation.ofJson? tagging o.toJson = some o) ∧
    ∀ s : Source, s.IsOrdered → s.IsTold → Source.ofJson? s.toJson = some s := by
  refine ⟨fun n hordered htold => ?_, fun tagging o hordered htold => ?_,
    fun s hordered htold => ?_⟩
  · exact Node.ofJson?_toJson n fun m hm => ⟨hordered m hm, htold m hm⟩
  · exact Edit.Operation.ofJson?_toJson tagging hordered htold
  · exact Source.ofJson?_toJson hordered htold

/-- A block that has the type of a call, one without children in it and one with an empty list of
them, and a call that keeps an id among what else is known about it. -/
theorem json_forms_read_back_nested :
    let value := Json.obj [("k", .null)]
    let content : List Inline := [.note none (some "c") [.var "v" none (some value)]]
    let call : Call := ⟨"c", .trigger, "f", [("p", .arr [])], content, false, [("id", .str "x")]⟩
    let n : Node := .block ⟨"a", "function_call", [("x", .null)], content⟩
      (some [.block ⟨"b", "trigger", [], []⟩ (some []), .block ⟨"d", "quote", [], []⟩ none,
        .call call])
    let o : Edit.Operation := .insert ⟨some "z", false, true⟩ [n]
    let s : Source := .diff ⟨none, [o, .setProp "a" "x" .null]⟩
    Node.ofJson? n.toJson = some n ∧ Edit.Operation.ofJson? .named o.toJson = some o ∧
      Source.ofJson? s.toJson = some s := by
  intro value content call n o s
  obtain ⟨hnode, hoperation, hsource⟩ := json_forms_read_back
  exact ⟨hnode n (by decide +kernel) (by decide +kernel),
    hoperation .named o (by decide +kernel) (by decide +kernel),
    hsource s (by decide +kernel) (by decide +kernel)⟩

end LiveDoc
