import LiveDoc.Node.Forest
import LiveDoc.Node.JsonForm
import LiveDoc.Proofs.Inline.JsonForm

/-!
# Reading back the JSON form of nodes

Every node is read back from its JSON form, at any depth: a call as a call, as only calls have a
function, and a block with the list of children that it has or without one.
-/

set_option autoImplicit false
set_option relaxedAutoImplicit false

namespace LiveDoc

open Json (required?_ofList defaulted?_ofList fields?)

def Node.tables : Node → List (Table Json)
  | .block b _ => [b.props]
  | .call c => [c.parameters, c.extra]

/-- The tables and values of a node are in order, as all that are kept are. -/
structure Node.IsOrdered (n : Node) : Prop where
  tables : ∀ t ∈ n.tables, (Json.obj t).IsOrdered
  values : ∀ p ∈ Inline.piecesOf n.content, p.IsOrdered

/-- The JSON form tells everything about a node: no variable has null for a value, and no call has
another mark named like the one that it is enabled. -/
structure Node.IsTold (n : Node) : Prop where
  values : ∀ p ∈ Inline.piecesOf n.content, p.IsTold
  marks : ∀ c ∈ n.call?, "enabled" ∉ c.extra.names

instance : DecidablePred Node.IsOrdered := fun n =>
  decidable_of_iff ((∀ t ∈ n.tables, (Json.obj t).IsOrdered) ∧
    ∀ p ∈ Inline.piecesOf n.content, p.IsOrdered)
    ⟨fun h => ⟨h.1, h.2⟩, fun h => ⟨h.tables, h.values⟩⟩

instance : DecidablePred Node.IsTold := fun n =>
  decidable_of_iff ((∀ p ∈ Inline.piecesOf n.content, p.IsTold) ∧
    ∀ c ∈ n.call?, "enabled" ∉ c.extra.names)
    ⟨fun h => ⟨h.1, h.2⟩, fun h => ⟨h.values, h.marks⟩⟩

variable {members : List (String × Json)}

namespace Call

theorem metadataOfJson?_record (enabled : Bool) {extra : Table Json}
    (hordered : (Json.obj extra).IsOrdered) (hextra : "enabled" ∉ extra.names) :
    metadataOfJson? (.record (("enabled", .bool enabled) :: extra)) = some (enabled, extra) := by
  have hsorted := (Json.isOrdered_obj_iff.1 hordered).1
  rw [Json.record, hsorted.ofList_cons hextra]
  have hput : (Json.obj (Table.put "enabled" (.bool enabled) extra)).IsOrdered :=
    hordered.put "enabled" rfl
  have hrequired : Json.required? Json.bool? "enabled"
      (Table.put "enabled" (.bool enabled) extra) = some enabled := by
    simp [Json.required?, Json.field?_eq_some (hsorted.put _ _).nodup, Json.bool?]
  have herase : Table.erase "enabled" extra = extra := by
    refine List.filter_eq_self.2 fun entry hentry => ?_
    have hname : entry.1 ∈ extra.names := List.mem_map_of_mem hentry
    simpa using fun heq : entry.1 = "enabled" => hextra (heq ▸ hname)
  simp [metadataOfJson?, hrequired, hput.table?, Table.erase_put, herase]

theorem ofJson?_toJson {c : Call} (hordered : (Node.call c).IsOrdered)
    (htold : (Node.call c).IsTold) : ofJson? c.toJson = some c := by
  have hparameters := (hordered.tables c.parameters (by simp [Node.tables])).table?
  have hmetadata := metadataOfJson?_record c.enabled
    (hordered.tables c.extra (by simp [Node.tables])) (htold.marks c rfl)
  have hinstructions := Inline.listOfJson?_listToJson .numbered fun p hp =>
    ⟨hordered.values p hp, htold.values p hp⟩
  have hkind : CallKind.ofJson? (.str c.kind.typeName) = some c.kind := by
    cases c.kind <;> rfl
  rw [Node.content] at hinstructions
  rw [Json.record] at hmetadata
  simp [ofJson?, toJson, Json.record, fields?, required?_ofList, defaulted?_ofList, Table.get?,
    Json.string?, hkind, hparameters, hinstructions, hmetadata]

theorem ofJson?_eq_none (hnodup : (members.map Prod.fst).Nodup)
    (hfunction : Table.get? "fn" members = none) : ofJson? (.record members) = none := by
  simp [ofJson?, fields?, Json.record, required?_ofList hnodup, hfunction]

end Call

/-- Members that stand for what a block holds itself, whatever else there is. -/
structure Block.Fields (b : Block) (members : List (String × Json)) : Prop where
  nodup : (members.map Prod.fst).Nodup
  id : Table.get? "id" members = some (.str b.id)
  kind : Table.get? "type" members = some (.str b.kind)
  content : Table.get? "content" members = some (Inline.listToJson b.content)
  props : Table.get? "props" members = if b.props = [] then none else some (.obj b.props)

theorem Block.names_members (b : Block) :
    (b.members.map Prod.fst).Sublist ["id", "type", "content", "props"] := by
  rw [members]
  split <;> simp

theorem Block.get?_members_append (b : Block) {name : String}
    (hname : name ∉ ["id", "type", "content", "props"]) (rest : List (String × Json)) :
    Table.get? name (b.members ++ rest) = Table.get? name rest := by
  have hnone : Table.get? name b.members = none :=
    Table.get?_eq_none_iff.2 fun hmem => hname (b.names_members.subset hmem)
  rw [Table.get?_append, hnone, Option.none_or]

theorem Block.fields_members_append (b : Block) {rest : List (String × Json)}
    (hrest : (rest.map Prod.fst).Sublist ["children"]) : b.Fields (b.members ++ rest) := by
  have hprops : Table.get? "props" rest = none := by
    refine Table.get?_eq_none_iff.2 fun hmem => ?_
    simpa using hrest.subset hmem
  refine ⟨?_, ?_, ?_, ?_, ?_⟩
  · rw [List.map_append]
    exact (b.names_members.append hrest).nodup (by decide)
  · simp [Block.members, Table.get?]
  · simp [Block.members, Table.get?]
  · simp [Block.members, Table.get?]
  · by_cases hempty : b.props = [] <;>
      simp [Block.members, Table.get?, hempty, hprops]

theorem Block.Fields.ofJson? {b : Block} (h : b.Fields members)
    (hordered : (Json.obj b.props).IsOrdered)
    (hcontent : ∀ p ∈ Inline.piecesOf b.content, p.IsOrdered ∧ p.IsTold) :
    Block.ofJson? (.record members) = some b := by
  have hpieces := Inline.listOfJson?_listToJson .numbered hcontent
  have hprops : Json.defaulted? [] Json.table? "props" (Table.ofList members) = some b.props := by
    rw [defaulted?_ofList h.nodup, h.props]
    split
    · rename_i hempty
      simp [hempty]
    · simp [hordered.table?]
  simp [Block.ofJson?, fields?, Json.record, required?_ofList h.nodup, h.id, h.kind, hprops,
    defaulted?_ofList h.nodup, h.content, hpieces, Json.string?]

namespace Node

theorem ofJson?_record {b : Block} (h : b.Fields members) {children : Option Forest}
    (hfunction : Table.get? "fn" members = none)
    (hordered : (Node.block b none).IsOrdered) (htold : (Node.block b none).IsTold)
    (hchildren : ((Table.get? "children" members).map childrenOfJson?).getD (some none) =
      some children) : ofJson? (.record members) = some (.block b children) := by
  have hcall := Call.ofJson?_eq_none h.nodup hfunction
  have hblock := h.ofJson? (hordered.tables b.props List.mem_cons_self) fun p hp =>
    ⟨hordered.values p hp, htold.values p hp⟩
  have hsearch : childrenMember? (Table.ofList members) = some children :=
    (Json.search_ofList h.nodup rfl fun _ _ _ => rfl).trans hchildren
  rw [Json.record] at hcall hblock
  simp [Json.record, ofJson?, ofRecord?, hcall, hblock, hsearch]

mutual

theorem ofJson?_toJson : ∀ n : Node, (∀ m ∈ n.preorder, m.IsOrdered ∧ m.IsTold) →
    ofJson? n.toJson = some n
  | .block b none, h => by
    obtain ⟨hordered, htold⟩ := h (.block b none) (by simp [preorder])
    have hfields : b.Fields (b.members ++ []) := b.fields_members_append (List.nil_sublist _)
    rw [toJson, ← List.append_nil b.members]
    refine ofJson?_record hfields ?_ hordered htold ?_
    · rw [b.get?_members_append (by decide), Table.get?_nil]
    · rw [b.get?_members_append (by decide), Table.get?_nil, Option.map_none, Option.getD_none]
  | .block b (some children), h => by
    rw [preorder, List.forall_mem_cons] at h
    obtain ⟨⟨⟨htables, hvalues⟩, hpieces, hmarks⟩, hinside⟩ := h
    have hchildren := ofItems?_toJsonAll children hinside
    rw [toJson]
    refine ofJson?_record (b.fields_members_append (List.Sublist.refl _)) ?_ ⟨htables, hvalues⟩
      ⟨hpieces, hmarks⟩ ?_
    · simp [b.get?_members_append, Table.get?]
    · simp [b.get?_members_append, Table.get?, childrenOfJson?, hchildren]
  | .call c, h => by
    obtain ⟨hordered, htold⟩ := h (.call c) (by simp [preorder])
    have hcall := Call.ofJson?_toJson hordered htold
    rw [toJson]
    rw [Call.toJson, Json.record] at hcall ⊢
    rw [ofJson?, ofRecord?, hcall]
termination_by structural n => n

theorem ofItems?_toJsonAll : ∀ ns : List Node,
    (∀ m ∈ Forest.preorder ns, m.IsOrdered ∧ m.IsTold) → ofItems? (toJsonAll ns) = some ns
  | [], _ => rfl
  | n :: rest, h => by
    rw [Forest.preorder, List.forall_mem_append] at h
    have hfirst := ofJson?_toJson n h.1
    have hrest := ofItems?_toJsonAll rest h.2
    simp only [toJsonAll, ofItems?, hfirst, hrest, Option.bind_eq_bind, Option.bind_some]
termination_by structural ns => ns

end

theorem listOfJson?_listToJson {ns : Forest}
    (h : ∀ n ∈ Forest.preorder ns, n.IsOrdered ∧ n.IsTold) :
    listOfJson? (listToJson ns) = some ns :=
  ofItems?_toJsonAll ns h

end Node

end LiveDoc
