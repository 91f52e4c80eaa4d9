import LiveDoc.Edit.JsonForm
import LiveDoc.Proofs.Edit.DistinctIds
import LiveDoc.Proofs.Node.JsonForm

/-!
# Reading back the JSON form of edit operations

Every operation is read back from its JSON form by its tag. Markers that are not set are left out of
it and come out as not set.
-/

set_option autoImplicit false
set_option relaxedAutoImplicit false

namespace LiveDoc.Edit

open Json (required?_ofList defaulted?_ofList optional?_ofList optional?_string fields? member?
  names_member? Tagging)

variable {members : List (String × Json)}

section Flags

variable {name : String} {flag : Bool}

theorem names_flagMember : ((flagMember name flag).map Prod.fst).Sublist [name] := by
  cases flag <;> simp [flagMember]

@[simp] theorem get?_flagMember_self :
    Table.get? name (flagMember name flag) = if flag then some (.bool true) else none := by
  cases flag <;> simp [flagMember, Table.get?]

@[simp] theorem get?_flagMember_of_ne {other : String} (h : other ≠ name) :
    Table.get? name (flagMember other flag) = none := by
  cases flag <;> simp [flagMember, Table.get?, h]

theorem flag_ofList (hnodup : (members.map Prod.fst).Nodup)
    (hget : Table.get? name members = if flag then some (.bool true) else none) :
    Json.defaulted? false Json.bool? name (Table.ofList members) = some flag := by
  rw [defaulted?_ofList hnodup, hget]
  cases flag <;> rfl

end Flags

theorem Markers.names_members (m : Markers) :
    (m.members.map Prod.fst).Sublist ["afterBlockId", "atStart", "atEnd"] := by
  rw [members, List.map_append, List.map_append]
  exact (names_member?.append names_flagMember).append names_flagMember

theorem Targets.names_members (t : Targets) :
    (t.members.map Prod.fst).Sublist ["blockId", "blockIds", "fromBlockId", "toBlockId"] := by
  rw [members, List.map_append, List.map_append, List.map_append]
  exact ((names_member?.append names_member?).append names_member?).append names_member?

theorem Markers.ofMembers?_ofList {m : Markers} (hnodup : (members.map Prod.fst).Nodup)
    (hget : ∀ name ∈ ["afterBlockId", "atStart", "atEnd"],
      Table.get? name members = Table.get? name m.members) :
    ofMembers? (Table.ofList members) = some m := by
  have hafter : Table.get? "afterBlockId" members = m.after.map .str := by
    simp [hget "afterBlockId" (by simp), Markers.members]
  have hstart : Table.get? "atStart" members =
      if m.atStart then some (.bool true) else Option.none := by
    simp [hget "atStart" (by simp), Markers.members]
  have hend : Table.get? "atEnd" members =
      if m.atEnd then some (.bool true) else Option.none := by
    simp [hget "atEnd" (by simp), Markers.members]
  simp [ofMembers?, optional?_string hnodup hafter, flag_ofList hnodup hstart,
    flag_ofList hnodup hend]

theorem Targets.ofMembers?_ofList {t : Targets} (hnodup : (members.map Prod.fst).Nodup)
    (hget : ∀ name ∈ ["blockId", "blockIds", "fromBlockId", "toBlockId"],
      Table.get? name members = Table.get? name t.members) :
    ofMembers? (Table.ofList members) = some t := by
  have hblock : Table.get? "blockId" members = t.block.map .str := by
    simp [hget "blockId" (by simp), Targets.members]
  have hblocks : Table.get? "blockIds" members = t.blocks.map .ofStrings := by
    simp [hget "blockIds" (by simp), Targets.members]
  have hfirst : Table.get? "fromBlockId" members = t.first.map .str := by
    simp [hget "fromBlockId" (by simp), Targets.members]
  have hlast : Table.get? "toBlockId" members = t.last.map .str := by
    simp [hget "toBlockId" (by simp), Targets.members]
  have hread : Json.optional? (Json.list? Json.string?) "blockIds" (Table.ofList members) =
      some t.blocks :=
    optional?_ofList hnodup hblocks fun ids _ =>
      ⟨by simp [Json.ofStrings], Json.list?_ofStrings ids⟩
  simp [ofMembers?, optional?_string hnodup hblock, optional?_string hnodup hfirst,
    optional?_string hnodup hlast, hread]

namespace Operation

/-- The tables and values that an operation sets. -/
def values : Operation → List Json
  | .setProp _ _ value => [value]
  | .setParameters _ parameters => [.obj parameters]
  | .setContent .. | .rename .. | .insert .. | .delete _ | .replace .. | .move .. => []

def pieces : Operation → List Inline
  | .setContent _ content => Inline.piecesOf content
  | .setProp .. | .setParameters .. | .rename .. | .insert .. | .delete _ | .replace ..
  | .move .. => []

/-- All tables and values in an operation are in order, as all that are kept are. -/
structure IsOrdered (o : Operation) : Prop where
  values : ∀ j ∈ o.values, j.IsOrdered
  pieces : ∀ p ∈ o.pieces, p.IsOrdered
  nodes : ∀ n ∈ Forest.preorder o.carried, n.IsOrdered

/-- The JSON form tells everything about what an operation sets and carries. -/
structure IsTold (o : Operation) : Prop where
  pieces : ∀ p ∈ o.pieces, p.IsTold
  nodes : ∀ n ∈ Forest.preorder o.carried, n.IsTold

instance : DecidablePred IsOrdered := fun o =>
  decidable_of_iff ((∀ j ∈ o.values, j.IsOrdered) ∧ (∀ p ∈ o.pieces, p.IsOrdered) ∧
    ∀ n ∈ Forest.preorder o.carried, n.IsOrdered)
    ⟨fun h => ⟨h.1, h.2.1, h.2.2⟩, fun h => ⟨h.values, h.pieces, h.nodes⟩⟩

instance : DecidablePred IsTold := fun o =>
  decidable_of_iff ((∀ p ∈ o.pieces, p.IsTold) ∧ ∀ n ∈ Forest.preorder o.carried, n.IsTold)
    ⟨fun h => ⟨h.1, h.2⟩, fun h => ⟨h.pieces, h.nodes⟩⟩

theorem nodup_members (o : Operation) :
    ((("type", Json.str o.name) :: o.members).map Prod.fst).Nodup := by
  cases o with
  | insert place nodes =>
    simp only [members, List.map_cons, List.map_append]
    exact ((((List.Sublist.refl ["type"]).append place.names_members).append
      (List.Sublist.refl ["nodes"])).nodup (by decide))
  | move targets place =>
    simp only [members, List.map_cons, List.map_append]
    exact ((((List.Sublist.refl ["type"]).append targets.names_members).append
      place.names_members).nodup (by decide))
  | _ => simp [members]

theorem ofJson?_toJson_eq (tagging : Tagging) (o : Operation) :
    ofJson? tagging o.toJson = ofCase? o.name (.record o.members) := by
  have htagged : Json.tagged? "type" tagging cases o.toJson = some (o.name, .record o.members) :=
    Json.tagged?_record o.nodup_members (by cases o <;> simp [name, cases])
  rw [ofJson?, htagged, Option.bind_eq_bind, Option.bind_some]

theorem ofJson?_toJson (tagging : Tagging) {o : Operation} (hordered : o.IsOrdered)
    (htold : o.IsTold) : ofJson? tagging o.toJson = some o := by
  have hnodup := (List.nodup_cons.1 o.nodup_members).2
  rw [ofJson?_toJson_eq]
  cases o with
  | setProp block name value =>
    have hvalue := (hordered.values value (by simp [values])).value?
    simp [Operation.name, ofCase?, fields?, Json.record, required?_ofList, members, Table.get?,
      Json.string?, hvalue]
  | setContent block content =>
    have hcontent := Inline.listOfJson?_listToJson .numbered fun p hp =>
      ⟨hordered.pieces p hp, htold.pieces p hp⟩
    simp [Operation.name, ofCase?, fields?, Json.record, required?_ofList, members, Table.get?,
      Json.string?, hcontent]
  | setParameters block parameters =>
    have hparameters := (hordered.values (.obj parameters) (by simp [values])).table?
    simp [Operation.name, ofCase?, fields?, Json.record, required?_ofList, members, Table.get?,
      Json.string?, hparameters]
  | rename block new =>
    simp [Operation.name, ofCase?, fields?, Json.record, required?_ofList, members, Table.get?,
      Json.string?]
  | insert place nodes =>
    have hnodes := Node.listOfJson?_listToJson fun n hn =>
      ⟨hordered.nodes n hn, htold.nodes n hn⟩
    have hplace : Markers.ofMembers? (Table.ofList (insert place nodes).members) = some place :=
      Markers.ofMembers?_ofList hnodup (by simp [members, Markers.members, Table.get?])
    have hfound : Table.get? "nodes" (insert place nodes).members =
        some (Node.listToJson nodes) := by
      simp [members, Markers.members, Table.get?]
    simp only [carried] at hnodes
    simp [Operation.name, ofCase?, fields?, Json.record, required?_ofList hnodup, hplace, hfound,
      hnodes]
  | delete block =>
    simp [Operation.name, ofCase?, fields?, Json.record, required?_ofList, members, Table.get?,
      Json.string?]
  | replace block nodes =>
    have hnodes := Node.listOfJson?_listToJson fun n hn =>
      ⟨hordered.nodes n hn, htold.nodes n hn⟩
    simp only [carried] at hnodes
    simp [Operation.name, ofCase?, fields?, Json.record, required?_ofList, members, Table.get?,
      Json.string?, hnodes]
  | move targets place =>
    have htargets : Targets.ofMembers? (Table.ofList (move targets place).members) =
        some targets :=
      Targets.ofMembers?_ofList hnodup (by simp [members, Targets.members, Markers.members])
    have hplace : Markers.ofMembers? (Table.ofList (move targets place).members) = some place :=
      Markers.ofMembers?_ofList hnodup (by simp [members, Targets.members, Markers.members])
    simp [Operation.name, ofCase?, fields?, Json.record, hplace, htargets]

end Operation

end LiveDoc.Edit
