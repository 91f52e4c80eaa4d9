import LiveDoc.Inline.JsonForm
import LiveDoc.Proofs.Json.Record

/-!
# Reading back the JSON form of inline content

Every piece is read back from its JSON form, at any depth, but for one whose value is null: that is
read as missing.
-/

set_option autoImplicit false
set_option relaxedAutoImplicit false

namespace LiveDoc.Inline

open Json (required?_ofList defaulted?_ofList optional?_ofList optional?_string fields? member?
  Tagging)

def resolved? : Inline → Option Json
  | .var _ _ value => value
  | _ => none

/-- The value of a variable is in order, as it is in all that are kept. -/
def IsOrdered (i : Inline) : Prop := ∀ j ∈ i.resolved?, j.IsOrdered

/-- The JSON form tells whether there is a value: null is read as none. -/
def IsTold (i : Inline) : Prop := i.resolved? ≠ some .null

instance : DecidablePred IsOrdered := fun i =>
  inferInstanceAs (Decidable (∀ j ∈ i.resolved?, j.IsOrdered))

instance : DecidablePred IsTold := fun _ => inferInstanceAs (Decidable (_ ≠ _))

theorem ofJson?_record {tagging : Tagging} {case : String} {members : List (String × Json)}
    (h : ((("type", Json.str case) :: members).map Prod.fst).Nodup) (hcase : case ∈ cases) :
    ofJson? tagging (.record (("type", .str case) :: members)) =
      ofCase? case (.record members)
        (((Table.get? "content" members).map fun value =>
          (listOfJson? .numbered value).map some).getD (some none)) := by
  have htagged : Json.tagged? "type" tagging cases (.record (("type", .str case) :: members)) =
      some (case, .record members) := Json.tagged?_record h hcase
  have hnested : nestedMember? (Table.ofList (("type", .str case) :: members)) =
      ((Table.get? "content" (("type", .str case) :: members)).map fun value =>
        (listOfJson? .numbered value).map some).getD (some none) :=
    Json.search_ofList h rfl fun _ _ _ => rfl
  have hcontent : Table.get? "content" (("type", Json.str case) :: members) =
      Table.get? "content" members := rfl
  rw [Json.record] at htagged
  rw [Json.record, ofJson?, htagged, Option.bind_eq_bind, Option.bind_some, hnested, hcontent]

section Cases

variable {members : List (String × Json)} {nested : Nested}

private theorem ofCase?_var {name : String} {prompt : Option String} {value : Option Json}
    (hnodup : (members.map Prod.fst).Nodup)
    (hname : Table.get? "name" members = some (.str name))
    (hprompt : Table.get? "prompt" members = prompt.map .str)
    (hvalue : Table.get? "resolvedValue" members = value.map id)
    (hordered : IsOrdered (.var name prompt value)) (htold : IsTold (.var name prompt value)) :
    ofCase? "variable" (.record members) nested = some (.var name prompt value) := by
  have hresolved : Json.optional? Json.value? "resolvedValue" (Table.ofList members) =
      some value :=
    optional?_ofList hnodup hvalue fun j hj =>
      ⟨fun hnull => htold (hnull ▸ hj), (hordered j hj).value?⟩
  simp [ofCase?, fields?, Json.record, required?_ofList hnodup, hname, Json.string?,
    optional?_string hnodup hprompt, hresolved]

private theorem ofCase?_note {title comment : Option String} {content : List Inline}
    (hnodup : (members.map Prod.fst).Nodup)
    (htitle : Table.get? "title" members = title.map .str)
    (hcomment : Table.get? "comment" members = comment.map .str)
    (hcontent : nested.content? = some content) :
    ofCase? "annotation" (.record members) nested = some (.note title comment content) := by
  simp [ofCase?, fields?, Json.record, optional?_string hnodup htitle,
    optional?_string hnodup hcomment, hcontent]

end Cases

mutual

theorem ofJson?_toJson (tagging : Tagging) :
    ∀ i : Inline, (∀ p ∈ i.pieces, p.IsOrdered ∧ p.IsTold) → ofJson? tagging i.toJson = some i
  | .text chars styles, _ => by
    rw [toJson, List.cons_append, ofJson?_record (by split <;> simp) (by decide)]
    by_cases hstyles : styles = []
    · simp [hstyles, ofCase?, fields?, Json.record, required?_ofList, defaulted?_ofList, Table.get?,
        Json.string?]
    · simp [hstyles, ofCase?, fields?, Json.record, required?_ofList, defaulted?_ofList, Table.get?,
        Json.string?, Json.list?_ofStrings]
  | .var name prompt value, h => by
    have hnodup : ((("type", Json.str "variable") :: ([("name", Json.str name)] ++
        member? "prompt" .str prompt ++ member? "resolvedValue" id value)).map
          Prod.fst).Nodup := by
      cases prompt <;> cases value <;> simp [member?]
    rw [toJson]
    refine (ofJson?_record hnodup (by decide)).trans ?_
    obtain ⟨hordered, htold⟩ := h (.var name prompt value) (by simp [pieces])
    refine ofCase?_var (List.nodup_cons.1 hnodup).2 ?_ ?_ ?_ hordered htold
    · simp [Table.get?]
    · simp [Table.get?]
    · simp [Table.get?]
  | .mention kind ident label, _ => by
    rw [toJson, ofJson?_record (by simp) (by decide)]
    simp [ofCase?, fields?, Json.record, required?_ofList, Table.get?, Json.string?]
  | .link href content, h => by
    have hcontent := ofItems?_toJsonAll .numbered content fun p hp =>
      h p (List.mem_cons_of_mem _ hp)
    rw [toJson, ofJson?_record (by simp) (by decide)]
    simp [ofCase?, fields?, Json.record, required?_ofList, Table.get?, Json.string?, listOfJson?,
      hcontent, Nested.content?]
  | .note title comment content, h => by
    have hcontent := ofItems?_toJsonAll .numbered content fun p hp =>
      h p (List.mem_cons_of_mem _ hp)
    have hnodup : ((("type", Json.str "annotation") :: ([("content", .arr (toJsonAll content))] ++
        member? "title" .str title ++ member? "comment" .str comment)).map Prod.fst).Nodup := by
      cases title <;> cases comment <;> simp [member?]
    rw [toJson]
    refine (ofJson?_record hnodup (by decide)).trans ?_
    refine ofCase?_note (List.nodup_cons.1 hnodup).2 ?_ ?_ ?_
    · simp [Table.get?]
    · simp [Table.get?]
    · simp [Table.get?, listOfJson?, hcontent, Nested.content?]
termination_by structural i => i

theorem ofItems?_toJsonAll (tagging : Tagging) :
    ∀ content : List Inline, (∀ p ∈ piecesOf content, p.IsOrdered ∧ p.IsTold) →
      ofItems? tagging (toJsonAll content) = some content
  | [], _ => rfl
  | item :: rest, h => by
    rw [piecesOf, List.forall_mem_append] at h
    have hitem := ofJson?_toJson tagging item h.1
    have hrest := ofItems?_toJsonAll tagging rest h.2
    simp only [toJsonAll, ofItems?, hitem, hrest, Option.bind_eq_bind, Option.bind_some]
termination_by structural content => content

end

theorem listOfJson?_listToJson (tagging : Tagging) {content : List Inline}
    (h : ∀ p ∈ piecesOf content, p.IsOrdered ∧ p.IsTold) :
    listOfJson? tagging (listToJson content) = some content :=
  ofItems?_toJsonAll tagging content h

end LiveDoc.Inline
