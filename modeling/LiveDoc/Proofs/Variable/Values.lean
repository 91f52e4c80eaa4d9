import LiveDoc.Proofs.Node.Values
import LiveDoc.Proofs.Table
import LiveDoc.Proofs.Variable.Declaration

/-!
# Values put into a forest

Putting values in and showing content with values look at the same variables in the same order of
precedence. What is declared does not depend on the values.
-/

set_option autoImplicit false
set_option relaxedAutoImplicit false

namespace LiveDoc

variable {f : String → Option Json → Option Json}

namespace Inline

theorem given_given {first second : Table Json} (hnodup : second.names.Nodup) (name : String)
    (own : Option Json) :
    given second name (given first name own) = given (first.union second) name own := by
  rw [given, given, given, Table.get?_union hnodup, Option.or_assoc]

theorem given_self (values : Table Json) (name : String) (own : Option Json) :
    given values name (given values name own) = given values name own := by
  rw [given, given, ← Option.or_assoc, Option.or_self]

theorem interpolate_given (values : Table Json) (content : List Inline) :
    interpolate [] (mapValuesAll (given values) content) = interpolate values content := by
  rw [interpolate, interpolate, plainWithAll_mapValuesAll]
  rfl

end Inline

namespace Variable

theorem occurrence?_mapValues (node : String) (item : Inline) :
    occurrence? node (item.mapValues f) = occurrence? node item := by
  cases item <;> rfl

theorem occurrences_mapValues (ns : Forest) :
    occurrences (Forest.mapValues f ns) = occurrences ns := by
  rw [occurrences, occurrences, Forest.preorder_mapValues, List.flatMap_map]
  refine List.flatMap_congr fun n _ => ?_
  rw [Node.content_mapValues, Inline.piecesOf_mapValuesAll, List.filterMap_map, Node.id_mapValues]
  exact List.filterMap_congr fun item _ => occurrence?_mapValues n.id item

end Variable

namespace Forest

/-- A forest without the values of its variables. -/
def withoutValues (ns : Forest) : Forest := mapValues (fun _ _ => none) ns

theorem withoutValues_withValues (values : Table Json) (ns : Forest) :
    withoutValues (withValues values ns) = withoutValues ns := by
  rw [withoutValues, withoutValues, withValues_eq, mapValues_mapValues]

theorem ids_mapValues (ns : Forest) : ids (mapValues f ns) = ids ns := by
  rw [ids, ids, preorder_mapValues, List.map_map]
  exact List.map_congr_left fun n _ => n.id_mapValues

theorem value_of_mem_withValues {values : Table Json} {ns : Forest} {n : Node} {name : String}
    {prompt : Option String} {value : Option Json} (hn : n ∈ preorder (withValues values ns))
    (h : .var name prompt value ∈ Inline.piecesOf n.content) :
    (∃ d ∈ Variable.definitions ns, d.name = name) ∧
      ∃ own, value = Inline.given values name own := by
  rw [withValues_eq, preorder_mapValues] at hn
  obtain ⟨before, hbefore, rfl⟩ := List.mem_map.1 hn
  rw [Node.content_mapValues, Inline.piecesOf_mapValuesAll] at h
  obtain ⟨piece, hpiece, h⟩ := List.mem_map.1 h
  cases piece with
  | var other asked own =>
    obtain ⟨rfl, rfl, rfl⟩ := Inline.var.inj h
    have hoccurs : (⟨before.id, other, asked.filter (!Text.isAllBlank ·)⟩ : Variable.Occurrence) ∈
        Variable.occurrences ns :=
      Variable.mem_occurrences_iff.2 ⟨before, hbefore, asked, own, hpiece, rfl⟩
    obtain ⟨d, hd, hname, -⟩ := Variable.exists_definition hoccurs
    exact ⟨⟨d, hd, hname⟩, own, rfl⟩
  | text | mention | link | note => simp [Inline.mapValues] at h

/-- Putting values in and showing content with values agree: what is put in is shown without any
table, of two tables the second counts, nothing but values changes, so that walks come to the same
variables, and values for all definitions leave no variable without one. -/
theorem values_agree (ns : Forest) (values first : Table Json) {second : Table Json}
    (hsecond : second.Sorted) :
    (preorder (withValues values ns)).map (fun n => Inline.interpolate [] n.content) =
        (preorder ns).map (fun n => Inline.interpolate values n.content) ∧
      withValues second (withValues first ns) = withValues (first.union second) ns ∧
      withValues values (withValues values ns) = withValues values ns ∧
      (withoutValues (withValues values ns) = withoutValues ns ∧
        ids (withValues values ns) = ids ns ∧
        Variable.occurrences (withValues values ns) = (walk ns).flatMap (fun n =>
          (Inline.walk n.content).filterMap (Variable.occurrence? n.id)) ∧
        Variable.definitions (withValues values ns) = Variable.definitions ns ∧
        Variable.conflicts (withValues values ns) = Variable.conflicts ns) ∧
      ((∀ d ∈ Variable.definitions ns, values.has d.name) →
        ∀ n ∈ preorder (withValues values ns), ∀ name prompt value,
          .var name prompt value ∈ Inline.piecesOf n.content → value.isSome) := by
  have hoccurrences : Variable.occurrences (withValues values ns) = Variable.occurrences ns := by
    rw [withValues_eq, Variable.occurrences_mapValues]
  refine ⟨?_, ?_, ?_, ⟨withoutValues_withValues values ns, ?_, ?_, ?_, ?_⟩, ?_⟩
  · rw [withValues_eq, preorder_mapValues, List.map_map]
    refine List.map_congr_left fun n _ => ?_
    rw [Function.comp_apply, Node.content_mapValues, Inline.interpolate_given]
  · rw [withValues_eq, withValues_eq, withValues_eq, mapValues_mapValues]
    simp only [Inline.given_given hsecond.nodup]
  · rw [withValues_eq, withValues_eq, mapValues_mapValues]
    simp only [Inline.given_self]
  · rw [withValues_eq, ids_mapValues]
  · rw [hoccurrences, Variable.occurrences_eq_walk]
  · rw [Variable.definitions, hoccurrences, Variable.definitions]
  · rw [Variable.conflicts, hoccurrences, Variable.conflicts]
  · intro hvalues n hn name prompt value h
    obtain ⟨⟨d, hd, rfl⟩, own, rfl⟩ := value_of_mem_withValues hn h
    have hsome : (values.get? d.name).isSome := hvalues d hd
    rw [Inline.given, Option.isSome_or, hsome, Bool.true_or]

/-- A variable in a note in a link, with a value of its own, under two tables. -/
theorem values_agree_nested :
    let ns : Forest := [.block ⟨"p", "paragraph", [],
      [.link "u" [.note none none [.var "x" none (some (.str "old"))], .var "y" none none]]⟩ none]
    let first : Table Json := [("x", .bool true), ("y", .str "first")]
    let second : Table Json := [("y", .null)]
    second.Sorted ∧
      (preorder (withValues first ns)).map (fun n => Inline.interpolate [] n.content) =
        ["truefirst"] ∧
      (preorder (withValues second (withValues first ns))).map
        (fun n => Inline.interpolate [] n.content) = ["truenull"] ∧
      (∀ d ∈ Variable.definitions ns, first.has d.name) ∧
      ∀ n ∈ preorder (withValues first ns), ∀ name prompt value,
        .var name prompt value ∈ Inline.piecesOf n.content → value.isSome := by
  intro ns first second
  have hsecond : second.Sorted := List.pairwise_singleton _ _
  have hvalues : ∀ d ∈ Variable.definitions ns, first.has d.name := by decide +kernel
  obtain ⟨hshown, htwice, -, -, hall⟩ := values_agree ns first first hsecond
  refine ⟨hsecond, ?_, ?_, hvalues, hall hvalues⟩
  · rw [hshown]
    decide +kernel
  · rw [htwice]
    decide +kernel

end Forest

end LiveDoc
