import LiveDoc.Proofs.Reading.Steps

/-!
# How elements make operations and sources

The cases in which an element is read as an edit operation and a root as a source, by their names.
-/

set_option autoImplicit false
set_option relaxedAutoImplicit false

namespace LiveDoc.Reading

open Markup (Element Item)
open Edit (Operation)

variable {g : Grammar} {path : Path} {e : Element} {o : Operation} {supply left : IdSupply}

/-- An operation that an element of some type makes: what its attributes say, and what stands in it,
if it takes anything. -/
inductive Performs (g : Grammar) (path : Path) (e : Element) (type : String) (supply : IdSupply) :
    Operation → IdSupply → Prop
  | setProp (name : e.name = "edit:attr") :
    Performs g path e type supply
      (.setProp (e.attr "blockId") (e.attr "name") (.str (e.attr "value"))) supply
  | setContent {content : List Inline} (name : e.name = "edit:content")
    (inside : rich g path e.name type [] e.items = .ok content) :
    Performs g path e type supply (.setContent (e.attr "blockId") content) supply
  | setParameters {parameters : Table Json} (name : e.name = "edit:params")
    (inside : jsonObject g path e = .ok parameters) :
    Performs g path e type supply (.setParameters (e.attr "blockId") parameters) supply
  | rename (name : e.name = "edit:id") :
    Performs g path e type supply (.rename (e.attr "blockId") (e.attr "newId")) supply
  | insert {nodes : Forest} {left : IdSupply} (name : e.name = "insert")
    (inside : blocks g path e.name type 0 e.items supply = .ok (nodes, left)) :
    Performs g path e type supply (.insert (markers e) nodes) left
  | delete (name : e.name = "delete") :
    Performs g path e type supply (.delete (e.attr "blockId")) supply
  | replace {nodes : Forest} {left : IdSupply} (name : e.name = "replace")
    (inside : blocks g path e.name type 0 e.items supply = .ok (nodes, left)) :
    Performs g path e type supply (.replace (e.attr "blockId") nodes) left
  | move (name : e.name = "move") :
    Performs g path e type supply (.move (targets e) (markers e)) supply

/-- An element is read as an operation exactly if nothing is wrong with its attributes and it makes
one. -/
theorem operation_eq_ok_iff :
    operation g path e supply = .ok (o, left) ↔
      g.checkAttributes e.name e.attributes = [] ∧
        ∃ type, g.type? e.name = some type ∧ Performs g path e type supply o left := by
  simp only [operation, Read.bind_eq_ok_iff, Read.lift_eq_ok_iff, typeOf_eq_ok_iff]
  constructor
  · rintro ⟨⟨⟩, _, ⟨hcheck, rfl⟩, type, _, ⟨htype, rfl⟩, h⟩
    refine ⟨checkAttributes_eq_ok_iff.1 hcheck, type, htype, ?_⟩
    obtain ⟨r, hr, h⟩ : ∃ r : Read Operation, r = _ ∧ r _ = .ok (o, left) := ⟨_, rfl, h⟩
    split at hr <;> subst hr <;> rename_i hname
    · obtain ⟨rfl, rfl⟩ := Read.pure_eq_ok_iff.1 h
      exact .setProp hname
    · simp only [Read.bind_eq_ok_iff, Read.lift_eq_ok_iff, Read.pure_eq_ok_iff] at h
      obtain ⟨content, _, ⟨hcontent, rfl⟩, rfl, rfl⟩ := h
      exact .setContent hname hcontent
    · simp only [Read.bind_eq_ok_iff, Read.lift_eq_ok_iff, Read.pure_eq_ok_iff] at h
      obtain ⟨parameters, _, ⟨hparameters, rfl⟩, rfl, rfl⟩ := h
      exact .setParameters hname hparameters
    · obtain ⟨rfl, rfl⟩ := Read.pure_eq_ok_iff.1 h
      exact .rename hname
    · simp only [Read.bind_eq_ok_iff, Read.pure_eq_ok_iff] at h
      obtain ⟨nodes, _, hnodes, rfl, rfl⟩ := h
      exact .insert hname hnodes
    · obtain ⟨rfl, rfl⟩ := Read.pure_eq_ok_iff.1 h
      exact .delete hname
    · simp only [Read.bind_eq_ok_iff, Read.pure_eq_ok_iff] at h
      obtain ⟨nodes, _, hnodes, rfl, rfl⟩ := h
      exact .replace hname hnodes
    · obtain ⟨rfl, rfl⟩ := Read.pure_eq_ok_iff.1 h
      exact .move hname
    · simp [Read.lift_eq_ok_iff] at h
  · rintro ⟨hcheck, type, htype, hperforms⟩
    refine ⟨(), supply, ⟨checkAttributes_eq_ok_iff.2 hcheck, rfl⟩, type, supply, ⟨htype, rfl⟩, ?_⟩
    cases hperforms with
    | setProp name => rw [name]; rfl
    | setContent name inside =>
      rw [name] at inside ⊢
      simp only [Read.bind_eq_ok_iff, Read.lift_eq_ok_iff, Read.pure_eq_ok_iff]
      exact ⟨_, _, ⟨inside, rfl⟩, rfl, rfl⟩
    | setParameters name inside =>
      rw [name]
      simp only [Read.bind_eq_ok_iff, Read.lift_eq_ok_iff, Read.pure_eq_ok_iff]
      exact ⟨_, _, ⟨inside, rfl⟩, rfl, rfl⟩
    | rename name => rw [name]; rfl
    | insert name inside =>
      rw [name] at inside ⊢
      simp only [Read.bind_eq_ok_iff, Read.pure_eq_ok_iff]
      exact ⟨_, _, inside, rfl, rfl⟩
    | delete name => rw [name]; rfl
    | replace name inside =>
      rw [name] at inside ⊢
      simp only [Read.bind_eq_ok_iff, Read.pure_eq_ok_iff]
      exact ⟨_, _, inside, rfl, rfl⟩
    | move name => rw [name]; rfl

theorem operations_originate {parent type : String} {index : Nat} {os : List Operation}
    {items : List (Item Element)}
    (h : operations g path parent type index items supply = .ok (os, left)) :
    ∀ o ∈ os, ∃ e, .element e ∈ items ∧
      ∃ (path : Path) (supply left : IdSupply), operation g path e supply = .ok (o, left) := by
  induction items generalizing index os supply with
  | nil =>
    obtain ⟨rfl, rfl⟩ := Read.pure_eq_ok_iff.1 h
    simp
  | cons item rest ih =>
    cases item with
    | text chars | literal chars =>
      simp only [operations] at h
      split at h
      · exact fun o ho => (ih h o ho).imp fun _ h => ⟨List.mem_cons_of_mem _ h.1, h.2⟩
      · simp [Read.lift_eq_ok_iff] at h
    | element inner =>
      simp only [operations, Read.bind_eq_ok_iff, Read.lift_eq_ok_iff, Read.pure_eq_ok_iff] at h
      obtain ⟨⟨⟩, _, -, first, mid, hinner, others, _, hrest, rfl, rfl⟩ := h
      refine List.forall_mem_cons.2 ⟨⟨inner, List.mem_cons_self, _, _, _, hinner⟩, fun o ho => ?_⟩
      exact (ih hrest o ho).imp fun _ h => ⟨List.mem_cons_of_mem _ h.1, h.2⟩

inductive Roots (g : Grammar) (root : Element) (ident : String) (supply : IdSupply) :
    Source → IdSupply → Prop
  | document {d : Document} {left : IdSupply} (name : root.name = "document")
    (inside : document g root ident ["id"] supply = .ok (d, left)) :
    Roots g root ident supply (.document d) left
  | agent {a : Agent} {left : IdSupply} (name : root.name = "agent")
    (inside : agent g root ident supply = .ok (a, left)) : Roots g root ident supply (.agent a) left
  | diff {d : Diff} {left : IdSupply} (name : root.name = "diff")
    (inside : diff g root supply = .ok (d, left)) : Roots g root ident supply (.diff d) left

theorem source_eq_ok_iff {root : Element} {ident : String} {s : Source} :
    source g root ident supply = .ok (s, left) ↔ Roots g root ident supply s left := by
  constructor
  · intro h
    unfold source at h
    obtain ⟨r, hr, h⟩ : ∃ r : Read Source, r = _ ∧ r _ = .ok (s, left) := ⟨_, rfl, h⟩
    split at hr <;> subst hr <;> rename_i hname
    · simp only [Read.bind_eq_ok_iff, Read.pure_eq_ok_iff] at h
      obtain ⟨d, _, hd, rfl, rfl⟩ := h
      exact .document hname hd
    · simp only [Read.bind_eq_ok_iff, Read.pure_eq_ok_iff] at h
      obtain ⟨a, _, ha, rfl, rfl⟩ := h
      exact .agent hname ha
    · simp only [Read.bind_eq_ok_iff, Read.pure_eq_ok_iff] at h
      obtain ⟨d, _, hd, rfl, rfl⟩ := h
      exact .diff hname hd
    · simp [Read.lift_eq_ok_iff] at h
  · intro h
    cases h with
    | document name inside =>
      simp only [source, name, Read.bind_eq_ok_iff, Read.pure_eq_ok_iff]
      exact ⟨_, _, inside, rfl, rfl⟩
    | agent name inside =>
      simp only [source, name, Read.bind_eq_ok_iff, Read.pure_eq_ok_iff]
      exact ⟨_, _, inside, rfl, rfl⟩
    | diff name inside =>
      simp only [source, name, Read.bind_eq_ok_iff, Read.pure_eq_ok_iff]
      exact ⟨_, _, inside, rfl, rfl⟩

end LiveDoc.Reading
