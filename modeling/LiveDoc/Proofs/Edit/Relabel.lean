import LiveDoc.Proofs.Edit.Selection
import LiveDoc.Proofs.Forest.Relabel

/-!
# Operations on relabelled forests

An operation does to a relabelled forest what it does to the forest itself, relabelled: it compares
ids with one another and looks at nothing else that nodes hold, but for the field that it sets.
-/

set_option autoImplicit false
set_option relaxedAutoImplicit false

namespace LiveDoc

namespace Edit

def Failure.mapIds (f : String → String) : Failure → Failure
  | .nodeNotFound ident => .nodeNotFound (f ident)
  | .duplicateId ident => .duplicateId (f ident)
  | .notACall ident => .notACall (f ident)
  | .notABlock ident => .notABlock (f ident)
  | .obstacle (.notSiblings first last) => .obstacle (.notSiblings (f first) (f last))
  | .obstacle (.comesAfter first last) => .obstacle (.comesAfter (f first) (f last))
  | .obstacle (.nested block) => .obstacle (.nested (f block))
  | .obstacle (.anchorMoves anchor) => .obstacle (.anchorMoves (f anchor))
  | .misuse m => .misuse m

def Position.mapIds (f : String → String) : Position → Position
  | .after anchor => .after (f anchor)
  | .start => .start
  | .finish => .finish

def MoveTarget.mapIds (f : String → String) : MoveTarget → MoveTarget
  | .single block => .single (f block)
  | .several blocks => .several (blocks.map f)
  | .run first last => .run (f first) (f last)

def Markers.mapIds (f : String → String) (m : Markers) : Markers :=
  { m with after := m.after.map f }

def Targets.mapIds (f : String → String) (t : Targets) : Targets :=
  ⟨t.block.map f, t.blocks.map (List.map f), t.first.map f, t.last.map f⟩

def Operation.named? : Operation → Option String
  | .setProp block _ _ | .setContent block _ | .setParameters block _ | .rename block _ =>
    some block
  | .insert .. | .delete _ | .replace .. | .move .. => none

section Markers

variable (f : String → String)

theorem position_mapIds (m : Markers) :
    position (m.mapIds f) = mapEnds (Failure.mapIds f) (Position.mapIds f) (position m) := by
  obtain ⟨after, atStart, atEnd⟩ := m
  cases after <;> cases atStart <;> cases atEnd <;> rfl

theorem target_mapIds (t : Targets) :
    target (t.mapIds f) = mapEnds (Failure.mapIds f) (MoveTarget.mapIds f) (target t) := by
  obtain ⟨block, blocks, first, last⟩ := t
  cases first <;> cases last <;> cases block <;> cases blocks with
  | none => rfl
  | some blocks => cases blocks <;> rfl

end Markers

end Edit

namespace Relabelling

open Edit (Failed Failure MoveTarget Operation Outcome Position SetOrder)
open Forest (ids)

variable (r : Relabelling) {order order' : SetOrder} {ns : Forest}

/-- A failure with the ids of a relabelling, and the relabelled forest that it leaves. -/
def failed (f : Failed) : Failed := ⟨f.failure.mapIds r.ident, r.forest f.leftover⟩

/-- An operation with the ids of a relabelling, and with the nodes that it carries relabelled. -/
def operation : Operation → Operation
  | .setProp block name value => .setProp (r.ident block) name value
  | .setContent block content => .setContent (r.ident block) content
  | .setParameters block parameters => .setParameters (r.ident block) parameters
  | .rename block new => .rename (r.ident block) (r.ident new)
  | .insert place nodes => .insert (place.mapIds r.ident) (r.forest nodes)
  | .delete block => .delete (r.ident block)
  | .replace block nodes => .replace (r.ident block) (r.forest nodes)
  | .move targets place => .move (targets.mapIds r.ident) (place.mapIds r.ident)

/-- It makes no difference whether the node that an operation names is relabelled before it is
changed or afterwards. -/
def Respects (o : Operation) : Prop :=
  ∀ n : Node, o.named? = some n.id → (r.operation o).edited (r.node n) = r.node (o.edited n)

/-- An order goes through the new ids of a set as another one does through the old ones. -/
def Follows (order' order : SetOrder) : Prop :=
  ∀ idents, order'.list (idents.map r.ident) = (order.list idents).map r.ident

theorem exists_follows (order : SetOrder) : ∃ order', r.Follows order' order := by
  let old := Function.invFun r.ident
  have hback (idents : List String) : (idents.map r.ident).map old = idents := by
    rw [List.map_map, Function.invFun_comp r.injective, List.map_id]
  refine ⟨⟨fun idents => if (idents.map old).map r.ident = idents then
    (order.list (idents.map old)).map r.ident else idents, fun idents => ?_⟩, fun idents => ?_⟩
  · split
    · rename_i hnew
      exact ((order.perm _).map r.ident).trans (.of_eq hnew)
    · exact .refl idents
  · simp only [hback, if_true]

theorem orMissing_forest {changed changed' : Option Forest} (ident : String)
    (h : changed' = changed.map r.forest) :
    Edit.orMissing (r.forest ns) (r.ident ident) changed' =
      mapEnds r.failed r.forest (Edit.orMissing ns ident changed) := by
  subst h
  cases changed <;> rfl

theorem firstTaken?_map (taken new : List String) :
    Edit.firstTaken? (taken.map r.ident) (new.map r.ident) =
      (Edit.firstTaken? taken new).map r.ident := by
  induction new generalizing taken with
  | nil => rfl
  | cons ident rest ih =>
    rw [List.map_cons, Edit.firstTaken?, Edit.firstTaken?, ← List.map_cons, ih]
    simp only [List.mem_map_of_injective r.injective]
    split <;> rfl

theorem checkFresh_forest (ns new : Forest) :
    Edit.checkFresh (r.forest ns) (r.forest new) =
      mapEnds r.failed id (Edit.checkFresh ns new) := by
  rw [Edit.checkFresh, Edit.checkFresh, ids_forest, ids_forest, firstTaken?_map]
  cases Edit.firstTaken? (ids ns) (ids new) <;> rfl

theorem insertAt_forest (ns new : Forest) (pos : Position) :
    Edit.insertAt (r.forest ns) (r.forest new) (pos.mapIds r.ident) =
      mapEnds r.failed r.forest (Edit.insertAt ns new pos) := by
  cases pos with
  | start => rw [Position.mapIds, Edit.insertAt, Edit.insertAt, mapEnds_ok, forest_append]
  | finish => rw [Position.mapIds, Edit.insertAt, Edit.insertAt, mapEnds_ok, forest_append]
  | after anchor =>
    exact r.orMissing_forest anchor (r.splice?_forest (fun _ _ => rfl) ns)

theorem runIds_forest (ns : Forest) (first last : String) :
    Edit.runIds (r.forest ns) (r.ident first) (r.ident last) =
      mapEnds (Failure.mapIds r.ident) (List.map r.ident) (Edit.runIds ns first last) := by
  rw [Edit.runIds, Edit.runIds, locate?_forest, locate?_forest]
  cases Forest.locate? first ns with
  | none => rfl
  | some from? =>
    cases Forest.locate? last ns with
    | none => rfl
    | some to? =>
      simp only [siblings?_forest]
      split
      · rfl
      · split
        · rfl
        · cases Forest.siblings? from?.dropLast ns with
          | none => simp [mapEnds_ok]
          | some siblings =>
            simp [mapEnds_ok, forest_eq_map, ← List.map_take, ← List.map_drop, Function.comp_def]

theorem eraseDups_map (idents : List String) :
    (idents.map r.ident).eraseDups = idents.eraseDups.map r.ident := by
  match idents with
  | [] => rfl
  | ident :: rest =>
    have hkept : (rest.map r.ident).filter (fun other => !other == r.ident ident) =
        (rest.filter fun other => !other == ident).map r.ident := by
      rw [List.filter_map]
      congr 2
      funext other
      simp [r.ident_eq_iff, beq_eq_decide]
    rw [List.map_cons, List.eraseDups_cons, List.eraseDups_cons, hkept, eraseDups_map,
      List.map_cons]
termination_by idents.length
decreasing_by exact Nat.lt_succ_of_le (List.length_filter_le _ _)

theorem inOrder_forest (horder : r.Follows order' order) (hnodup : (ids ns).Nodup)
    (idents : List String) :
    Edit.inOrder order' (r.forest ns) (idents.map r.ident) =
      mapEnds (Failure.mapIds r.ident) (List.map r.ident) (Edit.inOrder order ns idents) := by
  have hfound : (ids (r.forest ns)).filter (· ∈ idents.map r.ident) =
      ((ids ns).filter (· ∈ idents)).map r.ident := by
    simp only [ids_forest, List.filter_map, Function.comp_def,
      List.mem_map_of_injective r.injective]
  rw [Edit.inOrder_eq, Edit.inOrder_eq, hfound, eraseDups_map, horder]
  simp only [List.length_map]
  split
  · rfl
  · rename_i hlength
    obtain ⟨block, hblock, hno⟩ := by simpa using mt (Edit.length_found_iff hnodup).2 hlength
    obtain ⟨ident, hmissing⟩ := Edit.exists_missing order hblock hno
    simp only [List.find?_map, Function.comp_def, List.mem_map_of_injective r.injective, hmissing]
    rfl

theorem movedIds_forest (horder : r.Follows order' order) (hnodup : (ids ns).Nodup)
    (what : MoveTarget) :
    Edit.movedIds order' (r.forest ns) (what.mapIds r.ident) =
      mapEnds (Failure.mapIds r.ident) (List.map r.ident) (Edit.movedIds order ns what) := by
  cases what with
  | single block => rfl
  | several blocks => exact r.inOrder_forest horder hnodup blocks
  | run first last => exact r.runIds_forest ns first last

theorem covered_forest (ns : Forest) (seen idents : List String) :
    Edit.covered (r.forest ns) (seen.map r.ident) (idents.map r.ident) =
      mapEnds (Failure.mapIds r.ident) (List.map r.ident) (Edit.covered ns seen idents) := by
  induction idents generalizing seen with
  | nil => rfl
  | cons ident rest ih =>
    rw [List.map_cons, Edit.covered, Edit.covered, find?_forest]
    cases Forest.find? ident ns with
    | none => rfl
    | some n =>
      have hids : ids [r.node n] = (ids [n]).map r.ident := r.ids_forest [n]
      simp only [Option.map_some, List.mem_map_of_injective r.injective, hids, ← List.map_append,
        ih]
      split <;> rfl

theorem checkApart_forest (ns : Forest) (idents : List String) (pos : Position) :
    Edit.checkApart (r.forest ns) (idents.map r.ident) (pos.mapIds r.ident) =
      mapEnds (Failure.mapIds r.ident) id (Edit.checkApart ns idents pos) := by
  have hcovered := r.covered_forest ns [] idents
  rw [List.map_nil] at hcovered
  rw [Edit.checkApart, Edit.checkApart, hcovered]
  apply mapEnds_bind
  intro inside
  cases pos with
  | start => rfl
  | finish => rfl
  | after anchor =>
    simp only [Position.mapIds, List.mem_map_of_injective r.injective]
    split <;> rfl

theorem takeOut_forest (idents : List String) (ns : Forest) :
    Edit.takeOut (idents.map r.ident) (r.forest ns) =
      mapEnds r.failed (Prod.map r.forest r.forest) (Edit.takeOut idents ns) := by
  induction idents generalizing ns with
  | nil => rfl
  | cons ident rest ih =>
    rw [List.map_cons, Edit.takeOut, Edit.takeOut, remove?_forest]
    cases Forest.remove? ident ns with
    | none => rfl
    | some taken =>
      simp only [Option.map_some, Prod.map, ih]
      apply mapEnds_bind
      intro others
      rfl

private theorem mapError_forest {α β : Type} (g : α → β) (x : Except Failure α) :
    (mapEnds (Failure.mapIds r.ident) g x).mapError (⟨·, r.forest ns⟩) =
      mapEnds r.failed g (x.mapError (⟨·, ns⟩)) := by
  cases x <;> rfl

theorem applyMove_forest (horder : r.Follows order' order) (hnodup : (ids ns).Nodup)
    (what : MoveTarget) (pos : Position) :
    Edit.applyMove order' (r.forest ns) (what.mapIds r.ident) (pos.mapIds r.ident) =
      mapEnds r.failed r.forest (Edit.applyMove order ns what pos) := by
  have hrelocate : Edit.applyMove.relocate order' (r.forest ns) (what.mapIds r.ident)
      (pos.mapIds r.ident) =
        mapEnds r.failed r.forest (Edit.applyMove.relocate order ns what pos) := by
    rw [Edit.applyMove.relocate, Edit.applyMove.relocate, r.movedIds_forest horder hnodup,
      r.mapError_forest]
    apply mapEnds_bind
    intro idents
    rw [checkApart_forest, r.mapError_forest]
    apply mapEnds_bind
    intro _
    rw [takeOut_forest]
    apply mapEnds_bind
    intro taken
    exact r.insertAt_forest taken.2 taken.1 pos
  cases what with
  | several blocks => exact hrelocate
  | run first last => exact hrelocate
  | single block =>
    cases pos with
    | start => exact hrelocate
    | finish => exact hrelocate
    | after anchor =>
      simp only [MoveTarget.mapIds, Position.mapIds, Edit.applyMove, r.ident_eq_iff,
        has_forest] at hrelocate ⊢
      split
      · split <;> rfl
      · exact hrelocate

theorem changeNode_forest {ident : String} {f f' : Node → Except Failure Node}
    (h : ∀ n : Node, n.id = ident →
      f' (r.node n) = mapEnds (Failure.mapIds r.ident) r.node (f n)) :
    Edit.changeNode (r.forest ns) (r.ident ident) f' =
      mapEnds r.failed r.forest (Edit.changeNode ns ident f) := by
  rw [Edit.changeNode, Edit.changeNode, find?_forest]
  cases hfind : Forest.find? ident ns with
  | none => rfl
  | some n =>
    simp only [Option.map_some, h n (Forest.find?_eq_some hfind).2]
    cases f n with
    | error failure => rfl
    | ok changed => exact r.orMissing_forest ident (r.splice?_forest (fun _ _ => rfl) ns)

variable {r}

/-- An operation does to a relabelled forest what it does to the forest itself, relabelled, or fails
for the same reason. -/
theorem Respects.apply {o : Operation} (h : r.Respects o) (horder : r.Follows order' order)
    (hnodup : (ids ns).Nodup) :
    (r.operation o).apply order' (r.forest ns) = mapEnds r.failed r.forest (o.apply order ns) := by
  cases o with
  | setProp block name value =>
    apply r.changeNode_forest
    intro n hid
    have hedited := h n (by rw [Operation.named?, hid])
    cases n with
    | block head children =>
      rw [node_block] at hedited ⊢
      exact congrArg Except.ok hedited
    | call c => exact congrArg (Except.error ∘ Failure.notABlock) (r.call_id c)
  | setContent block content =>
    rw [operation, Operation.apply, Operation.apply]
    apply r.changeNode_forest
    intro n hid
    exact congrArg Except.ok (h n (by rw [Operation.named?, hid]))
  | setParameters block parameters =>
    apply r.changeNode_forest
    intro n hid
    have hedited := h n (by rw [Operation.named?, hid])
    cases n with
    | block head children =>
      rw [node_block]
      exact congrArg (Except.error ∘ Failure.notACall) (r.block_id head)
    | call c => exact congrArg Except.ok hedited
  | rename block new =>
    simp only [operation, Operation.apply, has_forest, r.ident_eq_iff]
    split
    · rfl
    · split
      · rfl
      · split
        · rfl
        · apply r.orMissing_forest
          apply r.splice?_forest
          intro n hid
          exact congrArg (fun n => [n]) (h n (by rw [Operation.named?, hid]))
  | insert place nodes =>
    rw [operation, Operation.apply, Operation.apply, Edit.position_mapIds, mapError_forest]
    apply mapEnds_bind
    intro pos
    rw [checkFresh_forest]
    apply mapEnds_bind
    intro _
    exact r.insertAt_forest ns nodes pos
  | delete block =>
    exact r.orMissing_forest block (r.splice?_forest (fun _ _ => rfl) ns)
  | replace block nodes =>
    have hremoved : Forest.splice? (r.ident block) (fun _ => []) (r.forest ns) =
        (Forest.splice? block (fun _ => []) ns).map r.forest :=
      r.splice?_forest (fun _ _ => rfl) ns
    rw [operation, Operation.apply, Operation.apply, r.orMissing_forest block hremoved]
    apply mapEnds_bind
    intro left
    rw [checkFresh_forest]
    apply mapEnds_bind
    intro _
    exact r.orMissing_forest block (r.splice?_forest (fun _ _ => rfl) ns)
  | move targets place =>
    rw [operation, Operation.apply, Operation.apply, Edit.target_mapIds, mapError_forest]
    apply mapEnds_bind
    intro what
    rw [Edit.position_mapIds, mapError_forest]
    apply mapEnds_bind
    intro pos
    exact r.applyMove_forest horder hnodup what pos

end Relabelling

end LiveDoc
