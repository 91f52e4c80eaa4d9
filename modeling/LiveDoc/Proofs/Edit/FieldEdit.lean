import LiveDoc.Proofs.Edit.Kept
import LiveDoc.Proofs.Edit.Relabel
import LiveDoc.Proofs.Table

/-!
# Edits of fields

Setting a field of a node relabels the forest: the one node with the id holds something else, and
the shape stays. Every other operation that lets the node stand carries it along as it is, so the
two can be applied in either order.
-/

set_option autoImplicit false
set_option relaxedAutoImplicit false

namespace LiveDoc

namespace Edit

open Forest (Hole ids heads preorder)

inductive Field
  | prop (name : String)
  | content
  | parameters
deriving DecidableEq

def Field.fits : Field → Node → Bool
  | .prop _, n => n.call?.isNone
  | .content, _ => true
  | .parameters, n => n.call?.isSome

theorem Field.fits_congr (field : Field) {n m : Node} (h : n.call?.isSome = m.call?.isSome) :
    field.fits n = field.fits m := by
  cases field with
  | prop name => simp only [fits, h, ← Option.not_isSome]
  | content => rfl
  | parameters => exact h

/-- The id of the node of which an operation sets a field, and the field. -/
def Operation.field? : Operation → Option (String × Field)
  | .setProp block name _ => some (block, .prop name)
  | .setContent block _ => some (block, .content)
  | .setParameters block _ => some (block, .parameters)
  | .rename .. | .insert .. | .delete _ | .replace .. | .move .. => none

variable {order : SetOrder} {ns out : Forest} {e o : Operation} {block : String} {field : Field}
  {k : Hole} {n : Node}

theorem toOption_changeNode {f : Node → Except Failure Node} (hid : n.id = block)
    (hbefore : block ∉ k.idsBefore) :
    (changeNode (k.fill [n]) block f).toOption =
      (f n).toOption.map fun changed => k.fill [changed] := by
  rw [changeNode, Forest.find?_fill hid hbefore]
  cases hf : f n with
  | error failure => simp [hf, fail, Except.toOption]
  | ok changed =>
    simp [hf, Forest.modify?, Forest.splice?_fill hid hbefore, orMissing, Except.toOption]

theorem toOption_apply_field (hfield : e.field? = some (block, field)) (hid : n.id = block)
    (hbefore : block ∉ k.idsBefore) :
    (e.apply order (k.fill [n])).toOption =
      if field.fits n then some (k.fill [e.edited n]) else none := by
  cases e with
  | setProp _ name value =>
    obtain ⟨rfl, rfl⟩ := Prod.mk.inj (Option.some.inj hfield)
    rw [Operation.apply, toOption_changeNode hid hbefore]
    cases n <;> rfl
  | setContent _ content =>
    obtain ⟨rfl, rfl⟩ := Prod.mk.inj (Option.some.inj hfield)
    rw [Operation.apply, toOption_changeNode hid hbefore]
    rfl
  | setParameters _ parameters =>
    obtain ⟨rfl, rfl⟩ := Prod.mk.inj (Option.some.inj hfield)
    rw [Operation.apply, toOption_changeNode hid hbefore]
    cases n <;> rfl
  | _ => cases hfield

/-- What an operation that sets a field makes of a block by itself. -/
def Operation.setBlock : Operation → Block → Block
  | .setProp block name value, head =>
    if head.id = block then { head with props := head.props.put name value } else head
  | .setContent block content, head => if head.id = block then { head with content } else head
  | _, head => head

def Operation.setCall : Operation → Call → Call
  | .setContent block content, c => if c.id = block then { c with instructions := content } else c
  | .setParameters block parameters, c => if c.id = block then { c with parameters } else c
  | _, c => c

theorem id_setBlock (e : Operation) (head : Block) : (e.setBlock head).id = head.id := by
  cases e <;> simp only [Operation.setBlock] <;> split <;> rfl

theorem id_setCall (e : Operation) (c : Call) : (e.setCall c).id = c.id := by
  cases e <;> simp only [Operation.setCall] <;> split <;> rfl

theorem setBlock_of_ne (hfield : e.field? = some (block, field)) {head : Block}
    (hne : head.id ≠ block) : e.setBlock head = head := by
  cases e <;> cases hfield <;> first | exact if_neg hne | rfl

theorem setCall_of_ne (hfield : e.field? = some (block, field)) {c : Call}
    (hne : c.id ≠ block) : e.setCall c = c := by
  cases e <;> cases hfield <;> first | exact if_neg hne | rfl

theorem edited_block (hfield : e.field? = some (block, field)) {head : Block}
    (hid : head.id = block) (children : Option Forest) :
    e.edited (.block head children) = .block (e.setBlock head) children := by
  subst hid
  cases e <;> cases hfield <;> simp [Operation.edited, Operation.setBlock, Node.withContent]

theorem edited_call (hfield : e.field? = some (block, field)) {c : Call} (hid : c.id = block) :
    e.edited (.call c) = .call (e.setCall c) := by
  subst hid
  cases e <;> cases hfield <;> simp [Operation.edited, Operation.setCall, Node.withContent]

theorem setBlock_comm (hne : o.field? ≠ e.field?) (head : Block) :
    e.setBlock (o.setBlock head) = o.setBlock (e.setBlock head) := by
  match e, o with
  | .setProp block name value, .setProp other name' value' =>
    by_cases hboth : head.id = block ∧ head.id = other
    · obtain ⟨rfl, rfl⟩ := hboth
      have hnames : name ≠ name' := by
        rintro rfl
        exact hne rfl
      simp [Operation.setBlock, Table.put_comm hnames]
    · grind [Operation.setBlock]
  | .setProp .., .setContent .. | .setContent .., .setProp .. => grind [Operation.setBlock]
  | .setContent .., .setContent .. => grind [Operation.setBlock, Operation.field?]
  | .setParameters .., _ | .rename .., _ | .insert .., _ | .delete _, _ | .replace .., _
  | .move .., _ => rfl
  | _, .setParameters .. | _, .rename .. | _, .insert .. | _, .delete _ | _, .replace ..
  | _, .move .. => rfl

theorem setCall_comm (hne : o.field? ≠ e.field?) (c : Call) :
    e.setCall (o.setCall c) = o.setCall (e.setCall c) := by
  cases e <;> cases o <;> grind [Operation.setCall, Operation.field?]

end Edit

namespace Relabelling

open Edit (Field Operation SetOrder)
open Forest (Hole ids)

variable {order : SetOrder} {ns out : Forest} {e o : Operation} {block : String} {field : Field}
  {k : Hole} {n : Node}

def ofEdit (e : Operation) : Relabelling where
  ident := id
  injective := Function.injective_id
  block := e.setBlock
  call := e.setCall
  block_id := Edit.id_setBlock e
  call_id := Edit.id_setCall e

section OneNode

variable (hfield : e.field? = some (block, field))
include hfield

theorem forest_ofEdit_of_notMem (hmem : block ∉ ids ns) : (ofEdit e).forest ns = ns := by
  induction ns using Forest.induct_cons with
  | nil => rfl
  | cons n rest ihc ih =>
    rw [Forest.ids_cons, List.cons_append, List.mem_cons, List.mem_append, not_or, not_or] at hmem
    obtain ⟨hself, hchildren, hrest⟩ := hmem
    rw [forest, ih hrest]
    congr 1
    cases n with
    | block head children =>
      have hforest : children.map (ofEdit e).forest = children := by
        cases children with
        | none => rfl
        | some children => exact congrArg some (ihc hchildren)
      rw [node_block, hforest]
      exact congrArg (Node.block · children) (Edit.setBlock_of_ne hfield (Ne.symm hself))
    | call c => exact congrArg Node.call (Edit.setCall_of_ne hfield (Ne.symm hself))

theorem hole_ofEdit (hbefore : block ∉ k.idsBefore) (hafter : block ∉ k.idsAfter) :
    (ofEdit e).hole k = k := by
  induction k with
  | here left right =>
    rw [Hole.idsBefore_here] at hbefore
    rw [Hole.idsAfter_here] at hafter
    rw [hole, forest_ofEdit_of_notMem hfield hbefore, forest_ofEdit_of_notMem hfield hafter]
  | within left head k right ih =>
    rw [Hole.idsBefore_within, List.mem_append, List.mem_cons, not_or, not_or] at hbefore
    rw [Hole.idsAfter_within, List.mem_append, not_or] at hafter
    rw [hole, forest_ofEdit_of_notMem hfield hbefore.1, ih hbefore.2.2 hafter.1,
      forest_ofEdit_of_notMem hfield hafter.2]
    congr 1
    exact Edit.setBlock_of_ne hfield (Ne.symm hbefore.2.1)

theorem node_ofEdit (hid : n.id = block) (hbelow : block ∉ ids (n.children?.getD [])) :
    (ofEdit e).node n = e.edited n := by
  match n with
  | .block head none => exact (Edit.edited_block hfield hid none).symm
  | .block head (some children) =>
    have hchildren : (ofEdit e).forest children = children :=
      forest_ofEdit_of_notMem hfield hbelow
    rw [node, hchildren]
    exact (Edit.edited_block hfield hid (some children)).symm
  | .call c => exact (Edit.edited_call hfield hid).symm

theorem forest_ofEdit (hnodup : (ids (k.fill [n])).Nodup) (hid : n.id = block) :
    (ofEdit e).forest (k.fill [n]) = k.fill [e.edited n] := by
  rw [Hole.ids_fill, Forest.ids_cons, Forest.ids_nil, List.append_nil, List.append_assoc,
    List.nodup_append, List.cons_append, List.nodup_cons, List.mem_append, not_or, hid] at hnodup
  obtain ⟨-, ⟨⟨hbelow, hafter⟩, -⟩, hbefore⟩ := hnodup
  have hbefore : block ∉ k.idsBefore := by
    intro hmem
    exact hbefore block hmem block List.mem_cons_self rfl
  rw [forest_fill, hole_ofEdit hfield hbefore hafter, forest, forest,
    node_ofEdit hfield hid hbelow]

end OneNode

theorem operation_ofEdit (hfield : e.field? = some (block, field))
    (hcarried : block ∉ ids o.carried) : (ofEdit e).operation o = o := by
  have hafter (place : Edit.Markers) : place.mapIds id = place := by
    rw [Edit.Markers.mapIds, Option.map_id_fun, id]
  have htargets (targets : Edit.Targets) : targets.mapIds id = targets := by
    simp [Edit.Targets.mapIds]
  cases o with
  | insert place nodes =>
    have hnodes : (ofEdit e).forest nodes = nodes := forest_ofEdit_of_notMem hfield hcarried
    exact congrArg₂ Operation.insert (hafter place) hnodes
  | replace old nodes =>
    have hnodes : (ofEdit e).forest nodes = nodes := forest_ofEdit_of_notMem hfield hcarried
    exact congrArg (Operation.replace old) hnodes
  | move targets place => exact congrArg₂ Operation.move (htargets targets) (hafter place)
  | _ => rfl

theorem respects_ofEdit_of_field {other : String} {field' : Field}
    (ho : o.field? = some (other, field')) (hne : o.field? ≠ e.field?) :
    (ofEdit e).Respects o := by
  intro n hnamed
  have hsame : (ofEdit e).operation o = o := by
    cases o <;> cases ho <;> rfl
  have hid : n.id = other := by
    cases o <;> cases ho <;> exact (Option.some.inj hnamed).symm
  rw [hsame]
  match n with
  | .block head children =>
    have hkept : (e.setBlock head).id = other := (Edit.id_setBlock e head).trans hid
    rw [Edit.edited_block ho hid, node_block, node_block]
    rw [show (ofEdit e).block head = e.setBlock head from rfl, Edit.edited_block ho hkept]
    exact congrArg (Node.block · _) (Edit.setBlock_comm hne head).symm
  | .call c =>
    have hkept : (e.setCall c).id = other := (Edit.id_setCall e c).trans hid
    rw [Edit.edited_call ho hid, node, node]
    rw [show (ofEdit e).call c = e.setCall c from rfl, Edit.edited_call ho hkept]
    exact congrArg Node.call (Edit.setCall_comm hne c).symm

theorem respects_ofEdit_rename {old new : String} (hfield : e.field? = some (block, field))
    (hsame : old = block ↔ new = block) : (ofEdit e).Respects (.rename old new) := by
  intro n hnamed
  have hid : old = n.id := Option.some.inj hnamed
  change ((ofEdit e).node n).withId new = (ofEdit e).node (n.withId new)
  by_cases hblock : new = block
  · have hnew : new = n.id := by rw [hblock, ← hsame.2 hblock, hid]
    have hkept : ((ofEdit e).node n).id = n.id := (ofEdit e).id_node n
    rw [hnew, n.withId_id]
    exact hkept ▸ Node.withId_id _
  · have hold : n.id ≠ block := by
      rw [← hid]
      exact mt hsame.1 hblock
    match n with
    | .block head children =>
      have hhead : (ofEdit e).block head = head := Edit.setBlock_of_ne hfield hold
      have hnew : (ofEdit e).block { head with id := new } = { head with id := new } :=
        Edit.setBlock_of_ne hfield hblock
      rw [Node.withId, node_block, node_block, hhead, hnew, Node.withId]
    | .call c =>
      have hcall : (ofEdit e).call c = c := Edit.setCall_of_ne hfield hold
      have hnew : (ofEdit e).call { c with id := new } = { c with id := new } :=
        Edit.setCall_of_ne hfield hblock
      rw [Node.withId, node, node, hcall, hnew, Node.withId]

theorem respects_ofEdit (hfield : e.field? = some (block, field)) (hne : o.field? ≠ e.field?)
    (hsame : ∀ old new, o = .rename old new → (old = block ↔ new = block)) :
    (ofEdit e).Respects o := by
  cases o with
  | setProp other name value => exact respects_ofEdit_of_field rfl hne
  | setContent other content => exact respects_ofEdit_of_field rfl hne
  | setParameters other parameters => exact respects_ofEdit_of_field rfl hne
  | rename old new => exact respects_ofEdit_rename hfield (hsame old new rfl)
  | _ => exact fun _ hnamed => nomatch hnamed

theorem removed_ofEdit (e o : Operation) (ns : Forest) :
    o.removed ((ofEdit e).forest ns) = o.removed ns := by
  have htree (other : String) :
      (Forest.find? other ((ofEdit e).forest ns)).map (fun n => ids [n]) =
        (Forest.find? other ns).map fun n => ids [n] := by
    have hids (n : Node) : ids [(ofEdit e).node n] = ids [n] :=
      ((ofEdit e).ids_forest [n]).trans (List.map_id _)
    have hfind : Forest.find? other ((ofEdit e).forest ns) =
        (Forest.find? other ns).map (ofEdit e).node := (ofEdit e).find?_forest other ns
    rw [hfind, Option.map_map]
    simp only [Function.comp_def, hids]
  cases o with
  | delete other => exact congrArg (Option.getD · []) (htree other)
  | replace other nodes => exact congrArg (Option.getD · []) (htree other)
  | _ => rfl

/-- An operation that keeps the node and sets no field that an edit sets does the same before the
edit as behind it. -/
theorem toOption_apply_ofEdit (hfield : e.field? = some (block, field)) (hnodup : (ids ns).Nodup)
    (hmem : block ∈ ids ns) (hkeeps : o.Keeps ns block) (hne : o.field? ≠ e.field?) :
    (o.apply order ((ofEdit e).forest ns)).toOption =
      (o.apply order ns).toOption.map (ofEdit e).forest := by
  by_cases hfresh : block ∉ ids o.carried ∧ ∀ old, o = .rename old block → old = block
  · have hsame (old new : String) (ho : o = .rename old new) : old = block ↔ new = block := by
      constructor
      · rintro rfl
        exact hkeeps.named new ho
      · rintro rfl
        exact hfresh.2 old ho
    have hfollows : (ofEdit e).Follows order order := fun idents =>
      (congrArg order.list (List.map_id idents)).trans (List.map_id _).symm
    have hnatural := (respects_ofEdit hfield hne hsame).apply hfollows hnodup
    rw [operation_ofEdit hfield hfresh.1] at hnatural
    rw [hnatural]
    cases o.apply order ns <;> rfl
  · -- the operation brings a second node with the id, which either forest refuses
    have hrefused {ms : Forest} (hmem : block ∈ ids ms) (hkeeps : o.Keeps ms block) :
        (o.apply order ms).toOption = none := by
      cases h : o.apply order ms with
      | error failed => rfl
      | ok out => exact absurd (Edit.fresh_of_apply hkeeps hmem h) hfresh
    have hkeeps' : o.Keeps ((ofEdit e).forest ns) block := by
      constructor
      · rw [removed_ofEdit]
        exact hkeeps.stays
      · exact hkeeps.named
    rw [hrefused hmem hkeeps, hrefused ((ofEdit e).mem_ids_forest.2 hmem) hkeeps']
    rfl

end Relabelling

namespace Edit

open Forest (ids)

variable {order : SetOrder} {ns : Forest} {e o : Operation} {block : String} {field : Field}

theorem toOption_applyFrom_pair (ns : Forest) (first second : Operation) :
    (applyFrom order 0 ns [first, second]).toOption =
      (first.apply order ns).toOption.bind fun mid => (second.apply order mid).toOption := by
  simp only [applyFrom]
  cases first.apply order ns with
  | error failed => rfl
  | ok mid =>
    simp only [Except.toOption, Option.bind_some]
    cases second.apply order mid <;> rfl

theorem toOption_apply_field_eq {n : Node} (hfield : e.field? = some (block, field))
    (hnodup : (ids ns).Nodup) (hfind : Forest.find? block ns = some n) :
    (e.apply order ns).toOption =
      if field.fits n then some ((Relabelling.ofEdit e).forest ns) else none := by
  obtain ⟨hn, hid⟩ := Forest.find?_eq_some hfind
  obtain ⟨k, rfl, hbefore⟩ := Forest.exists_hole_of_mem hnodup hn
  rw [toOption_apply_field hfield hid (hid ▸ hbefore),
    Relabelling.forest_ofEdit hfield hnodup hid]

/-- An edit of a field and an operation that neither takes its node out nor renames it, and that
does not set the same field of it, can be applied in either order: both ways give the same forest,
or both fail. -/
theorem field_edit_commutes (order order' : SetOrder) (hcheck : Forest.check ns = [])
    (hfield : e.field? = some (block, field)) (hblock : block ∈ ids ns)
    (hvalid : o.validate = .ok ()) (hremoved : block ∉ o.removed ns)
    (hrenamed : ∀ new, o = .rename block new → new = block)
    (hother : o.field? ≠ some (block, field)) :
    (applyFrom order 0 ns [e, o]).toOption = (applyFrom order' 0 ns [o, e]).toOption := by
  have hdistinct := (Forest.check_eq_nil_iff.1 hcheck).1
  have hkeeps : o.Keeps ns block := ⟨hremoved, hrenamed⟩
  obtain ⟨n, hfind⟩ : ∃ n, Forest.find? block ns = some n :=
    Option.isSome_iff_exists.1 (Forest.has_iff.2 hblock)
  rw [toOption_applyFrom_pair, toOption_applyFrom_pair,
    toOption_apply_field_eq hfield hdistinct.nodup hfind,
    o.toOption_apply_of_order hdistinct.nodup order' order]
  have hcarried : (o.apply order ((Relabelling.ofEdit e).forest ns)).toOption =
      (o.apply order ns).toOption.map (Relabelling.ofEdit e).forest :=
    Relabelling.toOption_apply_ofEdit hfield hdistinct.nodup hblock hkeeps (hfield ▸ hother)
  cases happly : o.apply order ns with
  | error failed =>
    have hnone : (o.apply order ((Relabelling.ofEdit e).forest ns)).toOption = none := by
      rw [hcarried, happly]
      rfl
    split
    · exact hnone
    · rfl
  | ok out =>
    have hout : (ids out).Nodup := (o.apply_distinctIds hvalid hdistinct happly).nodup
    obtain ⟨n', hfind', hkind⟩ := exists_find?_of_apply hkeeps happly hout hfind
    have hedited : (e.apply order' out).toOption =
        if field.fits n then some ((Relabelling.ofEdit e).forest out) else none := by
      rw [toOption_apply_field_eq hfield hout hfind', field.fits_congr hkind]
    have hsome : (o.apply order ((Relabelling.ofEdit e).forest ns)).toOption =
        some ((Relabelling.ofEdit e).forest out) := by
      rw [hcarried, happly]
      rfl
    split
    · rename_i hfit
      exact hsome.trans (hedited.trans (if_pos hfit)).symm
    · rename_i hfit
      exact (hedited.trans (if_neg hfit)).symm

/-- An item gets a prop before or after the list that it stands in moves behind a paragraph, and
before or after another prop of it is set. -/
theorem field_edit_commutes_in_moved_list :
    let item (ident : String) (props : Table Json) : Node :=
      .block ⟨ident, "list_item", props, []⟩ none
    let list (items : Forest) : Node := .block ⟨"l", "bullet_list", [], []⟩ (some items)
    let given : Forest := [list [item "i" [], item "j" []], .paragraph "p" "P"]
    let done : Operation := .setProp "j" "done" (.bool true)
    let color : Operation := .setProp "j" "color" (.str "red")
    let move : Operation := (Operation.moveNode "l").placedAt (.after "p")
    Forest.check given = [] ∧ "j" ∉ move.removed given ∧
      applyFrom .written 0 given [done, move] =
        .ok [.paragraph "p" "P", list [item "i" [], item "j" [("done", .bool true)]]] ∧
      applyFrom .written 0 given [move, done] =
        .ok [.paragraph "p" "P", list [item "i" [], item "j" [("done", .bool true)]]] ∧
      (applyFrom .written 0 given [done, color]).toOption =
        (applyFrom .written 0 given [color, done]).toOption := by
  intro item list given done color move
  have hcheck : Forest.check given = [] := by decide +kernel
  have hremoved : "j" ∉ move.removed given := List.not_mem_nil
  have hblock : "j" ∈ ids given := by decide +kernel
  have hmoved : applyFrom .written 0 given [done, move] =
      .ok [.paragraph "p" "P", list [item "i" [], item "j" [("done", .bool true)]]] := by
    decide +kernel
  have hmove := field_edit_commutes .written .written (e := done) (o := move) hcheck rfl hblock rfl
    hremoved nofun nofun
  have hcolor :=
    field_edit_commutes .written .written (e := done) (o := color) hcheck rfl hblock rfl
    List.not_mem_nil nofun (by decide)
  rw [hmoved] at hmove
  exact ⟨hcheck, hremoved, hmoved, toOption_eq_some_iff.1 hmove.symm, hcolor⟩

end Edit

end LiveDoc
