import LiveDoc.Proofs.Edit.Paths
import LiveDoc.Proofs.Edit.Selection

/-!
# When operations can be applied

What a forest has to be like for an operation to be applied to it. In a forest with distinct ids
this decides: an operation that demands nothing impossible of all forests is applied there or fails
for the forest alone, and never because an edit by paths breaks down.
-/

set_option autoImplicit false
set_option relaxedAutoImplicit false

namespace LiveDoc.Edit

open Forest (DistinctIds Hole ids preorder without)

variable {order : SetOrder} {ns out : Forest}

/-- Carried ids stand once each and are new to a forest, except for those in a tree that goes. -/
structure Fresh (ns : Forest) (gone : List String) (carried : Forest) : Prop where
  nodup : (ids carried).Nodup
  new : ∀ ident ∈ ids carried, ident ∈ ids ns → ident ∈ gone

/-- A forest has what an operation needs. -/
def Operation.Applicable (ns : Forest) : Operation → Prop
  | .setProp block _ _ => ∃ n ∈ preorder ns, n.id = block ∧ n.block?.isSome
  | .setContent block _ | .delete block => block ∈ ids ns
  | .setParameters block _ => ∃ n ∈ preorder ns, n.id = block ∧ n.call?.isSome
  | .rename block new => block ∈ ids ns ∧ (new = block ∨ new ∉ ids ns)
  | .insert place nodes => Fresh ns [] nodes ∧ ∀ anchor ∈ place.after, anchor ∈ ids ns
  | .replace block nodes => ∃ n ∈ preorder ns, n.id = block ∧ Fresh ns (ids [n]) nodes
  | .move targets place =>
    (∃ block ∈ ids ns, targets.resolve = .ok (.single block) ∧ place.resolve = .ok (.after block)) ∨
      ∃ what moved, targets.resolve = .ok what ∧ what.Selects ns moved ∧ Apart moved ∧
        ∀ anchor ∈ place.after, anchor ∈ ids ns ∧ anchor ∉ ids moved

section Existence

variable {ident : String}

theorem orMissing_splice?_iff {f : Node → List Node} :
    (∃ out, orMissing ns ident (Forest.splice? ident f ns) = .ok out) ↔ ident ∈ ids ns := by
  by_cases hmem : ident ∈ ids ns
  · obtain ⟨k, n, rfl, hid, hbefore⟩ := Forest.exists_hole hmem
    simp [Forest.splice?_fill hid hbefore, orMissing, hmem]
  · simp [Forest.splice?_eq_none hmem, orMissing, fail, hmem]

theorem changeNode_iff {f : Node → Except Failure Node} (hnodup : (ids ns).Nodup) :
    (∃ out, changeNode ns ident f = .ok out) ↔
      ∃ n ∈ preorder ns, n.id = ident ∧ ∃ changed, f n = .ok changed := by
  constructor
  · rintro ⟨out, h⟩
    obtain ⟨k, n, changed, rfl, hid, hbefore, hf, -⟩ := changeNode_eq_ok h
    exact ⟨n, (Forest.find?_eq_some (Forest.find?_fill hid hbefore)).1, hid, changed, hf⟩
  · rintro ⟨n, hn, rfl, changed, hf⟩
    simp only [changeNode, Forest.find?_of_mem hnodup hn, hf, Forest.modify?]
    exact orMissing_splice?_iff.2 (Forest.mem_ids.2 ⟨n, hn, rfl⟩)

theorem insertAt_iff (new : Forest) {pos : Position} :
    (∃ out, insertAt ns new pos = .ok out) ↔ ∀ anchor, pos = .after anchor → anchor ∈ ids ns := by
  cases pos with
  | start => simp [insertAt]
  | finish => simp [insertAt]
  | after anchor =>
    simp only [insertAt, Forest.insertAfter?, orMissing_splice?_iff, Position.after.injEq,
      forall_eq']

theorem setProp_iff {block name : String} {value : Json} (hnodup : (ids ns).Nodup) :
    (∃ out, (Operation.setProp block name value).apply order ns = .ok out) ↔
      (Operation.setProp block name value).Applicable ns := by
  have hblock (n : Node) : (∃ changed, withProp name value n = .ok changed) ↔ n.block?.isSome := by
    cases n <;> simp [withProp, Node.block?]
  simp only [Operation.apply, changeNode_iff hnodup, hblock, Operation.Applicable]

theorem setContent_iff {block : String} {content : List Inline} (hnodup : (ids ns).Nodup) :
    (∃ out, (Operation.setContent block content).apply order ns = .ok out) ↔
      (Operation.setContent block content).Applicable ns := by
  simp [Operation.apply, changeNode_iff hnodup, Operation.Applicable, Forest.mem_ids]

theorem setParameters_iff {block : String} {parameters : Table Json} (hnodup : (ids ns).Nodup) :
    (∃ out, (Operation.setParameters block parameters).apply order ns = .ok out) ↔
      (Operation.setParameters block parameters).Applicable ns := by
  have hcall (n : Node) :
      (∃ changed, withParameters parameters n = .ok changed) ↔ n.call?.isSome := by
    cases n <;> simp [withParameters, Node.call?]
  simp only [Operation.apply, changeNode_iff hnodup, hcall, Operation.Applicable]

theorem rename_iff {block new : String} :
    (∃ out, (Operation.rename block new).apply order ns = .ok out) ↔
      (Operation.rename block new).Applicable ns := by
  have hhas (ident : String) : Forest.has ident ns = decide (ident ∈ ids ns) := by
    rw [Bool.eq_iff_iff, Forest.has_iff, decide_eq_true_iff]
  simp only [Operation.apply, Operation.Applicable, hhas, Forest.modify?]
  by_cases hmem : block ∈ ids ns
  · by_cases hsame : block = new
    · subst hsame
      simp [hmem]
    · by_cases hnew : new ∈ ids ns
      · simp [hmem, hsame, Ne.symm hsame, hnew, fail]
      · simpa [hmem, hsame, hnew] using orMissing_splice?_iff.2 hmem
  · simp [hmem, fail]

theorem delete_iff {block : String} :
    (∃ out, (Operation.delete block).apply order ns = .ok out) ↔
      (Operation.delete block).Applicable ns :=
  orMissing_splice?_iff

theorem mem_after_iff {place : Markers} {pos : Position} (h : place.resolve = .ok pos)
    {anchor : String} : anchor ∈ place.after ↔ pos = .after anchor := by
  obtain ⟨after, atStart, atEnd⟩ := place
  cases after <;> cases atStart <;> cases atEnd <;> simp [Markers.resolve] at h <;>
    simp [← h, eq_comm]

theorem insert_iff {place : Markers} {pos : Position} {nodes : Forest}
    (hpos : place.resolve = .ok pos) :
    (∃ out, (Operation.insert place nodes).apply order ns = .ok out) ↔
      (Operation.insert place nodes).Applicable ns := by
  have hfresh : checkFresh ns nodes = .ok () ↔ Fresh ns [] nodes := by
    rw [checkFresh_eq_ok_iff]
    exact ⟨fun h => ⟨h.1, fun ident hident hin => absurd hin (h.2 ident hident)⟩,
      fun h => ⟨h.1, fun ident hident hin => List.not_mem_nil (h.2 ident hident hin)⟩⟩
  simp only [Operation.Applicable, ← hfresh, mem_after_iff hpos, ← insertAt_iff nodes]
  constructor
  · rintro ⟨out, h⟩
    obtain ⟨pos', hpos', hchecked, hinsert⟩ := insert_eq_ok h
    rw [position, mapError_eq_ok_iff] at hpos'
    obtain rfl := Except.ok.inj (hpos.symm.trans hpos')
    exact ⟨hchecked, out, hinsert⟩
  · rintro ⟨hchecked, out, hinsert⟩
    exact ⟨out, by simp [Operation.apply, position, hpos, mapError_ok, hchecked, hinsert, bind,
      Except.bind]⟩

theorem checkFresh_fill_nil_iff {k : Hole} {n : Node} {nodes : Forest}
    (hnodup : (ids (k.fill [n])).Nodup) :
    checkFresh (k.fill []) nodes = .ok () ↔ Fresh (k.fill [n]) (ids [n]) nodes := by
  have hleft (ident : String) :
      ident ∉ ids (k.fill []) ↔ (ident ∈ ids (k.fill [n]) → ident ∈ ids [n]) := by
    rw [Hole.ids_fill, List.append_assoc, List.nodup_append, List.nodup_append] at hnodup
    obtain ⟨-, ⟨-, -, hafter⟩, hbefore⟩ := hnodup
    simp only [Hole.ids_fill, Forest.ids_nil, List.append_nil, List.mem_append]
    refine ⟨fun h hin => ?_, fun h hin => ?_⟩
    · tauto
    · have hinside := h (hin.imp_left .inl)
      rcases hin with hin | hin
      · exact hbefore _ hin _ (List.mem_append_left _ hinside) rfl
      · exact hafter _ hinside _ hin rfl
  rw [checkFresh_eq_ok_iff]
  simp only [hleft]
  exact ⟨fun h => ⟨h.1, h.2⟩, fun h => ⟨h.nodup, h.new⟩⟩

theorem replace_iff {block : String} {nodes : Forest} (hnodup : (ids ns).Nodup) :
    (∃ out, (Operation.replace block nodes).apply order ns = .ok out) ↔
      (Operation.replace block nodes).Applicable ns := by
  constructor
  · rintro ⟨out, h⟩
    obtain ⟨k, n, rfl, hid, hbefore, hchecked, -⟩ := replace_eq_ok h
    exact ⟨n, (Forest.find?_eq_some (Forest.find?_fill hid hbefore)).1, hid,
      (checkFresh_fill_nil_iff hnodup).1 hchecked⟩
  · rintro ⟨n, hn, rfl, hnew⟩
    obtain ⟨k, rfl, hbefore⟩ := Forest.exists_hole_of_mem hnodup hn
    simp [Operation.apply, Forest.splice?_fill rfl hbefore, orMissing,
      (checkFresh_fill_nil_iff hnodup).2 hnew, bind, Except.bind]

theorem mem_ids_without_iff {l : List Node} (hnodup : (ids ns).Nodup)
    (hmem : ∀ n ∈ l, n ∈ preorder ns) :
    ident ∈ ids (without (l.map Node.id) ns) ↔ ident ∈ ids ns ∧ ident ∉ ids l := by
  rw [← Forest.map_id_rows none, Forest.rows_without hnodup (covers_of_mem hnodup hmem),
    ← Forest.map_id_rows none ns]
  simp only [List.mem_map, List.mem_filter, decide_eq_true_iff]
  constructor
  · rintro ⟨row, ⟨hrow, hout⟩, rfl⟩
    exact ⟨⟨row, hrow, rfl⟩, hout⟩
  · rintro ⟨⟨row, hrow, rfl⟩, hout⟩
    exact ⟨row, ⟨hrow, hout⟩, rfl⟩

theorem applyMove_iff {what : MoveTarget} {pos : Position} (hnodup : (ids ns).Nodup) :
    (∃ out, applyMove order ns what pos = .ok out) ↔
      (∃ block ∈ ids ns, what = .single block ∧ pos = .after block) ∨
        ∃ moved, what.Selects ns moved ∧ Apart moved ∧
          ∀ anchor, pos = .after anchor → anchor ∈ ids ns ∧ anchor ∉ ids moved := by
  constructor
  · rintro ⟨out, h⟩
    obtain ⟨block, hmem, hwhat, hpos, -⟩ | ⟨moved, hselects, hapart, hinsert⟩ :=
      applyMove_selects hnodup h
    · exact .inl ⟨block, hmem, hwhat, hpos⟩
    · have hmem : ∀ n ∈ moved, n ∈ preorder ns := fun n hn => hselects.sublist.subset hn
      refine .inr ⟨moved, hselects, hapart, fun anchor hanchor => ?_⟩
      have hleft := (insertAt_iff moved).1 ⟨out, hinsert⟩ anchor hanchor
      exact (mem_ids_without_iff hnodup hmem).1 hleft
  · rintro (⟨block, hmem, rfl, rfl⟩ | ⟨moved, hselects, hapart, hanchor⟩)
    · exact ⟨ns, by simp [applyMove, Forest.has_iff.2 hmem]⟩
    · have hmem : ∀ n ∈ moved, n ∈ preorder ns := fun n hn => hselects.sublist.subset hn
      rw [applyMove_of_selects hnodup hselects hapart fun anchor h => (hanchor anchor h).2]
      refine (insertAt_iff moved).2 fun anchor h => ?_
      exact (mem_ids_without_iff hnodup hmem).2 (hanchor anchor h)

theorem move_iff {targets : Targets} {place : Markers} {what : MoveTarget} {pos : Position}
    (hnodup : (ids ns).Nodup) (hwhat : targets.resolve = .ok what)
    (hpos : place.resolve = .ok pos) :
    (∃ out, (Operation.move targets place).apply order ns = .ok out) ↔
      (Operation.move targets place).Applicable ns := by
  rw [apply_move (mapError_eq_ok_iff.2 hwhat) (mapError_eq_ok_iff.2 hpos), applyMove_iff hnodup]
  simp only [Operation.Applicable, hwhat, hpos, mem_after_iff hpos, Except.ok.injEq, existsAndEq,
    true_and]

end Existence

section Failures

variable {misuse : Misuse} {left : Forest}

private theorem orMissing_ne_misuse {ident : String} {changed : Option Forest} :
    orMissing ns ident changed ≠ .error ⟨.misuse misuse, left⟩ := by
  cases changed <;> simp [orMissing, fail]

private theorem changeNode_ne_misuse {ident : String} {f : Node → Except Failure Node}
    (hf : ∀ n, f n ≠ .error (.misuse misuse)) :
    changeNode ns ident f ≠ .error ⟨.misuse misuse, left⟩ := by
  unfold changeNode
  split
  · simp [fail]
  · rename_i n _
    split
    · rename_i failure hfailure
      simp only [fail, ne_eq, Except.error.injEq, Failed.mk.injEq, not_and]
      rintro rfl
      exact absurd hfailure (hf n)
    · exact orMissing_ne_misuse

private theorem checkFresh_ne_misuse {new : Forest} :
    checkFresh ns new ≠ .error ⟨.misuse misuse, left⟩ := by
  unfold checkFresh
  split <;> simp [fail]

private theorem insertAt_ne_misuse {new : Forest} {pos : Position} :
    insertAt ns new pos ≠ .error ⟨.misuse misuse, left⟩ := by
  cases pos with
  | start => simp [insertAt]
  | finish => simp [insertAt]
  | after anchor => exact orMissing_ne_misuse

private theorem movedIds_ne_misuse {what : MoveTarget} :
    movedIds order ns what ≠ .error (.misuse misuse) := by
  cases what with
  | single block => simp [movedIds]
  | several blocks =>
    simp only [movedIds, inOrder]
    split <;> simp
  | run first last =>
    simp only [movedIds, runIds]
    split
    · simp
    · simp
    · split
      · simp
      · split <;> simp

private theorem covered_ne_misuse {seen idents : List String} :
    covered ns seen idents ≠ .error (.misuse misuse) := by
  induction idents generalizing seen with
  | nil => simp [covered]
  | cons ident rest ih =>
    rw [covered]
    split
    · simp
    · split
      · simp
      · exact ih

private theorem checkApart_ne_misuse {idents : List String} {pos : Position} :
    checkApart ns idents pos ≠ .error (.misuse misuse) := by
  refine bind_ne_error covered_ne_misuse fun inside => ?_
  cases pos with
  | start => simp
  | finish => simp
  | after anchor =>
    dsimp only
    split <;> simp

private theorem takeOut_ne_misuse {idents : List String} :
    takeOut idents ns ≠ .error ⟨.misuse misuse, left⟩ := by
  induction idents generalizing ns with
  | nil => simp [takeOut]
  | cons ident rest ih =>
    rw [takeOut]
    split
    · simp [fail]
    · exact bind_ne_error ih (by simp)

private theorem applyMove_ne_misuse {what : MoveTarget} {pos : Position} :
    applyMove order ns what pos ≠ .error ⟨.misuse misuse, left⟩ := by
  have hstep {α : Type} {x : Except Failure α} (hx : x ≠ .error (.misuse misuse)) :
      x.mapError (⟨·, ns⟩) ≠ .error (⟨.misuse misuse, left⟩ : Failed) := by
    cases x with
    | error failure => simpa [Except.mapError] using fun h _ => hx (by rw [h])
    | ok a => simp [Except.mapError]
  have hrelocate : applyMove.relocate order ns what pos ≠ .error ⟨.misuse misuse, left⟩ :=
    bind_ne_error (hstep movedIds_ne_misuse) fun _ =>
      bind_ne_error (hstep checkApart_ne_misuse) fun _ =>
        bind_ne_error takeOut_ne_misuse fun _ => insertAt_ne_misuse
  unfold applyMove
  split
  · split
    · split <;> simp [fail]
    · exact hrelocate
  · exact hrelocate

theorem apply_ne_misuse {o : Operation} (hvalid : o.validate = .ok ()) :
    o.apply order ns ≠ .error ⟨.misuse misuse, left⟩ := by
  cases o with
  | setProp block name value =>
    exact changeNode_ne_misuse fun n => by cases n <;> simp [withProp]
  | setContent block content =>
    rw [Operation.apply]
    exact changeNode_ne_misuse fun n => by simp
  | setParameters block parameters =>
    exact changeNode_ne_misuse fun n => by cases n <;> simp [withParameters]
  | rename block new =>
    rw [Operation.apply]
    split
    · simp [fail]
    · split
      · simp
      · split
        · simp [fail]
        · exact orMissing_ne_misuse
  | insert place nodes =>
    obtain ⟨pos, hpos, -⟩ := bind_eq_ok_iff.1 hvalid
    rw [Operation.apply, hpos, mapError_ok]
    exact bind_ne_error (by simp) fun _ =>
      bind_ne_error checkFresh_ne_misuse fun _ => insertAt_ne_misuse
  | delete block => exact orMissing_ne_misuse
  | replace block nodes =>
    exact bind_ne_error orMissing_ne_misuse fun _ =>
      bind_ne_error checkFresh_ne_misuse fun _ => orMissing_ne_misuse
  | move targets place =>
    obtain ⟨what, hwhat, hplace⟩ := bind_eq_ok_iff.1 hvalid
    obtain ⟨pos, hpos, -⟩ := bind_eq_ok_iff.1 hplace
    rw [apply_move hwhat hpos]
    exact applyMove_ne_misuse

end Failures

theorem apply_iff {o : Operation} (hnodup : (ids ns).Nodup) (hvalid : o.validate = .ok ()) :
    (∃ out, o.apply order ns = .ok out) ↔ o.Applicable ns := by
  cases o with
  | setProp block name value => exact setProp_iff hnodup
  | setContent block content => exact setContent_iff hnodup
  | setParameters block parameters => exact setParameters_iff hnodup
  | rename block new => exact rename_iff
  | insert place nodes =>
    obtain ⟨pos, hpos, -⟩ := bind_eq_ok_iff.1 hvalid
    exact insert_iff (mapError_eq_ok_iff.1 hpos)
  | delete block => exact delete_iff
  | replace block nodes => exact replace_iff hnodup
  | move targets place =>
    obtain ⟨what, hwhat, hplace⟩ := bind_eq_ok_iff.1 hvalid
    obtain ⟨pos, hpos, -⟩ := bind_eq_ok_iff.1 hplace
    exact move_iff hnodup (mapError_eq_ok_iff.1 hwhat) (mapError_eq_ok_iff.1 hpos)

/-- Where ids are distinct, an operation that is no misuse by itself is applied exactly if the
forest has what it needs. Applied by paths it gives the same and never breaks down: it stops for a
failure, which is no misuse. -/
theorem applied_iff_applicable (order : SetOrder) {o : Operation} (hns : DistinctIds ns)
    (hvalid : o.validate = .ok ()) :
    ByPath.apply order ns o = (o.apply order ns).mapError Failed.stop ∧
      (∀ stop, ByPath.apply order ns o = .error stop →
        ∃ failure, stop = .failed failure ∧ ∀ misuse, failure ≠ .misuse misuse) ∧
      ((∃ out, ByPath.apply order ns o = .ok out) ↔ o.Applicable ns) := by
  have hpath := ByPath.apply_eq order ns o
  refine ⟨hpath, fun stop hstop => ?_, ?_⟩
  · rw [hpath] at hstop
    cases happly : o.apply order ns with
    | ok out => simp [happly, Except.mapError] at hstop
    | error failed =>
      obtain rfl : failed.stop = stop := by simpa [happly, Except.mapError] using hstop
      refine ⟨failed.failure, rfl, fun misuse hmisuse => ?_⟩
      have hfailed : o.apply order ns = .error ⟨.misuse misuse, failed.leftover⟩ := by
        rw [happly, ← hmisuse]
      exact apply_ne_misuse hvalid hfailed
  · simp only [hpath, mapError_eq_ok_iff]
    exact apply_iff hns.nodup hvalid

/-- Nodes from two depths can be moved behind an item; a list cannot be moved with an item of it. -/
theorem applied_iff_applicable_move :
    let item (ident : String) : Node := .block ⟨ident, "list_item", [], []⟩ none
    let given : Forest := [.block ⟨"l", "bullet_list", [], []⟩ (some [item "i", item "j"]),
      .paragraph "a" "A"]
    let apart := Operation.move ⟨none, some ["a", "j"], none, none⟩ ⟨some "i", false, false⟩
    let nested := Operation.move ⟨none, some ["j", "l"], none, none⟩ ⟨some "a", false, false⟩
    DistinctIds given ∧ apart.validate = .ok () ∧ nested.validate = .ok () ∧
      (∃ out, ByPath.apply .written given apart = .ok out) ∧ ¬ nested.Applicable given := by
  intro item given apart nested
  have hgiven : DistinctIds given := (Forest.check_eq_nil_iff.1 (by decide +kernel)).1
  have hapart : apart.validate = .ok () := rfl
  have hnested : nested.validate = .ok () := rfl
  obtain ⟨-, -, happlied⟩ := applied_iff_applicable .written hgiven hapart
  obtain ⟨-, -, hrefused⟩ := applied_iff_applicable .written hgiven hnested
  have hselects : (MoveTarget.several ["a", "j"]).Selects given [item "j", .paragraph "a" "A"] :=
    ⟨by decide +kernel, by decide +kernel⟩
  have hlie : Apart [item "j", .paragraph "a" "A"] := by
    unfold Apart
    decide +kernel
  have hanchor : ∀ anchor ∈ some "i", anchor ∈ ids given ∧
      anchor ∉ ids [item "j", .paragraph "a" "A"] := by
    rintro _ ⟨⟩
    decide +kernel
  refine ⟨hgiven, hapart, hnested,
    happlied.2 (.inr ⟨_, _, rfl, hselects, hlie, hanchor⟩), fun happlicable => ?_⟩
  obtain ⟨out, hout⟩ := hrefused.2 happlicable
  have hnone : (ByPath.apply .written given nested).toOption = none := by decide +kernel
  rw [hout] at hnone
  simp [Except.toOption] at hnone

end LiveDoc.Edit
