import LiveDoc.Edit.Batch
import LiveDoc.Proofs.Forest.Check
import LiveDoc.Proofs.Outcome

/-!
# Effects of edit operations

What a successful operation has done to a forest: all of them but moves fill one hole of the forest
differently, or put nodes at one of its ends.
-/

set_option autoImplicit false
set_option relaxedAutoImplicit false

namespace LiveDoc.Edit

open Forest (Hole ids heads preorder)

variable {order : SetOrder} {ns out : Forest}

/-- A node that an operation names, after the operation. -/
def Operation.edited : Operation → Node → Node
  | .setProp _ name value, .block head children =>
    .block { head with props := head.props.put name value } children
  | .setContent _ content, n => n.withContent content
  | .setParameters _ parameters, .call c => .call { c with parameters }
  | .rename _ new, n => n.withId new
  | _, n => n

section Edited

variable {o : Operation} {n : Node}

@[simp] theorem children?_edited : (o.edited n).children? = n.children? := by
  cases o <;> cases n <;> rfl

theorem bare_edited : (o.edited n).bare = o.edited n.bare := by
  cases o <;> cases n <;> rfl

end Edited

theorem orMissing_eq_ok {ident : String} {changed : Option Forest}
    (h : orMissing ns ident changed = .ok out) : changed = some out := by
  cases changed with
  | none => simp [orMissing, fail] at h
  | some ms => simpa [orMissing] using h

theorem changeNode_eq_ok {ident : String} {f : Node → Except Failure Node}
    (h : changeNode ns ident f = .ok out) :
    ∃ (k : Hole) (n changed : Node), ns = k.fill [n] ∧ n.id = ident ∧ ident ∉ k.idsBefore ∧
      f n = .ok changed ∧ out = k.fill [changed] := by
  unfold changeNode at h
  split at h
  · simp [fail] at h
  · rename_i n hfind
    split at h
    · simp [fail] at h
    · rename_i changed hf
      obtain ⟨k, m, rfl, hid, hbefore, rfl⟩ := Forest.splice?_eq_some (orMissing_eq_ok h)
      have hm : Forest.find? ident (k.fill [m]) = some m := Forest.find?_fill hid hbefore
      obtain rfl : m = n := Option.some_inj.1 (hm.symm.trans hfind)
      exact ⟨k, m, changed, rfl, hid, hbefore, hf, rfl⟩

theorem setProp_eq_ok {block name : String} {value : Json}
    (h : (Operation.setProp block name value).apply order ns = .ok out) :
    ∃ (k : Hole) (head : Block) (children : Option Forest),
      ns = k.fill [.block head children] ∧ head.id = block ∧ block ∉ k.idsBefore ∧
      out = k.fill [.block { head with props := head.props.put name value } children] := by
  obtain ⟨k, n, changed, hns, hid, hbefore, hf, hout⟩ := changeNode_eq_ok h
  cases n with
  | block head children => exact ⟨k, head, children, hns, hid, hbefore, Except.ok.inj hf ▸ hout⟩
  | call c => simp [withProp] at hf

theorem setContent_eq_ok {block : String} {content : List Inline}
    (h : (Operation.setContent block content).apply order ns = .ok out) :
    ∃ (k : Hole) (n : Node), ns = k.fill [n] ∧ n.id = block ∧ block ∉ k.idsBefore ∧
      out = k.fill [n.withContent content] := by
  simp only [Operation.apply] at h
  obtain ⟨k, n, changed, hns, hid, hbefore, hf, hout⟩ := changeNode_eq_ok h
  exact ⟨k, n, hns, hid, hbefore, Except.ok.inj hf ▸ hout⟩

theorem setParameters_eq_ok {block : String} {parameters : Table Json}
    (h : (Operation.setParameters block parameters).apply order ns = .ok out) :
    ∃ (k : Hole) (c : Call), ns = k.fill [.call c] ∧ c.id = block ∧ block ∉ k.idsBefore ∧
      out = k.fill [.call { c with parameters }] := by
  obtain ⟨k, n, changed, hns, hid, hbefore, hf, hout⟩ := changeNode_eq_ok h
  cases n with
  | block head children => simp [withParameters] at hf
  | call c => exact ⟨k, c, hns, hid, hbefore, Except.ok.inj hf ▸ hout⟩

theorem rename_eq_ok {block new : String}
    (h : (Operation.rename block new).apply order ns = .ok out) :
    (block = new ∧ out = ns) ∨
      new ∉ ids ns ∧ ∃ (k : Hole) (n : Node), ns = k.fill [n] ∧ n.id = block ∧
        block ∉ k.idsBefore ∧ out = k.fill [n.withId new] := by
  simp only [Operation.apply] at h
  split at h
  · simp [fail] at h
  split at h
  · rename_i hsame
    exact .inl ⟨hsame, (Except.ok.inj h).symm⟩
  split at h
  · simp [fail] at h
  · rename_i hnew
    rw [Forest.has_iff] at hnew
    exact .inr ⟨hnew, Forest.splice?_eq_some (orMissing_eq_ok h)⟩

theorem insertAt_eq_ok {new : Forest} {place : Position} (h : insertAt ns new place = .ok out) :
    (place = .start ∧ out = new ++ ns) ∨ (place = .finish ∧ out = ns ++ new) ∨
      ∃ (anchor : String) (k : Hole) (n : Node), place = .after anchor ∧ ns = k.fill [n] ∧
        n.id = anchor ∧ anchor ∉ k.idsBefore ∧ out = k.fill (n :: new) := by
  cases place with
  | start => exact .inl ⟨rfl, (Except.ok.inj h).symm⟩
  | finish => exact .inr (.inl ⟨rfl, (Except.ok.inj h).symm⟩)
  | after anchor =>
    obtain ⟨k, n, hns, hid, hbefore, hout⟩ := Forest.splice?_eq_some (orMissing_eq_ok h)
    exact .inr (.inr ⟨anchor, k, n, rfl, hns, hid, hbefore, hout⟩)

theorem firstTaken?_eq_none_iff {taken new : List String} :
    firstTaken? taken new = none ↔ new.Nodup ∧ ∀ ident ∈ new, ident ∉ taken := by
  induction new generalizing taken with
  | nil => simp [firstTaken?]
  | cons ident rest ih =>
    simp only [firstTaken?]
    split
    · simp_all
    · simp only [ih, List.nodup_cons, List.mem_cons, forall_eq_or_imp, not_or]
      grind

theorem checkFresh_eq_ok_iff {new : Forest} :
    checkFresh ns new = .ok () ↔ (ids new).Nodup ∧ ∀ ident ∈ ids new, ident ∉ ids ns := by
  rw [← firstTaken?_eq_none_iff, checkFresh]
  cases firstTaken? (ids ns) (ids new) <;> simp [fail]

theorem insert_eq_ok {place : Markers} {nodes : Forest}
    (h : (Operation.insert place nodes).apply order ns = .ok out) :
    ∃ pos, position place = .ok pos ∧ checkFresh ns nodes = .ok () ∧
      insertAt ns nodes pos = .ok out := by
  simp only [Operation.apply, bind_eq_ok_iff, mapError_eq_ok_iff] at h
  obtain ⟨pos, hpos, ⟨⟩, hfresh, h⟩ := h
  exact ⟨pos, hpos, hfresh, h⟩

theorem delete_eq_ok {block : String} (h : (Operation.delete block).apply order ns = .ok out) :
    ∃ (k : Hole) (n : Node), ns = k.fill [n] ∧ n.id = block ∧ block ∉ k.idsBefore ∧
      out = k.fill [] :=
  Forest.splice?_eq_some (orMissing_eq_ok h)

theorem replace_eq_ok {block : String} {nodes : Forest}
    (h : (Operation.replace block nodes).apply order ns = .ok out) :
    ∃ (k : Hole) (n : Node), ns = k.fill [n] ∧ n.id = block ∧ block ∉ k.idsBefore ∧
      checkFresh (k.fill []) nodes = .ok () ∧ out = k.fill nodes := by
  simp only [Operation.apply, bind_eq_ok_iff] at h
  obtain ⟨left, hleft, ⟨⟩, hfresh, h⟩ := h
  obtain ⟨k, n, rfl, hid, hbefore, rfl⟩ := Forest.splice?_eq_some (orMissing_eq_ok hleft)
  have hout := orMissing_eq_ok h
  rw [Forest.splice?_fill hid hbefore, Option.some_inj] at hout
  exact ⟨k, n, rfl, hid, hbefore, hfresh, hout.symm⟩

theorem move_eq_ok {targets : Targets} {place : Markers}
    (h : (Operation.move targets place).apply order ns = .ok out) :
    ∃ what pos, target targets = .ok what ∧ position place = .ok pos ∧
      applyMove order ns what pos = .ok out := by
  simp only [Operation.apply, bind_eq_ok_iff, mapError_eq_ok_iff] at h
  obtain ⟨what, hwhat, pos, hpos, h⟩ := h
  exact ⟨what, pos, hwhat, hpos, h⟩

/-- A move leaves all where it is, if a node is to stand behind itself, or takes nodes that lie
apart out of the forest and puts them at their place. -/
theorem applyMove_eq_ok {what : MoveTarget} {pos : Position}
    (h : applyMove order ns what pos = .ok out) :
    (∃ block, what = .single block ∧ pos = .after block ∧ block ∈ ids ns ∧ out = ns) ∨
      (∀ block, ¬ (what = .single block ∧ pos = .after block)) ∧
      ∃ idents moved left, movedIds order ns what = .ok idents ∧ checkApart ns idents pos = .ok () ∧
        takeOut idents ns = .ok (moved, left) ∧ insertAt left moved pos = .ok out := by
  have hrelocate (h : applyMove.relocate order ns what pos = .ok out) :
      ∃ idents moved left, movedIds order ns what = .ok idents ∧ checkApart ns idents pos = .ok () ∧
        takeOut idents ns = .ok (moved, left) ∧ insertAt left moved pos = .ok out := by
    simp only [applyMove.relocate, bind_eq_ok_iff, mapError_eq_ok_iff] at h
    obtain ⟨idents, hidents, ⟨⟩, hapart, ⟨moved, left⟩, htake, h⟩ := h
    exact ⟨idents, moved, left, hidents, hapart, htake, h⟩
  unfold applyMove at h
  split at h
  · rename_i block anchor
    split at h
    · rename_i hsame
      split at h
      · rename_i hhas
        exact .inl ⟨block, rfl, by rw [hsame], Forest.has_iff.1 hhas, (Except.ok.inj h).symm⟩
      · simp [fail] at h
    · rename_i hother
      refine .inr ⟨fun b hb => hother ?_, hrelocate h⟩
      simp only [MoveTarget.single.injEq, Position.after.injEq] at hb
      rw [hb.1, hb.2]
  · rename_i hno
    exact .inr ⟨fun b hb => hno b b hb.1 hb.2, hrelocate h⟩

end LiveDoc.Edit
