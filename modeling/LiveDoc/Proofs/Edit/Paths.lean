import LiveDoc.Edit.Paths
import LiveDoc.Proofs.Edit.Effect
import LiveDoc.Proofs.Forest.Paths

/-!
# Edits by paths are edits

The indices that are found for an id lead to the hole of the first node that has it, so an edit by
paths changes that hole. It never breaks down, on no forest: it stops for the failures of the
operation alone.
-/

set_option autoImplicit false
set_option relaxedAutoImplicit false

namespace LiveDoc.Edit.ByPath

open Forest (Hole ids preorder)

variable {α : Type} {order : SetOrder} {ns : Forest} {ident : String} {n : Node} {k : Hole}

theorem splitLast_concat (up : List Nat) (index : Nat) :
    splitLast (up ++ [index]) = .ok (up, index) := by
  simp [splitLast]

theorem locate_fill (hid : n.id = ident) (hbefore : ident ∉ k.idsBefore) :
    locate (k.fill [n]) ident = .ok (k.up ++ [k.index]) := by
  rw [locate, Forest.locate?_fill hid hbefore]

theorem locate_missing (h : ident ∉ ids ns) :
    locate ns ident = .error (.failed (.nodeNotFound ident)) := by
  rw [locate, Forest.locate?_eq_none h]

theorem changeSiblings_fill {change : Forest → Except Stop (α × Forest)} {result : α}
    {old new : Forest} (h : change (k.siblings old) = .ok (result, k.siblings new)) :
    changeSiblings ident change k.up (k.fill old) = .ok (result, k.fill new) := by
  induction k with
  | here left right => exact h
  | within left head hole right ih =>
    have hget : ((Hole.within left head hole right).fill old)[left.length]? =
        some (.block head (some (hole.fill old))) := by
      simp [Hole.fill]
    rw [Hole.up, changeSiblings, hget]
    simp [ih h, Hole.fill, bind, Except.bind]

theorem removeIndex_siblings (n : Node) (k : Hole) :
    removeIndex k.index (k.siblings [n]) = .ok (n, k.siblings []) := by
  have hget : (k.siblings [n])[k.index]? = some n := by
    simp [Hole.siblings_eq, Hole.index_eq]
  rw [removeIndex, hget]
  simp [Hole.siblings_eq, Hole.index_eq, List.eraseIdx_append_of_length_le]

theorem insertIndex_siblings (new : Forest) (k : Hole) :
    insertIndex k.index new (k.siblings []) = .ok ((), k.siblings new) := by
  simp [insertIndex, Hole.siblings_eq, Hole.index_eq]

theorem insertIndex_siblings_succ (new : Forest) (n : Node) (k : Hole) :
    insertIndex (k.index + 1) new (k.siblings [n]) = .ok ((), k.siblings (n :: new)) := by
  simp [insertIndex, Hole.siblings_eq, Hole.index_eq, List.take_append,
    List.drop_append, List.take_of_length_le, List.drop_of_length_le]

theorem remove_fill (hid : n.id = ident) (hbefore : ident ∉ k.idsBefore) :
    remove (k.fill [n]) ident = .ok (n, k.fill []) := by
  simp only [remove, locate_fill hid hbefore, bind, Except.bind, splitLast_concat]
  exact changeSiblings_fill (removeIndex_siblings n k)

theorem remove_missing (h : ident ∉ ids ns) :
    remove ns ident = .error (.failed (.nodeNotFound ident)) := by
  rw [remove, locate_missing h]
  rfl

theorem remove_eq (ns : Forest) (ident : String) :
    remove ns ident = match Forest.remove? ident ns with
      | some taken => .ok taken
      | none => .error (.failed (.nodeNotFound ident)) := by
  by_cases hmem : ident ∈ ids ns
  · obtain ⟨k, n, rfl, hid, hbefore⟩ := Forest.exists_hole hmem
    simp [remove_fill hid hbefore, Forest.remove?, Forest.find?_fill hid hbefore,
      Forest.splice?_fill hid hbefore]
  · simp [remove_missing hmem, Forest.remove?, Forest.splice?_eq_none hmem]

theorem insertAt_eq (ns new : Forest) (place : Position) :
    insertAt ns new place = (Edit.insertAt ns new place).mapError Failed.stop := by
  cases place with
  | start => rfl
  | finish => rfl
  | after anchor =>
    rw [insertAt, Edit.insertAt, Forest.insertAfter?]
    by_cases hmem : anchor ∈ ids ns
    · obtain ⟨k, n, rfl, hid, hbefore⟩ := Forest.exists_hole hmem
      rw [Forest.splice?_fill hid hbefore, locate_fill hid hbefore]
      simp only [bind, Except.bind, splitLast_concat,
        changeSiblings_fill (insertIndex_siblings_succ new n k)]
      rfl
    · rw [Forest.splice?_eq_none hmem, locate_missing hmem]
      rfl

theorem siblingsOf_eq {up : List Nat} {siblings : Forest}
    (h : Forest.siblings? up ns = some siblings) (ident : String) :
    siblingsOf ns ident up = .ok siblings := by
  rw [siblingsOf]
  split
  · rename_i hup
    rw [List.isEmpty_iff.1 hup] at h
    rw [Option.some_inj.1 h]
  · rename_i hup
    rw [Forest.children?_at? (by simpa using hup), h]

theorem runIds_eq (ns : Forest) (first last : String) :
    runIds ns first last = (Edit.runIds ns first last).mapError .failed := by
  rw [runIds, Edit.runIds]
  cases hfirst : Forest.locate? first ns with
  | none => simp [locate, hfirst, bind, Except.bind, Except.mapError]
  | some firstPath =>
    cases hlast : Forest.locate? last ns with
    | none => simp [locate, hfirst, hlast, bind, Except.bind, Except.mapError]
    | some lastPath =>
      obtain ⟨n, ⟨up, start, siblings, rfl, hsiblings, hn⟩, -⟩ := Forest.locate?_eq_some hfirst
      obtain ⟨m, ⟨lastUp, stop, others, rfl, hothers, hm⟩, -⟩ := Forest.locate?_eq_some hlast
      simp only [locate, hfirst, hlast, bind, Except.bind, splitLast_concat,
        List.dropLast_concat, List.getLast?_concat, Option.getD_some]
      split
      · rfl
      · rename_i hup
        obtain rfl : up = lastUp := by simpa using hup
        obtain rfl : siblings = others := Option.some_inj.1 (hsiblings.symm.trans hothers)
        split
        · rfl
        · have hstop : stop < siblings.length := (List.getElem?_eq_some_iff.1 hm).1
          have hslice : slice start stop siblings =
              .ok ((siblings.take (stop + 1)).drop start) := by
            rw [slice, if_pos ⟨by omega, hstop⟩]
          simp only [siblingsOf_eq hsiblings, hslice, hsiblings, Option.getD_some]
          rfl

theorem movedIds_eq (ns : Forest) (what : MoveTarget) :
    movedIds order ns what = (Edit.movedIds order ns what).mapError .failed := by
  cases what with
  | single block => rfl
  | several blocks => rfl
  | run first last => exact runIds_eq ns first last

theorem covered_eq (ns : Forest) (seen idents : List String) :
    covered ns seen idents = (Edit.covered ns seen idents).mapError .failed := by
  induction idents generalizing seen with
  | nil => rfl
  | cons ident rest ih =>
    rw [covered, Edit.covered]
    by_cases hmem : ident ∈ ids ns
    · obtain ⟨k, n, rfl, hid, hbefore⟩ := Forest.exists_hole hmem
      rw [locate_fill hid hbefore, Forest.find?_fill hid hbefore]
      simp only [bind, Except.bind, Forest.at?_fill, Option.toList_some, ih]
      split <;> rfl
    · have hfind : Forest.find? ident ns = none := by
        rw [← Option.not_isSome_iff_eq_none]
        exact fun h => hmem (Forest.has_iff.1 h)
      rw [locate_missing hmem, hfind]
      rfl

theorem checkApart_eq (ns : Forest) (idents : List String) (place : Position) :
    checkApart ns idents place = (Edit.checkApart ns idents place).mapError .failed := by
  rw [checkApart, Edit.checkApart, mapError_bind, covered_eq]
  congr 1
  funext inside
  cases place with
  | start => rfl
  | finish => rfl
  | after anchor =>
    dsimp only
    split <;> rfl

theorem takeOut_eq (idents : List String) (ns : Forest) :
    takeOut idents ns = (Edit.takeOut idents ns).mapError Failed.stop := by
  induction idents generalizing ns with
  | nil => rfl
  | cons ident rest ih =>
    rw [takeOut, Edit.takeOut, remove_eq]
    cases Forest.remove? ident ns with
    | none => rfl
    | some taken =>
      rw [mapError_bind, ← ih]
      rfl

private theorem mapError_stop {β : Type} (x : Except Failure β) :
    (x.mapError fun failure => (⟨failure, ns⟩ : Failed)).mapError Failed.stop =
      x.mapError .failed := by
  cases x <;> rfl

theorem applyMove_eq (order : SetOrder) (ns : Forest) (what : MoveTarget) (place : Position) :
    applyMove order ns what place = (Edit.applyMove order ns what place).mapError Failed.stop := by
  have hrelocate : applyMove.relocate order ns what place =
      (Edit.applyMove.relocate order ns what place).mapError Failed.stop := by
    simp only [applyMove.relocate, Edit.applyMove.relocate, mapError_bind, mapError_stop,
      movedIds_eq, checkApart_eq, takeOut_eq, insertAt_eq]
  cases what with
  | several blocks => exact hrelocate
  | run first last => exact hrelocate
  | single block =>
    cases place with
    | start => exact hrelocate
    | finish => exact hrelocate
    | after anchor =>
      by_cases hsame : block = anchor
      · simp only [applyMove, Edit.applyMove, if_pos hsame]
        split <;> rfl
      · simpa only [applyMove, Edit.applyMove, if_neg hsame] using hrelocate

/-- An operation that is applied by paths does what it does without them, and never breaks down. -/
theorem apply_eq (order : SetOrder) (ns : Forest) (o : Operation) :
    apply order ns o = (o.apply order ns).mapError Failed.stop := by
  cases o with
  | setProp | setContent | setParameters | rename => rfl
  | insert place nodes =>
    simp only [apply, Operation.apply, mapError_bind, mapError_stop, insertAt_eq]
  | delete block =>
    by_cases hmem : block ∈ ids ns
    · obtain ⟨k, n, rfl, hid, hbefore⟩ := Forest.exists_hole hmem
      simp only [apply, Operation.apply, remove_fill hid hbefore, Forest.splice?_fill hid hbefore]
      rfl
    · simp only [apply, Operation.apply, remove_missing hmem, Forest.splice?_eq_none hmem]
      rfl
  | replace block nodes =>
    by_cases hmem : block ∈ ids ns
    · obtain ⟨k, n, rfl, hid, hbefore⟩ := Forest.exists_hole hmem
      simp only [apply, Operation.apply, locate_fill hid hbefore, splitLast_concat,
        changeSiblings_fill (removeIndex_siblings n k),
        changeSiblings_fill (insertIndex_siblings nodes k), Forest.splice?_fill hid hbefore,
        orMissing, bind, Except.bind]
      cases checkFresh (k.fill []) nodes <;> rfl
    · simp only [apply, Operation.apply, locate_missing hmem, Forest.splice?_eq_none hmem]
      rfl
  | move targets place =>
    simp only [apply, Operation.apply, mapError_bind, mapError_stop, applyMove_eq]

end LiveDoc.Edit.ByPath
