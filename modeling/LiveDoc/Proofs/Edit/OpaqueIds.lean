import LiveDoc.Proofs.Edit.DistinctIds
import LiveDoc.Proofs.Edit.Relabel
import Mathlib.Logic.Equiv.Basic

/-!
# Ids as opaque names

Operations compare ids with one another and make nothing else of them. If other ids are given to all
nodes, different ones to different nodes, and the same ones are used in an operation, it does the
same.
-/

set_option autoImplicit false
set_option relaxedAutoImplicit false

namespace LiveDoc

namespace Edit

inductive Failure.Kind
  | nodeNotFound
  | duplicateId
  | notACall
  | notABlock
  | obstacle
  | misuse
deriving DecidableEq, Repr

def Failure.kind : Failure → Failure.Kind
  | .nodeNotFound _ => .nodeNotFound
  | .duplicateId _ => .duplicateId
  | .notACall _ => .notACall
  | .notABlock _ => .notABlock
  | .obstacle _ => .obstacle
  | .misuse _ => .misuse

theorem kind_mapIds (f : String → String) (failure : Failure) :
    (failure.mapIds f).kind = failure.kind := by
  cases failure with
  | obstacle o => cases o <;> rfl
  | _ => rfl

end Edit

namespace Relabelling

open Edit (Operation SetOrder requireId requireNodes)
open Forest (ids)

section Checks

variable {r : Relabelling}
  (hblank : ∀ ident, Text.isAllBlank ident = false → Text.isAllBlank (r.ident ident) = false)
include hblank

theorem requireId_ident {field ident : String} (h : requireId field ident = .ok ()) :
    requireId field (r.ident ident) = .ok () := by
  rw [requireId, hblank ident (Edit.notBlank_of_requireId h)]
  rfl

theorem requireNodes_forest {nodes : Forest} (h : requireNodes nodes = .ok ()) :
    requireNodes (r.forest nodes) = .ok () := by
  have hids := Edit.notBlank_of_requireNodes h
  have hnone : (Forest.preorder (r.forest nodes)).find? (Text.isAllBlank ·.id) = none := by
    rw [List.find?_eq_none, preorder_forest, List.forall_mem_map]
    intro n hn
    rw [id_node, hblank n.id (hids n.id (Forest.mem_ids.2 ⟨n, hn, rfl⟩))]
    exact Bool.false_ne_true
  cases nodes with
  | nil => exact h
  | cons n rest =>
    rw [requireNodes, hnone]
    rfl

theorem validate_operation {o : Operation} (h : o.validate = .ok ()) :
    (r.operation o).validate = .ok () := by
  cases o with
  | setProp block name value =>
    simp only [operation, Operation.validate, bind_eq_ok_iff] at h ⊢
    obtain ⟨_, hid, hname⟩ := h
    exact ⟨(), requireId_ident hblank hid, hname⟩
  | setContent block content => exact requireId_ident hblank h
  | setParameters block parameters => exact requireId_ident hblank h
  | delete block => exact requireId_ident hblank h
  | rename block new =>
    simp only [operation, Operation.validate, bind_eq_ok_iff] at h ⊢
    obtain ⟨_, hid, hnew⟩ := h
    exact ⟨(), requireId_ident hblank hid, requireId_ident hblank hnew⟩
  | insert place nodes =>
    simp only [operation, Operation.validate, Edit.position_mapIds, bind_eq_ok_iff] at h ⊢
    obtain ⟨pos, hpos, hnodes⟩ := h
    rw [hpos]
    exact ⟨_, rfl, requireNodes_forest hblank hnodes⟩
  | replace block nodes =>
    simp only [operation, Operation.validate, bind_eq_ok_iff] at h ⊢
    obtain ⟨_, hid, hnodes⟩ := h
    exact ⟨(), requireId_ident hblank hid, requireNodes_forest hblank hnodes⟩
  | move targets place =>
    simp only [operation, Operation.validate, Edit.target_mapIds, Edit.position_mapIds,
      bind_eq_ok_iff] at h ⊢
    obtain ⟨what, hwhat, pos, hpos, -⟩ := h
    rw [hwhat, hpos]
    exact ⟨_, rfl, _, rfl, trivial⟩

theorem distinctIds_forest {ns : Forest} (h : Forest.DistinctIds ns) :
    Forest.DistinctIds (r.forest ns) := by
  constructor
  · rw [ids_forest, List.forall_mem_map]
    intro ident hident
    exact hblank ident (h.notBlank ident hident)
  · rw [ids_forest]
    exact h.nodup.map r.injective

end Checks

section OfIds

variable {s : String → String} (hs : Function.Injective s)

theorem functionsNamed_ofIds {ns : Forest} (h : Forest.FunctionsNamed ns) :
    Forest.FunctionsNamed ((ofIds s hs).forest ns) := by
  rw [Forest.functionsNamed_iff_calls] at h ⊢
  rw [calls_forest, List.forall_mem_map]
  exact h

theorem respects_ofIds (o : Operation) : (ofIds s hs).Respects o := by
  intro n hnamed
  match o, n with
  | .setProp .., .block _ none | .setProp .., .block _ (some _) | .setProp .., .call _ => rfl
  | .setContent .., .block _ none | .setContent .., .block _ (some _)
  | .setContent .., .call _ => rfl
  | .setParameters .., .block _ none | .setParameters .., .block _ (some _)
  | .setParameters .., .call _ => rfl
  | .rename .., .block _ none | .rename .., .block _ (some _) | .rename .., .call _ => rfl

/-- An operation does the same, with other ids, to a forest with other ids: it succeeds and gives
the forest with the other ids, or it fails in the same way. Forest and operation stay acceptable as
long as no id becomes blank. -/
theorem ids_are_opaque (order order' : SetOrder) {ns : Forest}
    (hblank : ∀ ident, Text.isAllBlank ident = false → Text.isAllBlank (s ident) = false)
    (hcheck : Forest.check ns = []) (o : Operation) :
    let r := ofIds s hs
    Forest.check (r.forest ns) = [] ∧
      (o.validate = .ok () → (r.operation o).validate = .ok ()) ∧
      match o.apply order ns, (r.operation o).apply order' (r.forest ns) with
      | .ok out, .ok out' => out' = r.forest out
      | .error failed, .error failed' => failed'.failure.kind = failed.failure.kind
      | _, _ => False := by
  intro r
  obtain ⟨hdistinct, hnamed⟩ := Forest.check_eq_nil_iff.1 hcheck
  have hchecked : Forest.check (r.forest ns) = [] := by
    rw [Forest.check_eq_nil_iff]
    exact ⟨distinctIds_forest hblank hdistinct, functionsNamed_ofIds hs hnamed⟩
  refine ⟨hchecked, validate_operation hblank, ?_⟩
  obtain ⟨follower, hfollows⟩ := r.exists_follows order
  have hsame := (respects_ofIds hs o).apply hfollows hdistinct.nodup
  have hnodup : (ids (r.forest ns)).Nodup := (Forest.check_eq_nil_iff.1 hchecked).1.nodup
  obtain heq | ⟨a, b, -, -, hfail, hfail'⟩ :=
    (r.operation o).apply_or_misses hnodup follower order'
  · rw [← heq, hsame]
    cases o.apply order ns with
    | ok out => rfl
    | error failed => exact Edit.kind_mapIds s failed.failure
  · -- either of the two names a node that is missing
    rw [hfail] at hsame
    rw [hfail']
    cases hout : o.apply order ns with
    | ok out => exact nomatch hsame.trans (congrArg _ hout)
    | error failed =>
      rw [hout] at hsame
      have hfailure : failed.failure.mapIds s = .nodeNotFound a :=
        congrArg Edit.Failed.failure (Except.error.inj hsame).symm
      exact (congrArg Edit.Failure.kind hfailure).symm.trans (Edit.kind_mapIds s failed.failure)

/-- Two items of a list move behind it, in the order in which they stand there and not in that of
their ids. -/
theorem ids_are_opaque_in_list :
    let swap : Equiv.Perm String := Equiv.swap "a" "c"
    let item (ident : String) : Node := .block ⟨ident, "list_item", [], []⟩ none
    let list (items : Forest) : Node := .block ⟨"l", "bullet_list", [], []⟩ (some items)
    let given : Forest := [list [item "a", item "b", item "c"], .paragraph "p" "P"]
    let other : Forest := [list [item "c", item "b", item "a"], .paragraph "p" "P"]
    let move (idents : List String) : Operation :=
      (Operation.moveNodes idents).placedAt (.after "p")
    Function.Injective swap ∧
      (∀ ident, Text.isAllBlank ident = false → Text.isAllBlank (swap ident) = false) ∧
      Forest.check given = [] ∧
      (move ["b", "a"]).apply .written given =
        .ok [list [item "c"], .paragraph "p" "P", item "a", item "b"] ∧
      (move ["b", "c"]).apply .written other =
        .ok [list [item "a"], .paragraph "p" "P", item "c", item "b"] := by
  intro swap item list given other move
  have hblank (ident : String) (h : Text.isAllBlank ident = false) :
      Text.isAllBlank (swap ident) = false := by
    by_cases ha : ident = "a"
    · subst ha
      decide +kernel
    · by_cases hc : ident = "c"
      · subst hc
        decide +kernel
      · exact (Equiv.swap_apply_of_ne_of_ne ha hc).symm ▸ h
  have hcheck : Forest.check given = [] := by decide +kernel
  have hmove : (move ["b", "a"]).apply .written given =
      .ok [list [item "c"], .paragraph "p" "P", item "a", item "b"] :=
    toOption_eq_some_iff.1 (by decide +kernel)
  have hother : (ofIds swap swap.injective).forest given = other := by decide +kernel
  have hoperation : (ofIds swap swap.injective).operation (move ["b", "a"]) = move ["b", "c"] := by
    decide +kernel
  have hmoved : (ofIds swap swap.injective).forest
      [list [item "c"], .paragraph "p" "P", item "a", item "b"] =
        [list [item "a"], .paragraph "p" "P", item "c", item "b"] := by decide +kernel
  obtain ⟨-, -, hsame⟩ := ids_are_opaque swap.injective .written .written hblank hcheck
    (move ["b", "a"])
  rw [hmove, hother, hoperation] at hsame
  refine ⟨swap.injective, hblank, hcheck, hmove, ?_⟩
  cases h : (move ["b", "c"]).apply .written other with
  | error failed =>
    rw [h] at hsame
    exact hsame.elim
  | ok out =>
    rw [h] at hsame
    rw [show out = _ from hsame, hmoved]

end OfIds

end Relabelling

end LiveDoc
