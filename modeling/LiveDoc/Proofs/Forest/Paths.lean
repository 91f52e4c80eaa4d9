import LiveDoc.Proofs.Forest.Hole
import LiveDoc.Proofs.Forest.Siblings

/-!
# Paths to holes

The indices that lead to the hole of a node. They are the ones that are found for its id, and lead
to the list of siblings around the hole and to what fills it.
-/

set_option autoImplicit false
set_option relaxedAutoImplicit false

namespace LiveDoc.Forest

namespace Hole

/-- The indices that lead to the list of siblings around a hole. -/
def up : Hole → List Nat
  | here _ _ => []
  | within left _ hole _ => left.length :: hole.up

def index : Hole → Nat
  | here left _ => left.length
  | within _ _ hole _ => hole.index

def left : Hole → Forest
  | here left _ => left
  | within _ _ hole _ => hole.left

def right : Hole → Forest
  | here _ right => right
  | within _ _ hole _ => hole.right

theorem siblings_eq (new : Forest) (k : Hole) : k.siblings new = k.left ++ new ++ k.right := by
  induction k with
  | here left right => rfl
  | within left head hole right ih => exact ih

theorem index_eq (k : Hole) : k.index = k.left.length := by
  induction k with
  | here left right => rfl
  | within left head hole right ih => exact ih

end Hole

variable {ident : String} {n : Node} {k : Hole} {ns : Forest}

theorem siblings?_fill (new : Forest) (k : Hole) :
    siblings? k.up (k.fill new) = some (k.siblings new) := by
  induction k with
  | here left right => rfl
  | within left head hole right ih =>
    simp [Hole.up, Hole.fill, siblings?, Hole.siblings, Node.children?, ih]

theorem at?_append (up : List Nat) (index : Nat) (ns : Forest) :
    at? (up ++ [index]) ns = (siblings? up ns).bind (·[index]?) := by
  induction up generalizing ns with
  | nil => rfl
  | cons i up ih =>
    cases hup : up ++ [index] with
    | nil => simp at hup
    | cons j path =>
      rw [List.cons_append, hup, at?, siblings?, ← hup]
      · simp only [Option.bind_eq_bind, ih, Option.bind_assoc]
      · simp

theorem at?_fill (n : Node) (k : Hole) : at? (k.up ++ [k.index]) (k.fill [n]) = some n := by
  rw [at?_append, siblings?_fill, Option.bind_some, Hole.siblings_eq, Hole.index_eq]
  simp

theorem children?_at? {up : List Nat} (hup : up ≠ []) (ns : Forest) :
    (at? up ns).bind Node.children? = siblings? up ns := by
  induction up generalizing ns with
  | nil => exact absurd rfl hup
  | cons i up ih =>
    cases up with
    | nil => simp [at?, siblings?]
    | cons j up =>
      rw [at?, siblings?]
      · simp only [Option.bind_eq_bind, Option.bind_assoc, ih (List.cons_ne_nil j up)]
      · simp

theorem locate?_eq_none (h : ident ∉ ids ns) : locate? ident ns = none := by
  cases hpath : locate? ident ns with
  | none => rfl
  | some path =>
    obtain ⟨n, ⟨up, i, list, -, hlist, hn⟩, rfl⟩ := locate?_eq_some hpath
    have hmem := (sublist_preorder_of_mem_siblingLists (mem_siblingLists_of_siblings? hlist)).subset
      (List.mem_of_getElem? hn)
    exact absurd (mem_ids.2 ⟨n, hmem, rfl⟩) h

private theorem locate?_append {left rest : Forest} {i : Nat} {path : List Nat}
    (h : ident ∉ ids left) (hrest : locate? ident rest = some (i :: path)) :
    locate? ident (left ++ rest) = some ((left.length + i) :: path) := by
  induction left with
  | nil => simpa using hrest
  | cons n left ih =>
    simp only [ids_cons, List.cons_append, List.mem_cons, List.mem_append, not_or] at h
    rw [List.cons_append, locate?, if_neg (Ne.symm h.1), locateBelow?_eq, locate?_eq_none h.2.1,
      ih h.2.2]
    simp [Nat.add_right_comm]

theorem locate?_fill (hid : n.id = ident) (hbefore : ident ∉ k.idsBefore) :
    locate? ident (k.fill [n]) = some (k.up ++ [k.index]) := by
  induction k with
  | here left right =>
    rw [Hole.idsBefore_here] at hbefore
    have hfirst : locate? ident (n :: right) = some [0] := by rw [locate?, if_pos hid]
    simpa [Hole.fill, Hole.up, Hole.index] using locate?_append hbefore hfirst
  | within left head hole right ih =>
    simp only [Hole.idsBefore_within, List.mem_append, List.mem_cons, not_or] at hbefore
    have hhead : (Node.block head (some (hole.fill [n]))).id ≠ ident := Ne.symm hbefore.2.1
    have hfirst : locate? ident (.block head (some (hole.fill [n])) :: right) =
        some (0 :: (hole.up ++ [hole.index])) := by
      rw [locate?, if_neg hhead, Node.locateBelow?, ih hbefore.2.2]
    simpa [Hole.fill, Hole.up, Hole.index] using locate?_append hbefore.1 hfirst

theorem exists_hole_of_siblings? {up : List Nat} {left new right : Forest}
    (h : siblings? up ns = some (left ++ new ++ right)) :
    ∃ k : Hole, ns = k.fill new ∧ k.up = up ∧ k.left = left ∧ k.right = right := by
  induction up generalizing ns with
  | nil => exact ⟨.here left right, Option.some_inj.1 h, rfl, rfl, rfl⟩
  | cons i up ih =>
    simp only [siblings?, Option.bind_eq_bind, Option.bind_eq_some_iff] at h
    obtain ⟨n, hn, children, hchildren, hlist⟩ := h
    obtain ⟨k, rfl, rfl, hleft, hright⟩ := ih hlist
    obtain ⟨hi, rfl⟩ := List.getElem?_eq_some_iff.1 hn
    cases hhead : ns[i] with
    | call c => simp [hhead, Node.children?] at hchildren
    | block head inside =>
      obtain rfl : inside = some (k.fill new) := by simpa [hhead, Node.children?] using hchildren
      refine ⟨.within (ns.take i) head k (ns.drop (i + 1)), ?_, ?_, hleft, hright⟩
      · rw [Hole.fill, ← hhead, List.getElem_cons_drop, List.take_append_drop]
      · simp [Hole.up, Nat.min_eq_left (Nat.le_of_lt hi)]

theorem notMem_idsBefore {more : Forest} (hnodup : (ids (k.fill (n :: more))).Nodup) :
    n.id ∉ k.idsBefore := by
  rw [Hole.ids_fill, List.append_assoc, List.nodup_append] at hnodup
  intro hmem
  exact hnodup.2.2 _ hmem n.id (by simp [ids_cons]) rfl

theorem exists_hole_of_mem (hnodup : (ids ns).Nodup) (hn : n ∈ preorder ns) :
    ∃ k : Hole, ns = k.fill [n] ∧ n.id ∉ k.idsBefore := by
  obtain ⟨k, m, rfl, hid, hbefore⟩ := exists_hole (mem_ids.2 ⟨n, hn, rfl⟩)
  have hfind := find?_of_mem hnodup hn
  rw [find?_fill hid hbefore, Option.some_inj] at hfind
  exact ⟨k, hfind ▸ rfl, hbefore⟩

theorem locate?_of_siblings? {up : List Nat} {left right : Forest} (hnodup : (ids ns).Nodup)
    (h : siblings? up ns = some (left ++ n :: right)) :
    locate? n.id ns = some (up ++ [left.length]) := by
  rw [List.append_cons] at h
  obtain ⟨k, rfl, rfl, rfl, -⟩ := exists_hole_of_siblings? h
  rw [locate?_fill rfl (notMem_idsBefore hnodup), Hole.index_eq]

theorem exists_siblings? {list : Forest} (hnodup : (ids ns).Nodup) (h : list ∈ siblingLists ns) :
    ∃ up, siblings? up ns = some list := by
  rcases List.mem_cons.1 h with rfl | h
  · exact ⟨[], rfl⟩
  · obtain ⟨n, hn, hchildren⟩ := List.mem_filterMap.1 h
    obtain ⟨k, rfl, -⟩ := exists_hole_of_mem hnodup hn
    refine ⟨k.up ++ [k.index], ?_⟩
    rw [← children?_at? (by simp), at?_fill, Option.bind_some, hchildren]

end LiveDoc.Forest
