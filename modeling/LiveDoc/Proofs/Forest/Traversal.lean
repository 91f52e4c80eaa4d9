import LiveDoc.Node.Forest
import Mathlib.Data.List.Nodup

/-!
# Traversals of forests

Forests by induction, the agreement of the two walks in document order, and the rows of a forest:
every node by itself, with the id of the block around it. The rows in document order say all there
is to say about a forest except where a list of children ends.
-/

set_option autoImplicit false
set_option relaxedAutoImplicit false

namespace LiveDoc

/-- A forest is empty, or its first node is a block without a list of children, a block with one or
a call. -/
theorem Forest.induct {P : Forest → Prop} (nil : P [])
    (leaf : ∀ head rest, P rest → P (.block head none :: rest))
    (inner : ∀ head children rest, P children → P rest → P (.block head (some children) :: rest))
    (call : ∀ c rest, P rest → P (.call c :: rest)) : ∀ ns, P ns
  | [] => nil
  | .block head none :: rest => leaf head rest (Forest.induct nil leaf inner call rest)
  | .block head (some children) :: rest =>
    inner head children rest (Forest.induct nil leaf inner call children)
      (Forest.induct nil leaf inner call rest)
  | .call c :: rest => call c rest (Forest.induct nil leaf inner call rest)

theorem Forest.induct_cons {P : Forest → Prop} (nil : P [])
    (cons : ∀ n rest, P (n.children?.getD []) → P rest → P (n :: rest)) : ∀ ns, P ns :=
  Forest.induct nil (fun head rest ih => cons (.block head none) rest nil ih)
    (fun head children rest => cons (.block head (some children)) rest)
    (fun c rest ih => cons (.call c) rest nil ih)

/-- A node by itself: its list of children emptied, if it has one. -/
def Node.bare : Node → Node
  | .block head children => .block head (children.map fun _ => [])
  | .call c => .call c

@[simp] theorem Node.id_bare (n : Node) : n.bare.id = n.id := by
  cases n <;> rfl

def Node.mapChildren (f : Forest → Forest) : Node → Node
  | .block head children => .block head (children.map f)
  | .call c => .call c

@[simp] theorem Node.id_mapChildren (f : Forest → Forest) (n : Node) :
    (n.mapChildren f).id = n.id := by
  cases n <;> rfl

@[simp] theorem Node.children?_mapChildren (f : Forest → Forest) (n : Node) :
    (n.mapChildren f).children? = n.children?.map f := by
  cases n <;> rfl

@[simp] theorem Node.bare_mapChildren (f : Forest → Forest) (n : Node) :
    (n.mapChildren f).bare = n.bare := by
  match n with
  | .block _ none => rfl
  | .block _ (some _) => rfl
  | .call _ => rfl

theorem Node.mapChildren_congr {f f' : Forest → Forest} {n : Node}
    (h : f (n.children?.getD []) = f' (n.children?.getD [])) :
    n.mapChildren f = n.mapChildren f' := by
  match n, h with
  | .block _ none, _ => rfl
  | .block head (some _), h => exact congrArg (Node.block head ∘ some) h
  | .call _, _ => rfl

theorem Node.mapChildren_eq_self {f : Forest → Forest} {n : Node}
    (h : f (n.children?.getD []) = n.children?.getD []) : n.mapChildren f = n := by
  match n, h with
  | .block _ none, _ => rfl
  | .block head (some _), h => exact congrArg (Node.block head ∘ some) h
  | .call _, _ => rfl

theorem Node.mapChildren_mapChildren (f f' : Forest → Forest) (n : Node) :
    (n.mapChildren f).mapChildren f' = n.mapChildren (f' ∘ f) := by
  cases n <;> simp [mapChildren]

theorem Node.children_mapChildren {f : Forest → Forest} (hf : f [] = []) (n : Node) :
    (n.mapChildren f).children?.getD [] = f (n.children?.getD []) := by
  rw [children?_mapChildren]
  cases n.children? <;> simp [hf]

theorem Node.exists_block {n : Node} (h : n.children?.getD [] ≠ []) :
    ∃ head children, n = .block head (some children) := by
  match n with
  | .block _ none => exact absurd rfl h
  | .block head (some children) => exact ⟨head, children, rfl⟩
  | .call _ => exact absurd rfl h

@[simp] theorem Node.id_withId (new : String) (n : Node) : (n.withId new).id = new := by
  cases n <;> rfl

@[simp] theorem Node.children?_withId (new : String) (n : Node) :
    (n.withId new).children? = n.children? := by
  cases n <;> rfl

theorem Node.withId_withId (old new : String) (n : Node) :
    (n.withId old).withId new = n.withId new := by
  cases n <;> rfl

theorem Node.withId_id (n : Node) : n.withId n.id = n := by
  cases n <;> rfl

mutual

/-- A node and all below it in document order, each by itself and with the id of the block around
it. -/
def Node.rows (parent : Option String) : Node → List (Option String × Node)
  | .block head none => [(parent, .block head none)]
  | .block head (some children) =>
    (parent, .block head (some [])) :: Forest.rows (some head.id) children
  | .call c => [(parent, .call c)]
termination_by structural n => n

/-- All nodes of a list of siblings in document order, each by itself and with the id of the block
around it. -/
def Forest.rows (parent : Option String) : List Node → List (Option String × Node)
  | [] => []
  | n :: rest => n.rows parent ++ Forest.rows parent rest
termination_by structural ns => ns

end

namespace Forest

section Preorder

theorem preorder_append (ns ms : Forest) : preorder (ns ++ ms) = preorder ns ++ preorder ms := by
  induction ns with
  | nil => simp [preorder]
  | cons n rest ih => simp [preorder, ih]

theorem preorder_cons (n : Node) (rest : Forest) :
    preorder (n :: rest) = n :: preorder (n.children?.getD []) ++ preorder rest := by
  match n with
  | .block _ none => simp [preorder, Node.preorder, Node.children?]
  | .block _ (some _) => simp [preorder, Node.preorder, Node.children?]
  | .call _ => simp [preorder, Node.preorder, Node.children?]

theorem preorder_singleton (n : Node) : preorder [n] = n.preorder := by
  simp [preorder]

theorem walk_eq_preorder (ns : Forest) : walk ns = preorder ns := by
  fun_induction walk ns with
  | case1 => rfl
  | case2 n waiting ih => rw [ih, preorder_append, preorder_cons, List.cons_append]

theorem preorder_sublist_of_mem {n : Node} {ns : Forest} (h : n ∈ preorder ns) :
    n.preorder.Sublist (preorder ns) := by
  induction ns using induct_cons with
  | nil => simp [preorder] at h
  | cons m rest ihc ih =>
    rw [preorder_cons, List.cons_append, List.mem_cons, List.mem_append] at h
    rcases h with rfl | h | h
    · exact List.sublist_append_left _ _
    · rw [preorder_cons]
      exact ((ihc h).trans (List.sublist_append_left _ _)).cons m
    · exact (ih h).trans (List.sublist_append_right _ _)

end Preorder

section Ids

@[simp] theorem ids_nil : ids [] = [] := rfl

theorem ids_append (ns ms : Forest) : ids (ns ++ ms) = ids ns ++ ids ms := by
  simp [ids, preorder_append]

theorem ids_cons (n : Node) (rest : Forest) :
    ids (n :: rest) = n.id :: ids (n.children?.getD []) ++ ids rest := by
  simp [ids, preorder_cons]

theorem ids_singleton_append (n : Node) (rest : Forest) :
    ids (n :: rest) = ids [n] ++ ids rest := by
  rw [← List.singleton_append, ids_append]

theorem id_mem_ids_singleton (n : Node) : n.id ∈ ids [n] := by
  simp [ids_cons]

theorem mem_ids {ident : String} {ns : Forest} :
    ident ∈ ids ns ↔ ∃ n ∈ preorder ns, n.id = ident := by
  simp [ids]

theorem ids_sublist_of_mem {n : Node} {ns : Forest} (h : n ∈ preorder ns) :
    (ids [n]).Sublist (ids ns) := by
  have hsub := (preorder_sublist_of_mem h).map Node.id
  rwa [← preorder_singleton] at hsub

theorem find?_eq (ident : String) (ns : Forest) :
    find? ident ns = (preorder ns).find? (·.id = ident) := by
  rw [find?, walk_eq_preorder]

theorem has_iff {ident : String} {ns : Forest} : has ident ns = true ↔ ident ∈ ids ns := by
  rw [has, find?_eq, List.find?_isSome, mem_ids]
  simp

theorem find?_eq_some {ident : String} {ns : Forest} {n : Node} (h : find? ident ns = some n) :
    n ∈ preorder ns ∧ n.id = ident := by
  rw [find?_eq] at h
  exact ⟨List.mem_of_find?_eq_some h, by simpa using List.find?_some h⟩

theorem find?_of_mem {n : Node} {ns : Forest} (hnodup : (ids ns).Nodup) (h : n ∈ preorder ns) :
    find? n.id ns = some n := by
  obtain ⟨m, hm⟩ : ∃ m, find? n.id ns = some m := by
    rw [← Option.isSome_iff_exists]
    exact has_iff.2 (mem_ids.2 ⟨n, h, rfl⟩)
  have hfound := find?_eq_some hm
  rw [hm, List.inj_on_of_nodup_map hnodup hfound.1 h hfound.2]

end Ids

section Rows

theorem rows_append (parent : Option String) (ns ms : Forest) :
    rows parent (ns ++ ms) = rows parent ns ++ rows parent ms := by
  induction ns with
  | nil => simp [rows]
  | cons n rest ih => simp [rows, ih]

theorem rows_singleton (parent : Option String) (n : Node) :
    rows parent [n] = (parent, n.bare) :: rows (some n.id) (n.children?.getD []) := by
  match n with
  | .block _ none => rfl
  | .block _ (some children) => exact List.append_nil _
  | .call _ => rfl

theorem rows_cons (parent : Option String) (n : Node) (rest : Forest) :
    rows parent (n :: rest) =
      (parent, n.bare) :: rows (some n.id) (n.children?.getD []) ++ rows parent rest := by
  rw [← List.singleton_append, rows_append, rows_singleton]

theorem map_snd_rows (parent : Option String) (ns : Forest) :
    (rows parent ns).map Prod.snd = (preorder ns).map Node.bare := by
  induction ns using induct_cons generalizing parent with
  | nil => rfl
  | cons n rest ihc ih => simp [rows_cons, preorder_cons, ihc, ih]

def heads (ns : Forest) : List Node := (preorder ns).map Node.bare

@[simp] theorem heads_nil : heads [] = [] := rfl

theorem heads_append (ns ms : Forest) : heads (ns ++ ms) = heads ns ++ heads ms := by
  simp [heads, preorder_append]

theorem heads_cons (n : Node) (rest : Forest) : heads (n :: rest) = heads [n] ++ heads rest := by
  rw [← List.singleton_append, heads_append]

theorem map_id_heads (ns : Forest) : (heads ns).map Node.id = ids ns := by
  simp [heads, ids, Function.comp_def]

theorem map_id_rows (parent : Option String) (ns : Forest) :
    (rows parent ns).map (·.2.id) = ids ns := by
  rw [← map_id_heads, heads, ← map_snd_rows parent, List.map_map]
  rfl

end Rows

end Forest

end LiveDoc
