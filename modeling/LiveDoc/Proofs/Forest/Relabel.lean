import LiveDoc.Proofs.Forest.Paths

/-!
# Relabelled forests

A forest of the same shape whose nodes hold something else. As long as different ids stay different,
everything that finds its way through a forest by ids finds the same places in it.
-/

set_option autoImplicit false
set_option relaxedAutoImplicit false

namespace LiveDoc

/-- A change of what nodes hold themselves: of ids, so that different ones stay different, and of
everything else in any way. -/
structure Relabelling where
  ident : String → String
  injective : Function.Injective ident
  block : Block → Block
  call : Call → Call
  block_id : ∀ head, (block head).id = ident head.id
  call_id : ∀ c, (call c).id = ident c.id

namespace Relabelling

open Forest (Hole)

mutual

def node (r : Relabelling) : Node → Node
  | .block head none => .block (r.block head) none
  | .block head (some children) => .block (r.block head) (some (r.forest children))
  | .call c => .call (r.call c)
termination_by structural n => n

def forest (r : Relabelling) : List Node → List Node
  | [] => []
  | n :: rest => r.node n :: r.forest rest
termination_by structural ns => ns

end

/-- The relabelling that changes nothing but ids. -/
def ofIds (ident : String → String) (injective : Function.Injective ident) : Relabelling where
  ident := ident
  injective := injective
  block head := { head with id := ident head.id }
  call c := { c with id := ident c.id }
  block_id _ := rfl
  call_id _ := rfl

variable (r : Relabelling) {ns ms : Forest} {ident : String}

theorem forest_eq_map (ns : Forest) : r.forest ns = ns.map r.node := by
  induction ns with
  | nil => rfl
  | cons n rest ih => rw [forest, ih, List.map_cons]

theorem forest_append (ns ms : Forest) : r.forest (ns ++ ms) = r.forest ns ++ r.forest ms := by
  simp only [forest_eq_map, List.map_append]

theorem node_block (head : Block) (children : Option Forest) :
    r.node (.block head children) = .block (r.block head) (children.map r.forest) := by
  cases children <;> rfl

@[simp] theorem id_node (n : Node) : (r.node n).id = r.ident n.id := by
  match n with
  | .block head none => exact r.block_id head
  | .block head (some _) => exact r.block_id head
  | .call c => exact r.call_id c

@[simp] theorem children?_node (n : Node) :
    (r.node n).children? = n.children?.map r.forest := by
  match n with
  | .block _ none => rfl
  | .block _ (some _) => rfl
  | .call _ => rfl

theorem ident_eq_iff {a b : String} : r.ident a = r.ident b ↔ a = b := r.injective.eq_iff

theorem preorder_forest (ns : Forest) :
    Forest.preorder (r.forest ns) = (Forest.preorder ns).map r.node := by
  induction ns using Forest.induct_cons with
  | nil => rfl
  | cons n rest ihc ih =>
    have hchildren : (r.node n).children?.getD [] = r.forest (n.children?.getD []) := by
      rw [children?_node]
      cases n.children? <;> rfl
    rw [forest, Forest.preorder_cons, Forest.preorder_cons, hchildren, ihc, ih, List.map_append,
      List.map_cons]

theorem ids_forest (ns : Forest) : Forest.ids (r.forest ns) = (Forest.ids ns).map r.ident := by
  simp only [Forest.ids, preorder_forest, List.map_map, Function.comp_def, id_node]

theorem calls_forest (ns : Forest) :
    Forest.calls (r.forest ns) = (Forest.calls ns).map r.call := by
  have hcall? (n : Node) : (r.node n).call? = n.call?.map r.call := by
    match n with
    | .block _ none => rfl
    | .block _ (some _) => rfl
    | .call _ => rfl
  rw [Forest.calls, preorder_forest, List.filterMap_map, Forest.calls, List.map_filterMap]
  simp only [Function.comp_def, hcall?]

theorem mem_ids_forest : r.ident ident ∈ Forest.ids (r.forest ns) ↔ ident ∈ Forest.ids ns := by
  rw [ids_forest, List.mem_map_of_injective r.injective]

theorem find?_forest (ident : String) (ns : Forest) :
    Forest.find? (r.ident ident) (r.forest ns) = (Forest.find? ident ns).map r.node := by
  rw [Forest.find?_eq, Forest.find?_eq, preorder_forest, List.find?_map]
  simp only [Function.comp_def, id_node, r.ident_eq_iff]

theorem has_forest (ident : String) (ns : Forest) :
    Forest.has (r.ident ident) (r.forest ns) = Forest.has ident ns := by
  rw [Forest.has, find?_forest, Option.isSome_map, Forest.has]

def hole (r : Relabelling) : Hole → Hole
  | .here left right => .here (r.forest left) (r.forest right)
  | .within left head k right => .within (r.forest left) (r.block head) (r.hole k) (r.forest right)

theorem forest_fill (new : Forest) (k : Hole) :
    r.forest (k.fill new) = (r.hole k).fill (r.forest new) := by
  induction k with
  | here left right => simp only [Hole.fill, hole, forest_append]
  | within left head k right ih => simp only [Hole.fill, hole, forest_append, forest, node, ih]

theorem idsBefore_hole (k : Hole) : (r.hole k).idsBefore = k.idsBefore.map r.ident := by
  induction k with
  | here left right => simp only [hole, Hole.idsBefore_here, ids_forest]
  | within left head k right ih =>
    simp only [hole, Hole.idsBefore_within, ids_forest, ih, r.block_id, List.map_append,
      List.map_cons]

theorem up_hole (k : Hole) : (r.hole k).up = k.up := by
  induction k with
  | here left right => rfl
  | within left head k right ih => simp only [hole, Hole.up, forest_eq_map, List.length_map, ih]

theorem index_hole (k : Hole) : (r.hole k).index = k.index := by
  induction k with
  | here left right => simp only [hole, Hole.index, forest_eq_map, List.length_map]
  | within left head k right ih => exact ih

theorem notMem_idsBefore_hole {k : Hole} (h : ident ∉ k.idsBefore) :
    r.ident ident ∉ (r.hole k).idsBefore := by
  rwa [idsBefore_hole, List.mem_map_of_injective r.injective]

theorem splice?_forest {f f' : Node → List Node}
    (h : ∀ n : Node, n.id = ident → f' (r.node n) = r.forest (f n)) (ns : Forest) :
    Forest.splice? (r.ident ident) f' (r.forest ns) =
      (Forest.splice? ident f ns).map r.forest := by
  by_cases hmem : ident ∈ Forest.ids ns
  · obtain ⟨k, n, rfl, hid, hbefore⟩ := Forest.exists_hole hmem
    have hnode : (r.node n).id = r.ident ident := by rw [id_node, hid]
    rw [Forest.splice?_fill hid hbefore, forest_fill, Option.map_some, forest_fill, ← h n hid]
    exact Forest.splice?_fill hnode (r.notMem_idsBefore_hole hbefore) f'
  · rw [Forest.splice?_eq_none hmem, Forest.splice?_eq_none (mt r.mem_ids_forest.1 hmem)]
    rfl

theorem remove?_forest (ident : String) (ns : Forest) :
    Forest.remove? (r.ident ident) (r.forest ns) =
      (Forest.remove? ident ns).map (Prod.map r.node r.forest) := by
  rw [Forest.remove?, Forest.remove?, find?_forest,
    r.splice?_forest (f := fun _ => []) fun _ _ => rfl]
  cases Forest.find? ident ns with
  | none => rfl
  | some n => cases Forest.splice? ident (fun _ => []) ns <;> rfl

theorem locate?_forest (ident : String) (ns : Forest) :
    Forest.locate? (r.ident ident) (r.forest ns) = Forest.locate? ident ns := by
  by_cases hmem : ident ∈ Forest.ids ns
  · obtain ⟨k, n, rfl, hid, hbefore⟩ := Forest.exists_hole hmem
    have hnode : (r.node n).id = r.ident ident := by rw [id_node, hid]
    rw [Forest.locate?_fill hid hbefore, forest_fill, ← r.up_hole, ← r.index_hole]
    exact Forest.locate?_fill hnode (r.notMem_idsBefore_hole hbefore)
  · rw [Forest.locate?_eq_none hmem, Forest.locate?_eq_none (mt r.mem_ids_forest.1 hmem)]

theorem siblings?_forest (path : List Nat) (ns : Forest) :
    Forest.siblings? path (r.forest ns) = (Forest.siblings? path ns).map r.forest := by
  induction path generalizing ns with
  | nil => rfl
  | cons i path ih =>
    rw [Forest.siblings?, Forest.siblings?, forest_eq_map, List.getElem?_map]
    cases ns[i]? with
    | none => rfl
    | some n =>
      cases hchildren : n.children? with
      | none => simp [hchildren]
      | some children => simp [hchildren, ih]

end Relabelling

end LiveDoc
