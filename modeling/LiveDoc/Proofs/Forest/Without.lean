import LiveDoc.Proofs.Forest.Hole

/-!
# Forests without some nodes

Leaving out all nodes with given ids, with all below them. Where no id stands twice, this is what
taking the nodes out one after the other comes to, and all other rows stay as they are.
-/

set_option autoImplicit false
set_option relaxedAutoImplicit false

namespace LiveDoc

mutual

/-- A node, unless its id is among the given ones, without the nodes below it whose ids are. -/
def Node.without (gone : List String) : Node → List Node
  | .block head none => if head.id ∈ gone then [] else [.block head none]
  | .block head (some children) =>
    if head.id ∈ gone then [] else [.block head (some (Forest.without gone children))]
  | .call c => if c.id ∈ gone then [] else [.call c]
termination_by structural n => n

/-- The nodes of a list of siblings whose ids are not among the given ones, without the nodes below
them whose ids are. -/
def Forest.without (gone : List String) : List Node → List Node
  | [] => []
  | n :: rest => n.without gone ++ Forest.without gone rest
termination_by structural ns => ns

end

theorem Node.without_eq (gone : List String) (n : Node) :
    n.without gone = if n.id ∈ gone then [] else [n.mapChildren (Forest.without gone)] := by
  match n with
  | .block _ none => rfl
  | .block _ (some _) => rfl
  | .call _ => rfl

namespace Forest

variable {gone : List String} {ns : Forest}

theorem without_cons_of_mem {n : Node} {rest : Forest} (h : n.id ∈ gone) :
    without gone (n :: rest) = without gone rest := by
  rw [without, Node.without_eq, if_pos h, List.nil_append]

theorem without_cons_of_notMem {n : Node} {rest : Forest} (h : n.id ∉ gone) :
    without gone (n :: rest) = n.mapChildren (without gone) :: without gone rest := by
  rw [without, Node.without_eq, if_neg h, List.singleton_append]

theorem without_append (left right : Forest) :
    without gone (left ++ right) = without gone left ++ without gone right := by
  induction left with
  | nil => simp [without]
  | cons n left ih => simp [without, ih]

theorem ids_without_sublist : (ids (without gone ns)).Sublist (ids ns) := by
  induction ns using induct_cons with
  | nil => exact .refl _
  | cons n rest ihc ih =>
    rw [ids_cons n rest]
    by_cases hgone : n.id ∈ gone
    · rw [without_cons_of_mem hgone]
      exact ih.trans (List.sublist_append_right _ _)
    · rw [without_cons_of_notMem hgone, ids_cons, Node.id_mapChildren,
        Node.children_mapChildren (by rfl)]
      exact (ihc.cons_cons _).append ih

theorem without_eq_self (h : ∀ ident ∈ ids ns, ident ∉ gone) : without gone ns = ns := by
  induction ns using induct_cons with
  | nil => rfl
  | cons n rest ihc ih =>
    rw [ids_cons, List.cons_append, List.forall_mem_cons, List.forall_mem_append] at h
    obtain ⟨hn, hchildren, hrest⟩ := h
    rw [without_cons_of_notMem hn, Node.mapChildren_eq_self (ihc hchildren), ih hrest]

theorem without_without (more : List String) :
    without more (without gone ns) = without (gone ++ more) ns := by
  induction ns using induct_cons with
  | nil => rfl
  | cons n rest ihc ih =>
    by_cases hgone : n.id ∈ gone
    · rw [without_cons_of_mem hgone, ih,
        without_cons_of_mem (List.mem_append_left more hgone)]
    rw [without_cons_of_notMem hgone]
    by_cases hmore : n.id ∈ more
    · rw [without_cons_of_mem (by simpa using hmore), ih,
        without_cons_of_mem (List.mem_append_right gone hmore)]
    · rw [without_cons_of_notMem (by simpa using hmore), ih, Node.mapChildren_mapChildren,
        Node.mapChildren_congr ihc, without_cons_of_notMem (by simp [hgone, hmore])]

theorem without_congr {more : List String} (h : ∀ ident, ident ∈ gone ↔ ident ∈ more) :
    without gone ns = without more ns := by
  induction ns using induct_cons with
  | nil => rfl
  | cons n rest ihc ih =>
    simp only [without, Node.without_eq, h, ih, Node.mapChildren_congr ihc]

theorem without_eq_nil (h : ∀ n ∈ ns, n.id ∈ gone) : without gone ns = [] := by
  induction ns with
  | nil => rfl
  | cons n rest ih =>
    rw [List.forall_mem_cons] at h
    rw [without_cons_of_mem h.1, ih h.2]

theorem without_fill_eq {k : Hole} {new : Forest}
    (h : ∀ ident ∈ k.idsBefore ++ k.idsAfter, ident ∉ gone) :
    without gone (k.fill new) = k.fill (without gone new) := by
  induction k with
  | here left right =>
    rw [Hole.idsBefore_here, Hole.idsAfter_here, List.forall_mem_append] at h
    rw [Hole.fill, without_append, without_append, without_eq_self h.1, without_eq_self h.2,
      Hole.fill]
  | within left head hole right ih =>
    simp only [Hole.idsBefore_within, Hole.idsAfter_within, List.forall_mem_append,
      List.forall_mem_cons] at h
    obtain ⟨⟨hleft, hhead, hbefore⟩, hafter, hright⟩ := h
    rw [Hole.fill, without_append, without, without_eq_self hleft, without_eq_self hright,
      Node.without, if_neg hhead, ih (List.forall_mem_append.2 ⟨hbefore, hafter⟩), Hole.fill]
    rfl

theorem without_fill {k : Hole} {n : Node} (hnodup : (ids (k.fill [n])).Nodup) :
    without [n.id] (k.fill [n]) = k.fill [] := by
  have hmem := id_mem_ids_singleton n
  rw [Hole.ids_fill, List.append_assoc, List.nodup_append, List.nodup_append] at hnodup
  obtain ⟨-, ⟨-, -, hafter⟩, hbefore⟩ := hnodup
  rw [without_fill_eq, without_eq_nil (by simp)]
  simp only [List.forall_mem_append, List.mem_singleton]
  exact ⟨fun ident hident heq => hbefore ident hident n.id (List.mem_append_left _ hmem) heq,
    fun ident hident heq => hafter n.id hmem ident hident heq.symm⟩

theorem mem_preorder_without {n : Node} (hn : n ∈ preorder ns)
    (habove : ∀ m ∈ preorder ns, m.id ∈ gone → n ∉ m.preorder)
    (hbelow : ∀ ident ∈ ids [n], ident ∉ gone) : n ∈ preorder (without gone ns) := by
  induction ns using induct_cons with
  | nil => simp [preorder] at hn
  | cons m rest ihc ih =>
    rw [preorder_cons, List.cons_append, List.mem_cons, List.mem_append] at hn
    rw [preorder_cons, List.cons_append, List.forall_mem_cons, List.forall_mem_append] at habove
    obtain ⟨hm, hchildren, hrest⟩ := habove
    -- the first node stays if `n` is the node itself or below it
    have hstay (hin : n ∈ m.preorder) : m.id ∉ gone := fun hgone => hm hgone hin
    rw [← preorder_singleton, preorder_cons] at hstay
    rcases hn with rfl | hn | hn
    · rw [← List.singleton_append, without_append, without_eq_self hbelow, List.singleton_append,
        preorder_cons]
      exact List.mem_append_left _ List.mem_cons_self
    · rw [without_cons_of_notMem (hstay (by simp [hn])), preorder_cons,
        Node.children_mapChildren (by rfl)]
      exact List.mem_append_left _ (List.mem_cons_of_mem _ (ihc hn hchildren))
    · rw [without, preorder_append]
      exact List.mem_append_right _ (ih hn hrest)

theorem splice?_nil_of_mem {n : Node} (hnodup : (ids ns).Nodup) (hn : n ∈ preorder ns) :
    splice? n.id (fun _ => []) ns = some (without [n.id] ns) := by
  obtain ⟨k, m, rfl, hid, hbefore⟩ := exists_hole (mem_ids.2 ⟨n, hn, rfl⟩)
  rw [splice?_fill hid hbefore, ← hid, without_fill hnodup]

theorem remove?_of_mem {n : Node} (hnodup : (ids ns).Nodup) (hn : n ∈ preorder ns) :
    remove? n.id ns = some (n, without [n.id] ns) := by
  simp [remove?, find?_of_mem hnodup hn, splice?_nil_of_mem hnodup hn]

/-- The given ids are those of the nodes in question and of all nodes below them. -/
structure Covers (gone inside : List String) (ns : Forest) : Prop where
  of_gone : ∀ m ∈ preorder ns, m.id ∈ gone → ∀ ident ∈ ids [m], ident ∈ inside
  exists_gone : ∀ ident ∈ ids ns, ident ∈ inside →
    ∃ m ∈ preorder ns, m.id ∈ gone ∧ ident ∈ ids [m]

namespace Covers

variable {inside : List String} {n : Node} {rest : Forest}

private theorem mem_ids_children {m : Node} {ident : String}
    (hm : m ∈ preorder (n.children?.getD [])) (h : ident ∈ ids [m]) :
    ident ∈ ids (n.children?.getD []) :=
  (ids_sublist_of_mem hm).subset h

theorem tail (h : Covers gone inside (n :: rest)) (hnodup : (ids (n :: rest)).Nodup) :
    Covers gone inside rest := by
  rw [ids_cons, List.nodup_append] at hnodup
  refine ⟨fun m hm => h.of_gone m (by simp [preorder_cons, hm]), fun ident hident hin => ?_⟩
  obtain ⟨m, hm, hgone, hmem⟩ := h.exists_gone ident (by simp [ids_cons, hident]) hin
  simp only [preorder_cons, List.cons_append, List.mem_cons, List.mem_append] at hm
  rcases hm with rfl | hm | hm
  · exact absurd rfl (hnodup.2.2 ident (by simpa [ids_cons] using hmem) ident hident)
  · have hchild := mem_ids_children hm hmem
    exact absurd rfl (hnodup.2.2 ident (List.mem_cons_of_mem _ hchild) ident hident)
  · exact ⟨m, hm, hgone, hmem⟩

theorem children (h : Covers gone inside (n :: rest)) (hnodup : (ids (n :: rest)).Nodup)
    (hstay : n.id ∉ gone) : Covers gone inside (n.children?.getD []) := by
  rw [ids_cons, List.nodup_append] at hnodup
  refine ⟨fun m hm => h.of_gone m (by simp [preorder_cons, hm]), fun ident hident hin => ?_⟩
  obtain ⟨m, hm, hgone, hmem⟩ := h.exists_gone ident (by simp [ids_cons, hident]) hin
  simp only [preorder_cons, List.cons_append, List.mem_cons, List.mem_append] at hm
  rcases hm with rfl | hm | hm
  · exact absurd hgone hstay
  · exact ⟨m, hm, hgone, hmem⟩
  · have hrest := (ids_sublist_of_mem hm).subset hmem
    exact absurd rfl (hnodup.2.2 ident (List.mem_cons_of_mem _ hident) ident hrest)

theorem mem_inside_iff (h : Covers gone inside (n :: rest)) (hnodup : (ids (n :: rest)).Nodup) :
    n.id ∈ inside ↔ n.id ∈ gone := by
  refine ⟨fun hin => ?_, fun hgone => ?_⟩
  · rw [ids_cons, List.nodup_append, List.nodup_cons] at hnodup
    obtain ⟨m, hm, hgone, hmem⟩ := h.exists_gone n.id (by simp [ids_cons]) hin
    simp only [preorder_cons, List.cons_append, List.mem_cons, List.mem_append] at hm
    rcases hm with rfl | hm | hm
    · exact hgone
    · exact absurd (mem_ids_children hm hmem) hnodup.1.1
    · exact absurd rfl (hnodup.2.2 n.id (by simp) n.id ((ids_sublist_of_mem hm).subset hmem))
  · exact h.of_gone n (by simp [preorder_cons]) hgone n.id (id_mem_ids_singleton n)

end Covers

/-- The rows that are left where nodes are left out: those outside of the trees of these nodes. -/
theorem rows_without {inside : List String} (hnodup : (ids ns).Nodup)
    (hcovers : Covers gone inside ns) (parent : Option String) :
    rows parent (without gone ns) = (rows parent ns).filter (·.2.id ∉ inside) := by
  induction ns using induct_cons generalizing parent with
  | nil => rfl
  | cons n rest ihc ih =>
    have hin := hcovers.mem_inside_iff hnodup
    have hrest := ih (hnodup.sublist (by simp [ids_cons])) (hcovers.tail hnodup) parent
    rw [← List.singleton_append, rows_append, List.filter_append, ← hrest]
    by_cases hgone : n.id ∈ gone
    · have hall := hcovers.of_gone n (by simp [preorder_cons]) hgone
      rw [List.singleton_append, without_cons_of_mem hgone, List.self_eq_append_left,
        List.filter_eq_nil_iff]
      intro row hrow
      have hmem : row.2.id ∈ ids [n] := by
        rw [← map_id_rows parent]
        exact List.mem_map_of_mem (f := fun row => row.2.id) hrow
      simpa using hall _ hmem
    · have hchildren := ihc (hnodup.sublist (by simp [ids_cons])) (hcovers.children hnodup hgone)
        (some n.id)
      rw [List.singleton_append, without_cons_of_notMem hgone, rows_cons, rows_singleton,
        Node.bare_mapChildren, Node.id_mapChildren, Node.children_mapChildren (by rfl), hchildren,
        List.filter_cons_of_pos (by simp [hin, hgone])]

end Forest

end LiveDoc
