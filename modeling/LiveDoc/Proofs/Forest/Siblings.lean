import LiveDoc.Proofs.Forest.Traversal

/-!
# Lists of siblings

The lists of siblings of a forest, and the indices that lead to a node: all but the last of them
lead to the list in which the node stands, and the last is its place there.
-/

set_option autoImplicit false
set_option relaxedAutoImplicit false

namespace LiveDoc.Forest

/-- The lists of siblings in a forest: the forest itself and every list of children. -/
def siblingLists (ns : Forest) : List Forest :=
  ns :: (preorder ns).filterMap Node.children?

theorem siblingLists_children_subset {n : Node} {ns children : Forest} (hn : n ∈ preorder ns)
    (hchildren : n.children? = some children) : siblingLists children ⊆ siblingLists ns := by
  have hsub : (preorder children).Sublist (preorder ns) := by
    have hcons : n.preorder = n :: preorder children := by
      rw [← preorder_singleton, preorder_cons, hchildren]
      simp [preorder]
    have hpre := preorder_sublist_of_mem hn
    rw [hcons] at hpre
    exact (List.sublist_cons_self _ _).trans hpre
  intro list hlist
  rcases List.mem_cons.1 hlist with rfl | hlist
  · exact List.mem_cons_of_mem _ (List.mem_filterMap.2 ⟨n, hn, hchildren⟩)
  · exact List.mem_cons_of_mem _ ((hsub.filterMap _).subset hlist)

theorem mem_preorder_of_mem {n : Node} {ns : Forest} (h : n ∈ ns) : n ∈ preorder ns := by
  induction ns with
  | nil => simp at h
  | cons m rest ih =>
    rw [preorder_cons]
    rcases List.mem_cons.1 h with rfl | h
    · simp
    · simp [ih h]

theorem mem_siblingLists_of_siblings? {path : List Nat} {ns list : Forest}
    (h : siblings? path ns = some list) : list ∈ siblingLists ns := by
  induction path generalizing ns with
  | nil =>
    obtain rfl := Option.some_inj.1 h
    exact List.mem_cons_self
  | cons i path ih =>
    simp only [siblings?, Option.bind_eq_bind, Option.bind_eq_some_iff] at h
    obtain ⟨n, hn, children, hchildren, hlist⟩ := h
    have hmem := mem_preorder_of_mem (List.mem_of_getElem? hn)
    exact siblingLists_children_subset hmem hchildren (ih hlist)

theorem sublist_preorder_of_mem_siblingLists {ns list : Forest} (h : list ∈ siblingLists ns) :
    list.Sublist (preorder ns) := by
  have hself (ms : Forest) : ms.Sublist (preorder ms) := by
    induction ms with
    | nil => simp
    | cons m rest ih =>
      rw [preorder_cons, List.cons_append]
      exact (ih.trans (List.sublist_append_right _ _)).cons_cons m
  rcases List.mem_cons.1 h with rfl | h
  · exact hself _
  · obtain ⟨n, hn, hchildren⟩ := List.mem_filterMap.1 h
    have hinner : (preorder list).Sublist n.preorder := by
      rw [← preorder_singleton, preorder_cons, hchildren]
      simp
    exact ((hself list).trans hinner).trans (preorder_sublist_of_mem hn)

/-- Indices lead to a node: all but the last to its list of siblings, the last to its place
there. -/
def Leads (path : List Nat) (ns : Forest) (n : Node) : Prop :=
  ∃ (up : List Nat) (i : Nat) (list : Forest),
    path = up ++ [i] ∧ siblings? up ns = some list ∧ list[i]? = some n

namespace Leads

variable {path : List Nat} {ns rest : Forest} {m n : Node}

theorem first (n : Node) (rest : Forest) : Leads [0] (n :: rest) n :=
  ⟨[], 0, n :: rest, rfl, rfl, rfl⟩

theorem inside (h : Leads path (m.children?.getD []) n) : Leads (0 :: path) (m :: rest) n := by
  obtain ⟨up, i, list, rfl, hlist, hn⟩ := h
  refine ⟨0 :: up, i, list, rfl, ?_, hn⟩
  cases hchildren : m.children? with
  | some children => simpa [siblings?, hchildren] using hlist
  | none =>
    -- no list of siblings in an empty forest has a node in it
    rw [hchildren, Option.getD_none] at hlist
    have hnil : list = [] := by
      cases up with
      | nil => exact (Option.some_inj.1 hlist).symm
      | cons j up => simp [siblings?] at hlist
    simp [hnil] at hn

theorem past {i : Nat} (h : Leads (i :: path) rest n) : Leads ((i + 1) :: path) (m :: rest) n := by
  obtain ⟨up, j, list, hpath, hlist, hn⟩ := h
  cases up with
  | nil =>
    obtain ⟨rfl, rfl⟩ := List.cons.inj hpath
    obtain rfl := Option.some_inj.1 hlist
    exact ⟨[], i + 1, m :: rest, rfl, rfl, by simpa using hn⟩
  | cons k up =>
    obtain ⟨rfl, rfl⟩ := List.cons.inj hpath
    exact ⟨(i + 1) :: up, j, list, rfl, by simpa [siblings?] using hlist, hn⟩

theorem ne_nil (h : Leads path ns n) : path ≠ [] := by
  obtain ⟨up, i, list, rfl, -⟩ := h
  simp

end Leads

private theorem leads_past {ident : String} {rest : Forest} {path : List Nat} (m : Node)
    (ih : ∀ {path}, locate? ident rest = some path → ∃ n, Leads path rest n ∧ n.id = ident)
    (h : ((locate? ident rest).map fun path =>
      match path with
      | i :: below => (i + 1) :: below
      | [] => []) = some path) : ∃ n, Leads path (m :: rest) n ∧ n.id = ident := by
  obtain ⟨below, hbelow, rfl⟩ := Option.map_eq_some_iff.1 h
  obtain ⟨n, hn, hid⟩ := ih hbelow
  cases below with
  | nil => exact absurd rfl hn.ne_nil
  | cons i below => exact ⟨n, hn.past, hid⟩

theorem locateBelow?_eq (ident : String) (n : Node) :
    n.locateBelow? ident = locate? ident (n.children?.getD []) := by
  match n with
  | .block _ none => rfl
  | .block _ (some _) => rfl
  | .call _ => rfl

theorem locate?_eq_some {ident : String} {ns : Forest} {path : List Nat}
    (h : locate? ident ns = some path) : ∃ n, Leads path ns n ∧ n.id = ident := by
  induction ns using induct_cons generalizing path with
  | nil => simp [locate?] at h
  | cons m rest ihc ih =>
    rw [locate?, locateBelow?_eq] at h
    split at h
    · rename_i hid
      exact ⟨m, Option.some_inj.1 h ▸ Leads.first m rest, hid⟩
    split at h
    · rename_i below hbelow
      obtain ⟨n, hn, hid⟩ := ihc hbelow
      exact ⟨n, Option.some_inj.1 h ▸ hn.inside, hid⟩
    · exact leads_past m ih h

end LiveDoc.Forest
