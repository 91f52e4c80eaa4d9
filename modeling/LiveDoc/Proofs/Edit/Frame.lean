import LiveDoc.Proofs.Edit.Move

/-!
# What operations leave alone

Every operation but a move works at one place of the forest. It changes one field of the one node
that it names, takes this node out with all below it, or puts the nodes it carries somewhere; the
rows of all other nodes stay as they are and in their order.
-/

set_option autoImplicit false
set_option relaxedAutoImplicit false

namespace LiveDoc.Edit

open Forest (Hole ids preorder rows)

/-- A node stands in a hole of the forest, and no other one has its id. -/
structure StandsAlone (ns : Forest) (block : String) (k : Hole) (n : Node) : Prop where
  fills : ns = k.fill [n]
  named : n.id = block
  once : (ids ns).count block = 1

/-- What an operation that is no move makes of a forest. -/
def Operation.Changes (ns out : Forest) : Operation → Prop
  | .setProp block name value =>
    ∃ (k : Hole) (head : Block) (children : Option Forest) (props : Table Json),
      StandsAlone ns block k (.block head children) ∧
      out = k.fill [.block { head with props } children] ∧ props.get? name = some value ∧
      ∀ other, other ≠ name → props.get? other = head.props.get? other
  | .setContent block content =>
    ∃ (k : Hole) (n : Node), StandsAlone ns block k n ∧ out = k.fill [n.withContent content]
  | .setParameters block parameters =>
    ∃ (k : Hole) (c : Call), StandsAlone ns block k (.call c) ∧
      out = k.fill [.call { c with parameters }]
  | .rename block new =>
    ∃ (k : Hole) (n : Node), StandsAlone ns block k n ∧ out = k.fill [n.withId new]
  | .insert place nodes => ∃ pos, place.resolve = .ok pos ∧ pos.Puts nodes ns out
  | .delete block => ∃ (k : Hole) (n : Node), StandsAlone ns block k n ∧ out = k.fill []
  | .replace block nodes =>
    ∃ (k : Hole) (n : Node), StandsAlone ns block k n ∧ out = k.fill nodes
  | .move .. => False

/-- The row of a node that an operation does not take out, after the operation. A new id of a block
shows in the rows of its children, too. -/
def Operation.rowAfter (o : Operation) (row : Option String × Node) : Option String × Node :=
  match o with
  | .setProp block _ _ | .setContent block _ | .setParameters block _ =>
    (row.1, if row.2.id = block then o.edited row.2 else row.2)
  | .rename block new =>
    (row.1.map fun owner => if owner = block then new else owner,
      if row.2.id = block then o.edited row.2 else row.2)
  | .insert .. | .delete _ | .replace .. | .move .. => row

/-- The ids of the nodes that an operation takes out for good. -/
def Operation.removed (ns : Forest) : Operation → List String
  | .delete block | .replace block _ => ((Forest.find? block ns).map fun n => ids [n]).getD []
  | .setProp .. | .setContent .. | .setParameters .. | .rename .. | .insert .. | .move .. => []

variable {order : SetOrder} {ns out : Forest} {k : Hole} {n : Node} {block : String}

section Places

theorem standsAlone_of_fill (hnodup : (ids (k.fill [n])).Nodup) :
    StandsAlone (k.fill [n]) n.id k n := by
  have hmem : n.id ∈ ids (k.fill [n]) := by
    simp [Hole.ids_fill, Forest.id_mem_ids_singleton]
  exact ⟨rfl, rfl, List.count_eq_one_of_mem hnodup hmem⟩

theorem id_mem_of_mem_rows {parent : Option String} {row : Option String × Node}
    (h : row ∈ rows parent ns) : row.2.id ∈ ids ns := by
  rw [← Forest.map_id_rows parent]
  exact List.mem_map_of_mem (f := fun row => row.2.id) h

theorem id_mem_around {row : Option String × Node}
    (h : row ∈ k.before none ∨ row ∈ k.after none) : row.2.id ∈ ids (k.fill []) := by
  have hrows : row ∈ rows none (k.fill []) := by simpa [Hole.rows_fill, rows] using h
  exact id_mem_of_mem_rows hrows

theorem notMem_of_around {new : Forest} (hnodup : (ids (k.fill new)).Nodup) {ident : String}
    (h : ident ∈ ids (k.fill [])) : ident ∉ ids new := by
  rw [Hole.ids_fill, List.append_assoc] at hnodup
  obtain ⟨-, hbehind, hbefore⟩ := List.nodup_append.1 hnodup
  obtain ⟨-, -, hafter⟩ := List.nodup_append.1 hbehind
  rw [Hole.ids_fill, Forest.ids_nil, List.append_nil, List.mem_append] at h
  intro hin
  rcases h with h | h
  · exact hbefore ident h ident (List.mem_append_left _ hin) rfl
  · exact hafter ident hin ident h rfl

theorem rows_fill_filter {new : Forest} (hapart : ∀ ident ∈ ids (k.fill []), ident ∉ ids new) :
    (rows none (k.fill new)).filter (·.2.id ∉ ids new) = rows none (k.fill []) := by
  have haround (row : Option String × Node) (h : row ∈ k.before none ∨ row ∈ k.after none) :
      row.2.id ∉ ids new :=
    hapart _ (id_mem_around h)
  have hin : (rows (k.owner none) new).filter (·.2.id ∉ ids new) = [] := by
    rw [List.filter_eq_nil_iff]
    exact fun row hrow => by simpa using id_mem_of_mem_rows hrow
  have hbefore : (k.before none).filter (·.2.id ∉ ids new) = k.before none :=
    List.filter_eq_self.2 fun row hrow => by simpa using haround row (.inl hrow)
  have hafter : (k.after none).filter (·.2.id ∉ ids new) = k.after none :=
    List.filter_eq_self.2 fun row hrow => by simpa using haround row (.inr hrow)
  rw [Hole.rows_fill, Hole.rows_fill, List.filter_append, List.filter_append, hin, hbefore, hafter]
  simp [rows]

theorem rows_fill_edited {f : Node → Node} (hnodup : (ids (k.fill [n])).Nodup)
    (hid : (f n).id = n.id) (hchildren : (f n).children? = n.children?)
    (hbare : (f n).bare = f n.bare) :
    rows none (k.fill [f n]) = (rows none (k.fill [n])).map fun row =>
      (row.1, if row.2.id = n.id then f row.2 else row.2) := by
  have hself (l : List (Option String × Node)) (hl : ∀ row ∈ l, row.2.id ≠ n.id) :
      l.map (fun row => (row.1, if row.2.id = n.id then f row.2 else row.2)) = l := by
    refine (List.map_congr_left fun row hrow => ?_).trans l.map_id
    rw [if_neg (hl row hrow)]
    rfl
  have hbelow (row : Option String × Node)
      (hrow : row ∈ rows (some n.id) (n.children?.getD [])) : row.2.id ≠ n.id := by
    have hin : (ids [n]).Nodup := by
      rw [Hole.ids_fill] at hnodup
      exact (List.nodup_append.1 (List.nodup_append.1 hnodup).1).2.1
    rw [Forest.ids_cons, List.cons_append, List.nodup_cons, List.mem_append, not_or] at hin
    intro heq
    exact hin.1.1 (heq ▸ id_mem_of_mem_rows hrow)
  have haround (row : Option String × Node) (h : row ∈ k.before none ∨ row ∈ k.after none) :
      row.2.id ≠ n.id :=
    fun heq => notMem_of_around hnodup (id_mem_around h) (heq ▸ Forest.id_mem_ids_singleton n)
  simp only [Hole.rows_fill, List.map_append, Forest.rows_singleton, List.map_cons, hid,
    hchildren, hbare]
  rw [hself _ fun row hrow => haround row (.inl hrow),
    hself _ fun row hrow => haround row (.inr hrow), hself _ hbelow]
  simp

theorem rows_map_ids {f : String → String} (parent : Option String) {ns : Forest}
    (hfix : ∀ ident ∈ ids ns, f ident = ident) :
    rows (parent.map f) ns =
      (rows parent ns).map fun row => (row.1.map f, row.2.withId (f row.2.id)) := by
  induction ns using Forest.induct_cons generalizing parent with
  | nil => rfl
  | cons n rest ihc ih =>
    rw [Forest.ids_cons, List.cons_append, List.forall_mem_cons, List.forall_mem_append] at hfix
    obtain ⟨hn, hchildren, hrest⟩ := hfix
    have hinner := ihc (some n.id) hchildren
    have hself : n.bare.withId (f n.bare.id) = n.bare := by
      rw [Node.id_bare, hn, ← Node.id_bare, Node.withId_id]
    rw [Option.map_some, hn] at hinner
    rw [Forest.rows_cons, Forest.rows_cons, ih parent hrest, List.map_append, List.map_cons, hself,
      ← hinner]

theorem rows_fill_withId {f : String → String} (parent : Option String) (k : Hole)
    (hbelow : ∀ ident ∈ ids (n.children?.getD []), f ident = ident)
    (haround : ∀ ident ∈ ids (k.fill []), f ident = ident) :
    rows (parent.map f) (k.fill [n.withId (f n.id)]) =
      (rows parent (k.fill [n])).map fun row => (row.1.map f, row.2.withId (f row.2.id)) := by
  induction k generalizing parent with
  | here left right =>
    simp only [Hole.fill, List.append_nil, Forest.ids_append, List.forall_mem_append] at haround
    have hchildren := rows_map_ids (some n.id) hbelow
    have hbare : (n.withId (f n.id)).bare = n.bare.withId (f n.id) := by cases n <;> rfl
    simp only [Hole.fill, Forest.rows_append, List.map_append, rows_map_ids parent haround.1,
      rows_map_ids parent haround.2, Forest.rows_singleton, List.map_cons, Node.id_withId,
      Node.children?_withId, hbare, Node.id_bare]
    rw [← hchildren, Option.map_some]
  | within left head hole right ih =>
    simp only [Hole.fill, Forest.ids_append, Forest.ids_cons, Node.id, Node.children?,
      Option.getD_some, List.cons_append, List.forall_mem_append, List.forall_mem_cons] at haround
    obtain ⟨hleft, hhead, hhole, hright⟩ := haround
    have hinner := ih (some head.id) hhole
    rw [Option.map_some, hhead] at hinner
    simp only [Hole.fill, Forest.rows_append, rows, Node.rows, List.map_append, List.map_cons,
      rows_map_ids parent hleft, rows_map_ids parent hright, ← hinner]
    simp [Node.withId, Node.id, hhead]

end Places

section Rows

theorem rows_after_rename {new : String} (hnodup : (ids (k.fill [n])).Nodup)
    (hid : n.id = block) :
    rows none (k.fill [n.withId new]) =
      (rows none (k.fill [n])).map (Operation.rename block new).rowAfter := by
  subst hid
  let f (ident : String) : String := if ident = n.id then new else ident
  have hother {ident : String} (h : ident ≠ n.id) : f ident = ident := if_neg h
  have hself : f n.id = new := if_pos rfl
  have haround (ident : String) (h : ident ∈ ids (k.fill [])) : f ident = ident :=
    hother fun heq => notMem_of_around hnodup h (heq ▸ Forest.id_mem_ids_singleton n)
  have hbelow (ident : String) (h : ident ∈ ids (n.children?.getD [])) : f ident = ident := by
    refine hother fun heq => ?_
    rw [Hole.ids_fill] at hnodup
    have hin := (List.nodup_append.1 (List.nodup_append.1 hnodup).1).2.1
    rw [Forest.ids_cons, List.cons_append, List.nodup_cons, List.mem_append, not_or] at hin
    exact hin.1.1 (heq ▸ h)
  have hrows := rows_fill_withId none k hbelow haround
  rw [hself, Option.map_none] at hrows
  rw [hrows]
  refine List.map_congr_left fun row _ => Prod.ext rfl ?_
  change row.2.withId (f row.2.id) = if row.2.id = n.id then row.2.withId new else row.2
  split
  · rename_i heq
    rw [heq, hself]
  · rename_i hne
    rw [hother hne]
    cases row.2 <;> rfl

theorem exists_of_rename {new : String}
    (h : (Operation.rename block new).apply order ns = .ok out) :
    ∃ (k : Hole) (n : Node), ns = k.fill [n] ∧ n.id = block ∧ out = k.fill [n.withId new] := by
  obtain ⟨rfl, rfl⟩ | ⟨-, k, n, hns, hid, -, hout⟩ := rename_eq_ok h
  · have hmem : block ∈ ids out := by
      by_contra hno
      rw [← Forest.has_iff] at hno
      simp [Operation.apply, hno, fail] at h
    obtain ⟨k, n, rfl, rfl, -⟩ := Forest.exists_hole hmem
    exact ⟨k, n, rfl, rfl, by cases n <;> rfl⟩
  · exact ⟨k, n, hns, hid, hout⟩

end Rows

/-- An operation that is no move does to the forest what its kind says and nothing else: of the
nodes that it does not take out, all keep their fields, their parent, their kind of child list and
their order, but for the field that it sets. -/
theorem changes_what_it_names {o : Operation} (hcheck : Forest.check ns = [])
    (hstays : ∀ targets place, o ≠ .move targets place) (happly : o.apply order ns = .ok out) :
    o.Changes ns out ∧
      (rows none out).filter (·.2.id ∉ ids o.carried) =
        ((rows none ns).filter (·.2.id ∉ o.removed ns)).map o.rowAfter := by
  have hnodup : (ids ns).Nodup := (Forest.check_eq_nil_iff.1 hcheck).1.nodup
  have hwhole (l : List (Option String × Node)) : l.filter (·.2.id ∉ ids []) = l := by simp
  have hedit {k : Hole} {n : Node} (hns : ns = k.fill [n]) (hid : (o.edited n).id = n.id) :
      rows none (k.fill [o.edited n]) = (rows none ns).map fun row =>
        (row.1, if row.2.id = n.id then o.edited row.2 else row.2) :=
    hns ▸ rows_fill_edited (hns ▸ hnodup) hid children?_edited bare_edited
  cases o with
  | setProp block name value =>
    obtain ⟨k, head, children, rfl, rfl, -, rfl⟩ := setProp_eq_ok happly
    have hput (other : String) (h : other ≠ name) :
        (head.props.put name value).get? other = head.props.get? other :=
      Table.get?_put_of_ne h value head.props
    refine ⟨⟨k, head, children, _, standsAlone_of_fill hnodup, rfl, by simp, hput⟩, ?_⟩
    exact (hwhole _).trans ((hedit rfl rfl).trans (congrArg _ (hwhole _).symm))
  | setContent block content =>
    obtain ⟨k, n, rfl, rfl, -, rfl⟩ := setContent_eq_ok happly
    refine ⟨⟨k, n, standsAlone_of_fill hnodup, rfl⟩, ?_⟩
    exact (hwhole _).trans ((hedit rfl (by cases n <;> rfl)).trans (congrArg _ (hwhole _).symm))
  | setParameters block parameters =>
    obtain ⟨k, c, rfl, rfl, -, rfl⟩ := setParameters_eq_ok happly
    refine ⟨⟨k, c, standsAlone_of_fill hnodup, rfl⟩, ?_⟩
    exact (hwhole _).trans ((hedit rfl rfl).trans (congrArg _ (hwhole _).symm))
  | rename block new =>
    obtain ⟨k, n, rfl, rfl, rfl⟩ := exists_of_rename happly
    refine ⟨⟨k, n, standsAlone_of_fill hnodup, rfl⟩, ?_⟩
    exact (hwhole _).trans ((rows_after_rename hnodup rfl).trans (congrArg _ (hwhole _).symm))
  | insert place nodes =>
    obtain ⟨pos, hpos, hfresh, hinsert⟩ := insert_eq_ok happly
    rw [position, mapError_eq_ok_iff] at hpos
    have hputs := insertAt_puts hinsert
    have hfree : (rows none ns).filter (·.2.id ∉ ids nodes) = rows none ns := by
      refine List.filter_eq_self.2 fun row hrow => ?_
      have hold := id_mem_of_mem_rows hrow
      simpa using fun hnew => (checkFresh_eq_ok_iff.1 hfresh).2 _ hnew hold
    refine ⟨⟨pos, hpos, hputs⟩, hputs.rows_filter.trans (hfree.trans ?_)⟩
    rw [Operation.removed, ← Forest.ids_nil, hwhole]
    exact (List.map_id _).symm
  | delete block =>
    obtain ⟨k, n, rfl, rfl, hbefore, rfl⟩ := delete_eq_ok happly
    refine ⟨⟨k, n, standsAlone_of_fill hnodup, rfl⟩, (hwhole _).trans ?_⟩
    have hleft := rows_fill_filter fun _ => notMem_of_around hnodup
    rw [Operation.removed, Forest.find?_fill rfl hbefore, Option.map_some, Option.getD_some, hleft]
    exact (List.map_id _).symm
  | replace block nodes =>
    obtain ⟨k, n, rfl, rfl, hbefore, hfresh, rfl⟩ := replace_eq_ok happly
    refine ⟨⟨k, n, standsAlone_of_fill hnodup, rfl⟩, ?_⟩
    have hnew : ∀ ident ∈ ids (k.fill []), ident ∉ ids nodes :=
      fun ident h hin => (checkFresh_eq_ok_iff.1 hfresh).2 ident hin h
    have hleft := rows_fill_filter fun _ => notMem_of_around hnodup
    rw [Operation.removed, Forest.find?_fill rfl hbefore, Option.map_some, Option.getD_some, hleft,
      Operation.carried, rows_fill_filter hnew]
    exact (List.map_id _).symm
  | move targets place => exact absurd rfl (hstays targets place)

/-- A nested item with a paragraph below it gives way to two nodes, of which one takes its id; the
items beside it and the list around them stay as they are. -/
theorem changes_what_it_names_nested_replacement :
    let item (ident : String) (children : Option Forest) : Node :=
      .block ⟨ident, "list_item", [], []⟩ children
    let list (items : Forest) : Node := .block ⟨"l", "bullet_list", [], []⟩ (some items)
    let given : Forest :=
      [list [item "i" none, item "j" (some [.paragraph "p" "P"]), item "k" (some [])]]
    let nodes : Forest := [item "n" none, item "j" none]
    let changed : Forest := [list [item "i" none, item "n" none, item "j" none, item "k" (some [])]]
    let o : Operation := .replace "j" nodes
    Forest.check given = [] ∧ (∀ targets place, o ≠ .move targets place) ∧
      o.apply .written given = .ok changed ∧ o.Changes given changed ∧
      (rows none changed).filter (·.2.id ∉ ["n", "j"]) =
        (rows none given).filter (·.2.id ∉ ["j", "p"]) := by
  intro item list given nodes changed o
  have hcheck : Forest.check given = [] := by decide +kernel
  have hstays (targets : Targets) (place : Markers) : o ≠ .move targets place := nofun
  have hrun : applyFrom .written 0 given [o] = .ok changed := by decide +kernel
  obtain ⟨out, happly, hout⟩ := applyFrom_cons_eq_ok hrun
  obtain rfl : out = changed := Except.ok.inj hout
  obtain ⟨hchanges, hrows⟩ := changes_what_it_names hcheck hstays happly
  have hnew : ids o.carried = ["n", "j"] := by decide +kernel
  have hold : o.removed given = ["j", "p"] := by decide +kernel
  rw [hnew, hold] at hrows
  exact ⟨hcheck, hstays, happly, hchanges, hrows.trans (List.map_id _)⟩

end LiveDoc.Edit
