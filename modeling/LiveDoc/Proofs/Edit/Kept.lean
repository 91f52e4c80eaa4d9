import LiveDoc.Proofs.Edit.Frame

/-!
# Nodes that operations keep

An operation that neither takes a node out for good nor gives it another id leaves it in the forest,
wherever it stands then, and brings no second node with its id.
-/

set_option autoImplicit false
set_option relaxedAutoImplicit false

namespace LiveDoc.Edit

open Forest (Hole ids heads)

/-- An operation neither takes the node with an id out for good nor gives it another id. -/
structure Operation.Keeps (o : Operation) (ns : Forest) (block : String) : Prop where
  stays : block ∉ o.removed ns
  named : ∀ new, o = .rename block new → new = block

variable {order : SetOrder} {ns out : Forest} {o : Operation} {block : String} {k : Hole} {n : Node}

theorem mem_heads_fill_edited_of_mem {m : Node} (hm : m ∈ heads (k.fill [n])) :
    m = n.bare ∨ m ∈ heads (k.fill [o.edited n]) := by
  rw [Hole.heads_fill, heads_singleton] at hm
  rw [Hole.heads_fill, heads_singleton, children?_edited]
  simp only [List.mem_append, List.mem_cons] at hm ⊢
  obtain (hm | rfl | hm) | hm := hm
  · exact .inr (.inl (.inl hm))
  · exact .inl rfl
  · exact .inr (.inl (.inr (.inr hm)))
  · exact .inr (.inr hm)

theorem mem_heads_fill_of_notMem {m : Node} (hm : m ∈ heads (k.fill [n])) (hout : m.id ∉ ids [n])
    (new : Forest) : m ∈ heads (k.fill new) := by
  rw [Hole.heads_fill] at hm ⊢
  simp only [List.mem_append] at hm ⊢
  obtain (hm | hm) | hm := hm
  · exact .inl (.inl hm)
  · rw [← Forest.map_id_heads] at hout
    exact absurd (List.mem_map_of_mem hm) hout
  · exact .inr hm

theorem exists_mem_heads_of_apply {m : Node} (hkeeps : o.Keeps ns block)
    (h : o.apply order ns = .ok out) (hm : m ∈ heads ns) (hid : m.id = block) :
    ∃ m' ∈ heads out, m'.id = block ∧ m'.call?.isSome = m.call?.isSome := by
  have hedit {k : Hole} {n : Node} (hm : m ∈ heads (k.fill [n]))
      (hsame : (o.edited n.bare).id = n.bare.id)
      (hkind : (o.edited n.bare).call?.isSome = n.bare.call?.isSome) :
      ∃ m' ∈ heads (k.fill [o.edited n]), m'.id = block ∧ m'.call?.isSome = m.call?.isSome := by
    rcases mem_heads_fill_edited_of_mem (o := o) hm with rfl | hm
    · refine ⟨o.edited n.bare, ?_, hsame.trans hid, hkind⟩
      rw [← bare_edited, Hole.heads_fill, heads_singleton]
      simp
    · exact ⟨m, hm, hid, rfl⟩
  have hapart {k : Hole} {n : Node} (hm : m ∈ heads (k.fill [n])) (hbefore : n.id ∉ k.idsBefore)
      (hout : block ∉ ((Forest.find? n.id (k.fill [n])).map fun n => ids [n]).getD [])
      (new : Forest) : m ∈ heads (k.fill new) := by
    rw [Forest.find?_fill rfl hbefore, Option.map_some, Option.getD_some] at hout
    exact mem_heads_fill_of_notMem hm (hid ▸ hout) new
  cases o with
  | setProp other name value =>
    obtain ⟨k, head, children, rfl, -, -, rfl⟩ := setProp_eq_ok h
    exact hedit hm rfl rfl
  | setContent other content =>
    obtain ⟨k, n, rfl, -, -, rfl⟩ := setContent_eq_ok h
    exact hedit hm (by cases n <;> rfl) (by cases n <;> rfl)
  | setParameters other parameters =>
    obtain ⟨k, c, rfl, -, -, rfl⟩ := setParameters_eq_ok h
    exact hedit hm rfl rfl
  | rename old new =>
    obtain ⟨-, rfl⟩ | ⟨hnew, k, n, rfl, hn, -, rfl⟩ := rename_eq_ok h
    · exact ⟨m, hm, hid, rfl⟩
    · rcases mem_heads_fill_edited_of_mem (o := .rename old new) hm with rfl | hm
      · -- the node itself is renamed, to an id that is new
        rw [Node.id_bare, hn] at hid
        subst hid
        have hmem : new ∈ ids (k.fill [n]) := by
          rw [hkeeps.named new rfl, ← hn, Hole.ids_fill]
          simp [Forest.id_mem_ids_singleton]
        exact absurd hmem hnew
      · exact ⟨m, hm, hid, rfl⟩
  | insert place nodes =>
    obtain ⟨pos, -, -, hinsert⟩ := insert_eq_ok h
    exact ⟨m, (insertAt_perm hinsert).mem_iff.2 (List.mem_append_right _ hm), hid, rfl⟩
  | delete other =>
    obtain ⟨k, n, rfl, rfl, hbefore, rfl⟩ := delete_eq_ok h
    exact ⟨m, hapart hm hbefore hkeeps.stays [], hid, rfl⟩
  | replace other nodes =>
    obtain ⟨k, n, rfl, rfl, hbefore, -, rfl⟩ := replace_eq_ok h
    exact ⟨m, hapart hm hbefore hkeeps.stays nodes, hid, rfl⟩
  | move targets place =>
    obtain ⟨what, pos, -, -, hmove⟩ := move_eq_ok h
    exact ⟨m, (applyMove_perm hmove).mem_iff.2 hm, hid, rfl⟩

theorem exists_find?_of_apply (hkeeps : o.Keeps ns block) (h : o.apply order ns = .ok out)
    (hout : (ids out).Nodup) (hfind : Forest.find? block ns = some n) :
    ∃ n', Forest.find? block out = some n' ∧ n'.call?.isSome = n.call?.isSome := by
  have hcall (n : Node) : n.bare.call? = n.call? := by cases n <;> rfl
  obtain ⟨hn, hid⟩ := Forest.find?_eq_some hfind
  obtain ⟨m, hm, hmid, hkind⟩ := exists_mem_heads_of_apply hkeeps h
    (List.mem_map_of_mem hn) (n.id_bare.trans hid)
  obtain ⟨n', hn', rfl⟩ := List.mem_map.1 hm
  rw [Node.id_bare] at hmid
  rw [hcall, hcall] at hkind
  exact ⟨n', hmid ▸ Forest.find?_of_mem hout hn', hkind⟩

theorem fresh_of_apply (hkeeps : o.Keeps ns block) (hmem : block ∈ ids ns)
    (h : o.apply order ns = .ok out) :
    block ∉ ids o.carried ∧ ∀ old, o = .rename old block → old = block := by
  cases o with
  | insert place nodes =>
    obtain ⟨pos, -, hfresh, -⟩ := insert_eq_ok h
    refine ⟨?_, by rintro _ ⟨⟩⟩
    intro hin
    exact (checkFresh_eq_ok_iff.1 hfresh).2 block hin hmem
  | replace other nodes =>
    obtain ⟨k, n, rfl, rfl, hbefore, hfresh, -⟩ := replace_eq_ok h
    have hout := hkeeps.stays
    rw [Operation.removed, Forest.find?_fill rfl hbefore, Option.map_some, Option.getD_some] at hout
    refine ⟨?_, by rintro _ ⟨⟩⟩
    intro hin
    apply (checkFresh_eq_ok_iff.1 hfresh).2 block hin
    rw [Hole.ids_fill, List.mem_append, List.mem_append] at hmem ⊢
    rcases hmem with (hmem | hmem) | hmem
    · exact .inl (.inl hmem)
    · exact absurd hmem hout
    · exact .inr hmem
  | rename old new =>
    refine ⟨List.not_mem_nil, ?_⟩
    rintro _ ⟨⟩
    obtain ⟨rfl, -⟩ | ⟨hnew, -⟩ := rename_eq_ok h
    · rfl
    · exact absurd hmem hnew
  | _ => exact ⟨List.not_mem_nil, by rintro _ ⟨⟩⟩

end LiveDoc.Edit
