import LiveDoc.Proofs.Forest.Traversal

/-!
# Holes in forests

A forest with a hole in one of its lists of siblings. Finding a node by its id cuts the forest there
into a hole and what fills it, and all edits at the node fill the same hole otherwise; so what they
leave alone is the hole itself.
-/

set_option autoImplicit false
set_option relaxedAutoImplicit false

namespace LiveDoc.Forest

/-- A place between the nodes `left` and `right` of a list of siblings: of the forest itself, or
of the children of a block of it. -/
inductive Hole
  | here (left right : Forest)
  | within (left : Forest) (head : Block) (hole : Hole) (right : Forest)

namespace Hole

def fill (new : Forest) : Hole → Forest
  | here left right => left ++ new ++ right
  | within left head hole right => left ++ .block head (some (hole.fill new)) :: right

/-- The list of siblings around the hole with nodes in the hole. -/
def siblings (new : Forest) : Hole → Forest
  | here left right => left ++ new ++ right
  | within _ _ hole _ => hole.siblings new

def owner (parent : Option String) : Hole → Option String
  | here _ _ => parent
  | within _ head hole _ => hole.owner (some head.id)

def before (parent : Option String) : Hole → List (Option String × Node)
  | here left _ => rows parent left
  | within left head hole _ =>
    rows parent left ++ (parent, .block head (some [])) :: hole.before (some head.id)

def after (parent : Option String) : Hole → List (Option String × Node)
  | here _ right => rows parent right
  | within _ head hole right => hole.after (some head.id) ++ rows parent right

def idsBefore (k : Hole) : List String := (k.before none).map (·.2.id)

def idsAfter (k : Hole) : List String := (k.after none).map (·.2.id)

def push (n : Node) : Hole → Hole
  | here left right => here (n :: left) right
  | within left head hole right => within (n :: left) head hole right

@[simp] theorem fill_push (n : Node) (new : Forest) (k : Hole) :
    (k.push n).fill new = n :: k.fill new := by
  cases k <;> rfl

theorem before_push (n : Node) (parent : Option String) (k : Hole) :
    (k.push n).before parent = n.rows parent ++ k.before parent := by
  cases k <;> simp [push, before, rows]

theorem rows_fill (parent : Option String) (new : Forest) (k : Hole) :
    rows parent (k.fill new) =
      k.before parent ++ rows (k.owner parent) new ++ k.after parent := by
  induction k generalizing parent with
  | here left right => simp [fill, before, after, owner, rows_append]
  | within left head hole right ih =>
    simp [fill, before, after, owner, rows_append, rows, Node.rows, ih]

private theorem map_id_before (parent : Option String) (k : Hole) :
    (k.before parent).map (·.2.id) = k.idsBefore := by
  cases k with
  | here left right => simp [idsBefore, before, map_id_rows]
  | within left head hole right => simp [idsBefore, before, map_id_rows]

theorem ids_fill (new : Forest) (k : Hole) :
    ids (k.fill new) = k.idsBefore ++ ids new ++ k.idsAfter := by
  rw [← map_id_rows none, rows_fill]
  simp [idsBefore, idsAfter, map_id_rows]

theorem heads_fill (new : Forest) (k : Hole) :
    heads (k.fill new) =
      (k.before none).map Prod.snd ++ heads new ++ (k.after none).map Prod.snd := by
  have hsnd (parent : Option String) (ns : Forest) : (rows parent ns).map Prod.snd = heads ns :=
    map_snd_rows parent ns
  rw [← hsnd none, rows_fill]
  simp [hsnd]

theorem idsBefore_here (left right : Forest) : (here left right).idsBefore = ids left := by
  simp [idsBefore, before, map_id_rows]

theorem idsBefore_within (left : Forest) (head : Block) (hole : Hole) (right : Forest) :
    (within left head hole right).idsBefore =
      ids left ++ head.id :: hole.idsBefore := by
  rw [idsBefore, before, List.map_append, List.map_cons, map_id_before, map_id_rows]
  rfl

theorem idsAfter_here (left right : Forest) : (here left right).idsAfter = ids right := by
  simp [idsAfter, after, map_id_rows]

theorem idsAfter_within (left : Forest) (head : Block) (hole : Hole) (right : Forest) :
    (within left head hole right).idsAfter = hole.idsAfter ++ ids right := by
  have hinside (parent : Option String) : (hole.after parent).map (·.2.id) = hole.idsAfter := by
    cases hole <;> simp [idsAfter, after, map_id_rows]
  rw [idsAfter, after, List.map_append, hinside, map_id_rows]

theorem idsBefore_push (n : Node) (k : Hole) : (k.push n).idsBefore = ids [n] ++ k.idsBefore := by
  simp [idsBefore, before_push, ← map_id_rows none [n], rows]

end Hole

theorem exists_hole {ident : String} {ns : Forest} (h : ident ∈ ids ns) :
    ∃ (k : Hole) (n : Node), ns = k.fill [n] ∧ n.id = ident ∧ ident ∉ k.idsBefore := by
  induction ns using induct_cons with
  | nil => simp at h
  | cons n rest ihc ih =>
    by_cases hid : n.id = ident
    · exact ⟨.here [] rest, n, rfl, hid, by simp [Hole.idsBefore_here]⟩
    by_cases hbelow : ident ∈ ids (n.children?.getD [])
    · obtain ⟨head, children, rfl⟩ := n.exists_block fun hnil => by simp [hnil] at hbelow
      obtain ⟨k, m, rfl, hm, hbefore⟩ := ihc hbelow
      have hhead : ident ≠ head.id := Ne.symm hid
      exact ⟨.within [] head k rest, m, rfl, hm, by simp [Hole.idsBefore_within, hbefore, hhead]⟩
    · have hrest : ident ∈ ids rest := by
        simpa [ids_cons, Ne.symm hid, hbelow] using h
      obtain ⟨k, m, rfl, hm, hbefore⟩ := ih hrest
      refine ⟨k.push n, m, by simp, hm, ?_⟩
      simpa [Hole.idsBefore_push, ids_cons, hbelow, hbefore] using Ne.symm hid

theorem exists_preorder_fill (new : Forest) (k : Hole) :
    ∃ before after, preorder (k.fill new) = before ++ preorder new ++ after ∧
      before.map Node.id = k.idsBefore := by
  induction k with
  | here left right =>
    exact ⟨preorder left, preorder right, by simp [Hole.fill, preorder_append],
      (Hole.idsBefore_here left right).symm⟩
  | within left head hole right ih =>
    obtain ⟨before, after, hpre, hids⟩ := ih
    refine ⟨preorder left ++ .block head (some (hole.fill new)) :: before,
      after ++ preorder right, ?_, ?_⟩
    · simp [Hole.fill, preorder_append, preorder, Node.preorder, hpre]
    · simp [Hole.idsBefore_within, hids, ids, Node.id]

theorem find?_fill {ident : String} {n : Node} {k : Hole} (hid : n.id = ident)
    (hbefore : ident ∉ k.idsBefore) : find? ident (k.fill [n]) = some n := by
  obtain ⟨before, after, hpre, hids⟩ := exists_preorder_fill [n] k
  have hnone : before.find? (·.id = ident) = none := by
    rw [← hids] at hbefore
    simpa [List.find?_eq_none] using hbefore
  simp [find?_eq, hpre, preorder_cons, hnone, hid]

private theorem spliceBelow?_eq (ident : String) (f : Node → List Node) (n : Node) :
    n.spliceBelow? ident f =
      (splice? ident f (n.children?.getD [])).map
        fun changed => n.mapChildren fun _ => changed := by
  match n with
  | .block _ none => rfl
  | .block _ (some _) => rfl
  | .call _ => rfl

theorem splice?_eq_none {ident : String} {ns : Forest} (h : ident ∉ ids ns)
    (f : Node → List Node) : splice? ident f ns = none := by
  induction ns using induct_cons with
  | nil => rfl
  | cons n rest ihc ih =>
    simp only [ids_cons, List.cons_append, List.mem_cons, List.mem_append, not_or] at h
    simp [splice?, Ne.symm h.1, spliceBelow?_eq, ihc h.2.1, ih h.2.2]

theorem splice?_append {ident : String} {left : Forest} (h : ident ∉ ids left)
    (f : Node → List Node) (rest : Forest) :
    splice? ident f (left ++ rest) = (splice? ident f rest).map (left ++ ·) := by
  induction left with
  | nil => simp
  | cons n left ih =>
    simp only [ids_cons, List.cons_append, List.mem_cons, List.mem_append, not_or] at h
    simp [splice?, Ne.symm h.1, spliceBelow?_eq, splice?_eq_none h.2.1, ih h.2.2,
      Function.comp_def]

theorem splice?_fill {ident : String} {n : Node} {k : Hole} (hid : n.id = ident)
    (hbefore : ident ∉ k.idsBefore) (f : Node → List Node) :
    splice? ident f (k.fill [n]) = some (k.fill (f n)) := by
  induction k with
  | here left right =>
    rw [Hole.idsBefore_here] at hbefore
    simp [Hole.fill, splice?_append hbefore, splice?, hid]
  | within left head hole right ih =>
    simp only [Hole.idsBefore_within, List.mem_append, List.mem_cons, not_or] at hbefore
    have hhead : (Node.block head (some (hole.fill [n]))).id ≠ ident := Ne.symm hbefore.2.1
    simp [Hole.fill, splice?_append hbefore.1, splice?, hhead, Node.spliceBelow?,
      ih hbefore.2.2]

theorem splice?_eq_some {ident : String} {f : Node → List Node} {ns out : Forest}
    (h : splice? ident f ns = some out) :
    ∃ (k : Hole) (n : Node), ns = k.fill [n] ∧ n.id = ident ∧ ident ∉ k.idsBefore ∧
      out = k.fill (f n) := by
  have hmem : ident ∈ ids ns := by
    by_contra hno
    simp [splice?_eq_none hno] at h
  obtain ⟨k, n, rfl, hid, hbefore⟩ := exists_hole hmem
  rw [splice?_fill hid hbefore, Option.some_inj] at h
  exact ⟨k, n, rfl, hid, hbefore, h.symm⟩

theorem remove?_eq_some {ident : String} {ns left : Forest} {n : Node}
    (h : remove? ident ns = some (n, left)) :
    ∃ k : Hole, ns = k.fill [n] ∧ n.id = ident ∧ ident ∉ k.idsBefore ∧ left = k.fill [] := by
  simp only [remove?, Option.bind_eq_bind, Option.bind_eq_some_iff, Option.some_inj,
    Prod.mk.injEq] at h
  obtain ⟨m, hfind, rest, hsplice, rfl, rfl⟩ := h
  obtain ⟨k, n, rfl, hid, hbefore, rfl⟩ := splice?_eq_some hsplice
  rw [find?_fill hid hbefore, Option.some_inj] at hfind
  exact ⟨k, hfind ▸ rfl, hfind ▸ hid, hbefore, rfl⟩

end LiveDoc.Forest
