import LiveDoc.Node.Search
import LiveDoc.Proofs.Forest.Findings
import LiveDoc.Proofs.Forest.Paths

/-!
# Searches agree

Whatever way a forest is searched for an id, by a walk with waiting nodes, for a change or by the
indices that lead there, the same node is found, the first with this id in document order; and a
change of it leaves all else as it was.
-/

set_option autoImplicit false
set_option relaxedAutoImplicit false

namespace LiveDoc

namespace Walker

/-- A walk goes through nodes, one after the other, and is then at its end. -/
inductive Yields : Walker → List Node → Prop
  | done {w : Walker} (h : w.next? = none) : Yields w []
  | more {w after : Walker} {n : Node} {rest : List Node} (h : w.next? = some (n, after))
    (yields : Yields after rest) : Yields w (n :: rest)

theorem Yields.unique {w : Walker} {ns ms : List Node} (h : w.Yields ns) (h' : w.Yields ms) :
    ns = ms := by
  induction h generalizing ms with
  | done hend =>
    cases h' with
    | done => rfl
    | more hnext => simp [hend] at hnext
  | more hnext _ ih =>
    cases h' with
    | done hend => simp [hnext] at hend
    | more hnext' yields' =>
      obtain ⟨rfl, rfl⟩ := Prod.mk.inj (Option.some.inj (hnext.symm.trans hnext'))
      rw [ih yields']

theorem next?_reverse (n : Node) (waiting : List Node) :
    next? ⟨(n :: waiting).reverse⟩ = some (n, ⟨(n.children?.getD [] ++ waiting).reverse⟩) := by
  simp [next?]

theorem yields_reverse (waiting : List Node) :
    Yields ⟨waiting.reverse⟩ (Forest.preorder waiting) := by
  rw [← Forest.walk_eq_preorder]
  fun_induction Forest.walk waiting with
  | case1 => exact .done rfl
  | case2 n waiting ih => exact .more (next?_reverse n waiting) ih

theorem yields_start_iff {ns : Forest} {found : List Node} :
    (start ns).Yields found ↔ found = Forest.preorder ns :=
  ⟨fun h => h.unique (yields_reverse ns), fun h => h ▸ yields_reverse ns⟩

end Walker

namespace Forest

variable {ident : String} {n m : Node} {k : Hole} {ns : Forest}

/-- Of all places with an id, seen from a list of siblings further in and from an index on, the
first is the one that is located. -/
theorem firstPlacedFrom_eq (up : List Nat) (index : Nat) (ns : Forest) :
    ((placedFrom up index ns).find? (·.2.id = ident)).map Prod.fst =
      (locate? ident ns).map fun path => up ++ path.modifyHead (index + ·) := by
  induction ns using induct_cons generalizing up index with
  | nil => rfl
  | cons n rest ihc ih =>
    rw [placedFrom_cons, List.cons_append, locate?]
    by_cases hid : n.id = ident
    · simp [hid]
    · rw [List.find?_cons_of_neg (by simpa using hid), List.find?_append, if_neg hid, Option.map_or,
        ihc, ih, locateBelow?_eq]
      cases locate? ident (n.children?.getD []) with
      | some path => cases path <;> simp
      | none =>
        cases locate? ident rest with
        | none => rfl
        | some path => cases path <;> simp [Nat.add_comm, Nat.add_left_comm]

theorem locate?_eq_firstPlace? (ident : String) (ns : Forest) :
    locate? ident ns = firstPlace? ident ns := by
  rw [firstPlace?, placed, firstPlacedFrom_eq]
  cases locate? ident ns with
  | none => rfl
  | some path => cases path <;> simp

private theorem focusBelow?_eq (ident : String) (n : Node) :
    n.focusBelow? ident = (focus? ident (n.children?.getD [])).map fun found =>
      (found.1, fun new => n.mapChildren fun _ => found.2 new) := by
  match n with
  | .block _ none => rfl
  | .block _ (some _) => rfl
  | .call _ => rfl

theorem focus?_eq_none (h : ident ∉ ids ns) : focus? ident ns = none := by
  induction ns using induct_cons with
  | nil => rfl
  | cons n rest ihc ih =>
    simp only [ids_cons, List.cons_append, List.mem_cons, List.mem_append, not_or] at h
    simp [focus?, Ne.symm h.1, focusBelow?_eq, ihc h.2.1, ih h.2.2]

private theorem focus?_append {left : Forest} (h : ident ∉ ids left) (rest : Forest) :
    focus? ident (left ++ rest) =
      (focus? ident rest).map fun found => (found.1, fun new => left ++ found.2 new) := by
  induction left with
  | nil => simp
  | cons n left ih =>
    simp only [ids_cons, List.cons_append, List.mem_cons, List.mem_append, not_or] at h
    simp [focus?, Ne.symm h.1, focusBelow?_eq, focus?_eq_none h.2.1, ih h.2.2, Function.comp_def]

theorem focus?_fill (hid : n.id = ident) (hbefore : ident ∉ k.idsBefore) :
    focus? ident (k.fill [n]) = some (n, fun new => k.fill [new]) := by
  induction k with
  | here left right =>
    rw [Hole.idsBefore_here] at hbefore
    simp [Hole.fill, focus?_append hbefore, focus?, hid]
  | within left head hole right ih =>
    simp only [Hole.idsBefore_within, List.mem_append, List.mem_cons, not_or] at hbefore
    have hhead : (Node.block head (some (hole.fill [n]))).id ≠ ident := Ne.symm hbefore.2.1
    simp [Hole.fill, focus?_append hbefore.1, focus?, hhead, Node.focusBelow?, ih hbefore.2.2]

private theorem at?_cons (i : Nat) {path : List Nat} (hpath : path ≠ []) (ns : Forest) :
    at? (i :: path) ns = (ns[i]?).bind fun n => n.children?.bind (at? path) := by
  cases path with
  | nil => exact absurd rfl hpath
  | cons j path => rfl

private theorem at?_beside {left right : Forest} {i : Nat} (hi : i ≠ left.length)
    (path : List Nat) (n m : Node) :
    at? (i :: path) (left ++ m :: right) = at? (i :: path) (left ++ n :: right) := by
  have hget : (left ++ m :: right)[i]? = (left ++ n :: right)[i]? := by
    rcases Nat.lt_or_gt_of_ne hi with hlt | hgt
    · rw [List.getElem?_append_left hlt, List.getElem?_append_left hlt]
    · obtain ⟨past, hpast⟩ := Nat.exists_eq_add_of_lt hgt
      have hindex : i - left.length = past + 1 := by omega
      have hle := Nat.le_of_lt hgt
      rw [List.getElem?_append_right hle, List.getElem?_append_right hle, hindex,
        List.getElem?_cons_succ, List.getElem?_cons_succ]
  cases path with
  | nil => exact hget
  | cons j path =>
    rw [at?_cons i (List.cons_ne_nil j path), at?_cons i (List.cons_ne_nil j path), hget]

theorem bare_at?_fill {path : List Nat} (hpath : ¬ k.up ++ [k.index] <+: path) (n m : Node) :
    (at? path (k.fill [m])).map Node.bare = (at? path (k.fill [n])).map Node.bare := by
  induction k generalizing path with
  | here left right =>
    cases path with
    | nil => rfl
    | cons i path =>
      have hi : i ≠ left.length := by
        rintro rfl
        exact hpath ⟨path, rfl⟩
      simp [Hole.fill, at?_beside hi path n m]
  | within left head hole right ih =>
    cases path with
    | nil => rfl
    | cons i path =>
      by_cases hi : i = left.length
      · subst hi
        cases path with
        | nil => simp [at?, Hole.fill, Node.bare]
        | cons j path =>
          have hinner : ¬ hole.up ++ [hole.index] <+: j :: path := fun h =>
            hpath (List.cons_prefix_cons.2 ⟨rfl, h⟩)
          simpa [at?_cons _ (List.cons_ne_nil j path), Hole.fill, Node.children?] using ih hinner
      · rw [Hole.fill, Hole.fill, at?_beside hi path]

/-- Every search for an id comes to the same node, the first with this id in document order: the
walk with waiting nodes, the access for a change, and the indices, of which all but the last lead to
the list of siblings that has the node at the last. With another node in its place nothing else is
changed: every place but this one and those below it has the node that it had. -/
theorem searches_agree (ns : Forest) (ident : String) :
    (∀ found, (Walker.start ns).Yields found ↔ found = preorder ns) ∧
    walk ns = preorder ns ∧
    ns.placed.map Prod.snd = preorder ns ∧
    find? ident ns = (preorder ns).find? (·.id = ident) ∧
    locate? ident ns = (ns.placed.find? (·.2.id = ident)).map Prod.fst ∧
    (focus? ident ns).map Prod.fst = find? ident ns ∧
    (locate? ident ns).map (at? · ns) = (find? ident ns).map some ∧
    (∀ path, locate? ident ns = some path → ∃ (up : List Nat) (index : Nat) (siblings : Forest),
      path = up ++ [index] ∧ siblings? up ns = some siblings ∧
        siblings[index]? = find? ident ns) ∧
    (∀ f, modify? ident f ns = (focus? ident ns).map fun found => found.2 (f found.1)) ∧
    ∀ n put, focus? ident ns = some (n, put) → put n = ns ∧
      ∃ path, locate? ident ns = some path ∧ ∀ new, at? path (put new) = some new ∧
        ∀ other, ¬ path <+: other →
          (at? other (put new)).map Node.bare = (at? other ns).map Node.bare := by
  refine ⟨fun found => Walker.yields_start_iff, walk_eq_preorder ns, map_snd_placedFrom [] 0 ns,
    find?_eq ident ns, locate?_eq_firstPlace? ident ns, ?_⟩
  by_cases hmem : ident ∈ ids ns
  · obtain ⟨k, n, rfl, hid, hbefore⟩ := exists_hole hmem
    simp only [focus?_fill hid hbefore, find?_fill hid hbefore, locate?_fill hid hbefore,
      modify?, splice?_fill hid hbefore]
    refine ⟨rfl, ?_, ?_, fun f => rfl, ?_⟩
    · simp [at?_fill]
    · rintro path hpath
      obtain rfl := Option.some.inj hpath
      exact ⟨k.up, k.index, k.siblings [n], rfl, siblings?_fill [n] k, by
        simp [Hole.siblings_eq, Hole.index_eq]⟩
    · rintro n' put hput
      obtain ⟨rfl, rfl⟩ := Prod.mk.inj (Option.some.inj hput)
      exact ⟨rfl, _, rfl, fun new => ⟨at?_fill new k, fun other hother => bare_at?_fill hother _ _⟩⟩
  · have hfind : find? ident ns = none := by
      rw [find?_eq, List.find?_eq_none]
      intro n hn
      simpa using fun hid => hmem (mem_ids.2 ⟨n, hn, hid⟩)
    simp [focus?_eq_none hmem, hfind, locate?_eq_none hmem, modify?, splice?_eq_none hmem]

end Forest

end LiveDoc
