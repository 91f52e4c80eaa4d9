import LiveDoc.Node.Check
import LiveDoc.Proofs.Forest.Hole

/-!
# What the check of a forest demands

A forest passes if no id is blank, none stands twice and the functions of all calls have proper
names. The first two demands leave findings of their own, so a forest that meets them can only fail
for the name of a function.
-/

set_option autoImplicit false
set_option relaxedAutoImplicit false

namespace LiveDoc

/-- The function of a call has a proper name; for a block there is no demand. -/
def Node.HasFunctionName (n : Node) : Prop :=
  ∀ c, n.call? = some c → isFunctionName c.function = true

namespace Forest

/-- No id is blank and none stands twice. -/
structure DistinctIds (ns : Forest) : Prop where
  notBlank : ∀ ident ∈ ids ns, Text.isAllBlank ident = false
  nodup : (ids ns).Nodup

def FunctionsNamed (ns : Forest) : Prop := ∀ n ∈ heads ns, n.HasFunctionName

theorem placedFrom_cons (up : List Nat) (index : Nat) (n : Node) (rest : Forest) :
    placedFrom up index (n :: rest) =
      (up ++ [index], n) :: placedFrom (up ++ [index]) 0 (n.children?.getD []) ++
        placedFrom up (index + 1) rest := by
  match n with
  | .block _ none => rfl
  | .block _ (some _) => rfl
  | .call _ => rfl

theorem map_snd_placedFrom (path : List Nat) (index : Nat) (ns : Forest) :
    (placedFrom path index ns).map Prod.snd = preorder ns := by
  induction ns using induct_cons generalizing path index with
  | nil => rfl
  | cons n rest ihc ih => simp [placedFrom_cons, preorder_cons, ihc, ih]

section Findings

variable {seen : List (String × List Nat)} {path : List Nat} {n : Node}

theorem checkId_eq_nil_iff {ident : String} :
    checkId seen path ident = [] ↔
      Text.isAllBlank ident = false ∧ ident ∉ seen.map Prod.fst := by
  unfold checkId
  split
  · simp_all
  · rename_i hblank
    have hseen : ident ∈ seen.map Prod.fst ↔ (seen.find? (·.1 = ident)).isSome := by
      simp [List.find?_isSome]
    cases hfind : seen.find? (·.1 = ident) <;> simp_all

theorem checkFunction_eq_nil_iff : checkFunction path n = [] ↔ n.HasFunctionName := by
  cases n <;> simp [checkFunction, Node.HasFunctionName, Node.call?]

theorem kind_of_mem_checkFunction {f : Finding} (h : f ∈ checkFunction path n) :
    f.kind = .invalidFunctionName := by
  unfold checkFunction at h
  split at h
  · split at h
    · simp at h
    · simp only [List.mem_singleton] at h
      exact h ▸ rfl
  · simp at h

/-- Nodes with ids that are neither blank nor seen before leave findings about functions only. -/
theorem checkFrom_of_distinct {l : List (List Nat × Node)}
    (hblank : ∀ p ∈ l, Text.isAllBlank p.2.id = false)
    (hnodup : (seen.map Prod.fst ++ l.map (·.2.id)).Nodup) :
    (∀ f ∈ checkFrom seen l, f.kind = .invalidFunctionName) ∧
      (checkFrom seen l = [] ↔ ∀ p ∈ l, p.2.HasFunctionName) := by
  induction l generalizing seen with
  | nil => simp [checkFrom]
  | cons p rest ih =>
    obtain ⟨path, n⟩ := p
    have hid : checkId seen path n.id = [] := by
      rw [checkId_eq_nil_iff]
      refine ⟨hblank _ List.mem_cons_self, fun hmem => ?_⟩
      exact (List.nodup_append.1 hnodup).2.2 _ hmem _ (by simp) rfl
    have hrest := @ih (seen ++ [(n.id, path)])
      (fun q hq => hblank q (List.mem_cons_of_mem _ hq)) (by simpa using hnodup)
    simp only [checkFrom, hid, List.nil_append]
    constructor
    · intro f hf
      rcases List.mem_append.1 hf with hf | hf
      · exact kind_of_mem_checkFunction hf
      · exact hrest.1 f hf
    · simp [checkFunction_eq_nil_iff, hrest.2]

theorem distinct_of_checkFrom_eq_nil {l : List (List Nat × Node)} (h : checkFrom seen l = []) :
    (∀ p ∈ l, Text.isAllBlank p.2.id = false) ∧
      (l.map (·.2.id)).Nodup ∧ ∀ p ∈ l, p.2.id ∉ seen.map Prod.fst := by
  induction l generalizing seen with
  | nil => simp
  | cons p rest ih =>
    obtain ⟨path, n⟩ := p
    simp only [checkFrom, List.append_eq_nil_iff, checkId_eq_nil_iff] at h
    obtain ⟨⟨⟨hblank, hnew⟩, -⟩, hrest⟩ := h
    obtain ⟨hblanks, hnodup, hseen⟩ := ih hrest
    simp only [List.map_append, List.map_cons, List.map_nil, List.mem_append, List.mem_singleton,
      not_or] at hseen
    refine ⟨by simpa [hblank] using fun a b hb => hblanks _ hb, ?_, ?_⟩
    · simp only [List.map_cons, List.nodup_cons, List.mem_map, not_exists, not_and]
      exact ⟨fun q hq => (hseen q hq).2, hnodup⟩
    · intro q hq
      rcases List.mem_cons.1 hq with rfl | hq
      · exact hnew
      · exact (hseen q hq).1

private theorem repeated_of_mem_checkFrom {l : List (List Nat × Node)} {f : Finding}
    (hf : f ∈ checkFrom seen l) (hkind : f.kind = .duplicateId) :
    ∃ p ∈ l, f.place = placeText p.1 ∧
      (∃ first, f.message =
        "Duplicate node id '" ++ p.2.id ++ "' (first used at " ++ first ++ ")") ∧
      2 ≤ (seen.map Prod.fst ++ l.map (·.2.id)).count p.2.id := by
  induction l generalizing seen with
  | nil => simp [checkFrom] at hf
  | cons p rest ih =>
    obtain ⟨path, n⟩ := p
    rw [checkFrom, List.mem_append, List.mem_append] at hf
    rcases hf with (hf | hf) | hf
    · unfold checkId at hf
      split at hf
      · obtain rfl := List.mem_singleton.1 hf
        simp at hkind
      split at hf
      · rename_i first hfirst
        obtain rfl := List.mem_singleton.1 hf
        have hseen : n.id ∈ seen.map Prod.fst :=
          List.mem_map.2
            ⟨_, List.mem_of_find?_eq_some hfirst, by simpa using List.find?_some hfirst⟩
        refine ⟨(path, n), List.mem_cons_self, rfl, ⟨_, rfl⟩, ?_⟩
        rw [List.count_append, List.map_cons, List.count_cons_self]
        have hbefore : 0 < (seen.map Prod.fst).count (path, n).2.id := List.count_pos_iff.2 hseen
        omega
      · simp at hf
    · simp [kind_of_mem_checkFunction hf] at hkind
    · obtain ⟨q, hq, hplace, hmessage, hcount⟩ := ih hf
      exact ⟨q, List.mem_cons_of_mem _ hq, hplace, hmessage, by simpa using hcount⟩

end Findings

private theorem forall_mem_placed_iff {ns : Forest} {p : Node → Prop} :
    (∀ q ∈ ns.placed, p q.2) ↔ ∀ n ∈ preorder ns, p n := by
  rw [← map_snd_placedFrom [] 0 ns, ← placed, List.forall_mem_map]

private theorem functionsNamed_iff {ns : Forest} :
    FunctionsNamed ns ↔ ∀ n ∈ preorder ns, n.HasFunctionName := by
  unfold FunctionsNamed heads
  rw [List.forall_mem_map]
  refine forall₂_congr fun n _ => ?_
  cases n <;> rfl

theorem functionsNamed_iff_calls {ns : Forest} :
    FunctionsNamed ns ↔ ∀ c ∈ calls ns, isFunctionName c.function = true := by
  simp only [functionsNamed_iff, Node.HasFunctionName, calls, List.mem_filterMap]
  exact ⟨fun h c ⟨n, hn, hc⟩ => h n hn c hc, fun h n hn c hc => h c ⟨n, hn, hc⟩⟩

private theorem map_id_placed (ns : Forest) : ns.placed.map (·.2.id) = ids ns := by
  rw [ids, ← map_snd_placedFrom [] 0 ns, ← placed, List.map_map]
  rfl

theorem repeated_of_mem_check {ns : Forest} {f : Finding} (hf : f ∈ check ns)
    (hkind : f.kind = .duplicateId) :
    ∃ path n, (path, n) ∈ ns.placed ∧ f.place = placeText path ∧
      (∃ first, f.message = "Duplicate node id '" ++ n.id ++ "' (first used at " ++ first ++ ")") ∧
      2 ≤ (ids ns).count n.id := by
  obtain ⟨⟨path, n⟩, hmem, hplace, hmessage, hcount⟩ := repeated_of_mem_checkFrom hf hkind
  rw [List.map_nil, List.nil_append, map_id_placed] at hcount
  exact ⟨path, n, hmem, hplace, hmessage, hcount⟩

theorem check_of_distinctIds {ns : Forest} (h : DistinctIds ns) :
    (∀ f ∈ check ns, f.kind = .invalidFunctionName) ∧ (check ns = [] ↔ FunctionsNamed ns) := by
  rw [functionsNamed_iff, ← forall_mem_placed_iff]
  have hseen : (([] : List (String × List Nat)).map Prod.fst ++ ns.placed.map (·.2.id)).Nodup := by
    simpa [map_id_placed] using h.nodup
  refine checkFrom_of_distinct ?_ hseen
  rw [forall_mem_placed_iff (p := fun n => Text.isAllBlank n.id = false)]
  exact fun n hn => h.notBlank _ (mem_ids.2 ⟨n, hn, rfl⟩)

theorem check_eq_nil_iff {ns : Forest} :
    check ns = [] ↔ DistinctIds ns ∧ FunctionsNamed ns := by
  constructor
  · intro h
    obtain ⟨hblank, hnodup, -⟩ := distinct_of_checkFrom_eq_nil h
    have hdistinct : DistinctIds ns := by
      refine ⟨fun ident hident => ?_, by rwa [map_id_placed] at hnodup⟩
      obtain ⟨n, hn, rfl⟩ := mem_ids.1 hident
      exact forall_mem_placed_iff (p := fun n => Text.isAllBlank n.id = false).1 hblank n hn
    exact ⟨hdistinct, (check_of_distinctIds hdistinct).2.1 h⟩
  · rintro ⟨hdistinct, hnamed⟩
    exact (check_of_distinctIds hdistinct).2.2 hnamed

section Perm

variable {ns ms : Forest}

theorem DistinctIds.of_perm (h : DistinctIds ns) (hperm : (ids ms).Perm (ids ns)) :
    DistinctIds ms :=
  ⟨fun ident hident => h.notBlank ident (hperm.mem_iff.1 hident), hperm.nodup_iff.2 h.nodup⟩

theorem FunctionsNamed.of_perm (h : FunctionsNamed ns) (hperm : (heads ms).Perm (heads ns)) :
    FunctionsNamed ms :=
  fun n hn => h n (hperm.mem_iff.1 hn)

theorem ids_perm_of_heads_perm (h : (heads ms).Perm (heads ns)) : (ids ms).Perm (ids ns) := by
  simpa [map_id_heads] using h.map Node.id

end Perm

end Forest

end LiveDoc
