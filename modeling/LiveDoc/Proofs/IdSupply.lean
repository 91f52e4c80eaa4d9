import LiveDoc.IdSupply
import Mathlib.Data.List.Nodup

/-!
# Supplies of ids give new ids

Different numbers make different ids. So among one number more than there are reserved ids one is
free, and the supply goes on to the first free one.
-/

set_option autoImplicit false
set_option relaxedAutoImplicit false

namespace LiveDoc.IdSupply

variable {seed : String} {reserved : List String}

theorem name_injective (seed : String) : Function.Injective (name seed) := by
  intro m n h
  have htext : toString m = toString n := (String.append_right_inj (seed ++ "-")).1 h
  rw [Nat.toString_eq_ofList_toDigits, Nat.toString_eq_ofList_toDigits, String.ofList_inj] at htext
  rw [← Nat.ofDigitChars_ten_toDigits (n := m), htext, Nat.ofDigitChars_ten_toDigits]

/-- The search ends at a number from its first one on, behind nothing but reserved ids; it gives up
only after all its tries. -/
private theorem firstFree_bounds (tries n : Nat) :
    ∃ skipped ≤ tries, firstFree seed reserved tries n = n + skipped ∧
      (∀ k < skipped, name seed (n + k) ∈ reserved) ∧
      (name seed (n + skipped) ∈ reserved → skipped = tries) := by
  induction tries generalizing n with
  | zero => exact ⟨0, Nat.le_refl 0, rfl, by simp, fun _ => rfl⟩
  | succ tries ih =>
    rw [firstFree]
    split
    · rename_i htaken
      obtain ⟨skipped, hle, heq, htakenRest, hlast⟩ := ih (n + 1)
      refine ⟨skipped + 1, by omega, by omega, fun k hk => ?_, fun hmem => ?_⟩
      · cases k with
        | zero => exact htaken
        | succ k =>
          have hnext := htakenRest k (by omega)
          rwa [Nat.add_right_comm] at hnext
      · rw [hlast (by rwa [Nat.add_right_comm])]
    · rename_i hfree
      exact ⟨0, by omega, rfl, by simp, fun hmem => absurd hmem hfree⟩

theorem le_length_of_names_mem {idents : List String} {n count : Nat}
    (h : ∀ k < count, name seed (n + k) ∈ idents) : count ≤ idents.length := by
  let row := (List.range count).map fun k => name seed (n + k)
  have hnodup : row.Nodup := by
    refine List.Nodup.map (fun k l hname => ?_) List.nodup_range
    exact Nat.add_left_cancel (name_injective seed hname)
  have hsubset : row ⊆ idents := by
    intro ident hident
    obtain ⟨k, hk, rfl⟩ := List.mem_map.1 hident
    exact h k (List.mem_range.1 hk)
  have hlength := hnodup.length_le_of_subset hsubset
  rwa [List.length_map, List.length_range] at hlength

theorem firstFree_spec (n : Nat) :
    let found := firstFree seed reserved reserved.length n
    n ≤ found ∧ name seed found ∉ reserved ∧
      ∀ k, n ≤ k → k < found → name seed k ∈ reserved := by
  obtain ⟨skipped, hle, heq, htaken, hlast⟩ :=
    @firstFree_bounds seed reserved reserved.length n
  rw [heq]
  refine ⟨by omega, fun hmem => ?_, fun k hk hlt => ?_⟩
  · have hskipped := hlast hmem
    have hall : ∀ k < skipped + 1, name seed (n + k) ∈ reserved := by
      intro k hk
      rcases Nat.lt_or_eq_of_le (Nat.lt_succ_iff.1 hk) with hk | rfl
      · exact htaken k hk
      · exact hmem
    have hlength := le_length_of_names_mem hall
    omega
  · obtain ⟨d, rfl⟩ := Nat.exists_eq_add_of_le hk
    exact htaken d (by omega)

variable {supply : IdSupply}

@[simp] theorem seed_next (supply : IdSupply) : supply.next.2.seed = supply.seed := rfl

@[simp] theorem reserved_next (supply : IdSupply) : supply.next.2.reserved = supply.reserved := rfl

theorem next_eq_name (supply : IdSupply) :
    supply.next.1 = name supply.seed supply.next.2.count := rfl

/-- The supply goes on to the first number after its last one of which the id is not reserved. -/
theorem next_spec (supply : IdSupply) :
    supply.count < supply.next.2.count ∧ supply.next.1 ∉ supply.reserved ∧
      ∀ k, supply.count < k → k < supply.next.2.count →
        name supply.seed k ∈ supply.reserved :=
  firstFree_spec (supply.count + 1)

end LiveDoc.IdSupply
