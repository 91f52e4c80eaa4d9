import LiveDoc.Proofs.IdSupply
import LiveDoc.Session.Counter
import Mathlib.Algebra.Group.Nat.Defs
import Mathlib.Data.PFun
import Mathlib.Order.Bounds.Basic

/-!
# Counters give the first free ids

A counter that looks for a free id comes to an end, since different numbers make different ids and
only finitely many of them are taken. As long as it does not run out of numbers it gives the ids of
a supply that counts without bound: each time the first free one behind where it stood, and no id
twice.
-/

set_option autoImplicit false
set_option relaxedAutoImplicit false

namespace LiveDoc

namespace IdSupply

variable {supply : IdSupply} {demands : List Demand} {k : Nat}

theorem serve_reserve (supply : IdSupply) (idents : List String) (rest : List Demand) :
    supply.serve (.reserve idents :: rest) = (supply.reserve idents).serve rest := rfl

theorem serve_next (supply : IdSupply) (rest : List Demand) :
    supply.serve (.next :: rest) =
      (supply.next.1 :: (supply.next.2.serve rest).1, (supply.next.2.serve rest).2) := rfl

@[simp] theorem seed_serve (supply : IdSupply) (demands : List Demand) :
    (supply.serve demands).2.seed = supply.seed := by
  induction demands generalizing supply with
  | nil => rfl
  | cons demand rest ih =>
    cases demand with
    | reserve idents => exact ih (supply.reserve idents)
    | next => exact ih supply.next.2

theorem reserved_serve (supply : IdSupply) (demands : List Demand) :
    (supply.serve demands).2.reserved = supply.reserved ++ reservedBy demands := by
  induction demands generalizing supply with
  | nil => exact (List.append_nil supply.reserved).symm
  | cons demand rest ih =>
    cases demand with
    | reserve idents =>
      rw [serve_reserve, ih, reserve, List.append_assoc]
      rfl
    | next => exact ih supply.next.2

theorem count_le_count_serve (supply : IdSupply) (demands : List Demand) :
    supply.count ≤ (supply.serve demands).2.count := by
  induction demands generalizing supply with
  | nil => exact Nat.le_refl _
  | cons demand rest ih =>
    cases demand with
    | reserve idents => exact ih (supply.reserve idents)
    | next => exact Nat.le_trans (Nat.le_of_lt supply.next_spec.1) (ih supply.next.2)

theorem serve_append (supply : IdSupply) (before after : List Demand) :
    supply.serve (before ++ after) =
      ((supply.serve before).1 ++ ((supply.serve before).2.serve after).1,
        ((supply.serve before).2.serve after).2) := by
  induction before generalizing supply with
  | nil => rfl
  | cons demand rest ih =>
    rw [List.cons_append]
    cases demand with
    | reserve idents => exact ih (supply.reserve idents)
    | next =>
      rw [serve_next, serve_next, ih]
      rfl

theorem take_eq_serve (supply : IdSupply) (n : Nat) :
    supply.take n = supply.serve (List.replicate n .next) := by
  induction n generalizing supply with
  | zero => rfl
  | succ n ih =>
    rw [List.replicate_succ, serve_next, ← ih]
    rfl

theorem exists_numbers (supply : IdSupply) (demands : List Demand) :
    ∃ numbers : List Nat, (supply.serve demands).1 = numbers.map (name supply.seed) ∧
      (∀ k ∈ numbers, supply.count < k) ∧ numbers.Pairwise (· < ·) := by
  induction demands generalizing supply with
  | nil => exact ⟨[], rfl, by simp, .nil⟩
  | cons demand rest ih =>
    cases demand with
    | reserve idents => exact ih (supply.reserve idents)
    | next =>
      obtain ⟨numbers, hgiven, hbehind, hascending⟩ := ih supply.next.2
      have hcount := supply.next_spec.1
      refine ⟨supply.next.2.count :: numbers, ?_, ?_, List.pairwise_cons.2 ⟨hbehind, hascending⟩⟩
      · rw [serve_next, hgiven, next_eq_name, List.map_cons, seed_next]
      · exact List.forall_mem_cons.2
          ⟨hcount, fun k hk => Nat.lt_trans hcount (hbehind k hk)⟩

theorem nodup_serve (supply : IdSupply) (demands : List Demand) :
    (supply.serve demands).1.Nodup := by
  obtain ⟨numbers, hgiven, -, hascending⟩ := supply.exists_numbers demands
  rw [hgiven]
  exact List.Nodup.map (name_injective supply.seed) (hascending.imp Nat.ne_of_lt)

theorem name_mem_of_le_count (hlt : supply.count < k) (hle : k ≤ (supply.serve demands).2.count) :
    name supply.seed k ∈ (supply.serve demands).1 ++ (supply.serve demands).2.reserved := by
  induction demands generalizing supply with
  | nil => exact absurd hlt (Nat.not_lt.2 hle)
  | cons demand rest ih =>
    cases demand with
    | reserve idents => exact @ih (supply.reserve idents) hlt hle
    | next =>
      obtain ⟨-, -, hskipped⟩ := supply.next_spec
      rw [serve_next, List.cons_append, List.mem_cons]
      rcases Nat.lt_trichotomy k supply.next.2.count with hk | rfl | hk
      · right
        rw [reserved_serve, reserved_next]
        exact List.mem_append_right _ (List.mem_append_left _ (hskipped k hlt hk))
      · exact .inl (next_eq_name supply).symm
      · exact .inr (ih hk hle)

theorem length_serve (supply : IdSupply) (demands : List Demand) :
    (supply.serve demands).1.length = demands.count .next := by
  induction demands generalizing supply with
  | nil => rfl
  | cons demand rest ih =>
    cases demand with
    | reserve idents =>
      rw [serve_reserve, ih, List.count_cons_of_ne (by simp)]
    | next => rw [serve_next, List.length_cons, ih, List.count_cons_self]

theorem steps_le (seed : String) (demands : List Demand) :
    steps seed demands ≤ demands.count .next + (reservedBy demands).length := by
  let whole := (ofSeed seed []).serve demands
  have hall : ∀ k < steps seed demands, name seed (1 + k) ∈ whole.1 ++ whole.2.reserved :=
    fun k hk => name_mem_of_le_count (by show 0 < 1 + k; omega) (by rw [Nat.add_comm]; exact hk)
  have hlength := le_length_of_names_mem hall
  rwa [List.length_append, length_serve, reserved_serve] at hlength

theorem isLeast_next (supply : IdSupply) :
    IsLeast {n | supply.count < n ∧ name supply.seed n ∉ supply.reserved}
      supply.next.2.count := by
  obtain ⟨hlt, hfree, hskipped⟩ := supply.next_spec
  refine ⟨⟨hlt, hfree⟩, fun n ⟨hn, hnfree⟩ => ?_⟩
  exact Nat.le_of_not_lt fun hbelow => hnfree (hskipped n hn hbelow)

end IdSupply

namespace Session.Counter

open IdSupply (Demand name reservedBy)

variable {c : Counter} {m : Nat}

/-- The new id of a counter, found turn after turn with no bound. It is not defined where the turns
do not come to an end. -/
def next : Counter →. String × Counter :=
  PFun.fix (PFun.lift turn)

/-- Meets demands in turn: the ids that are given, and the counter after them. It is not defined
where one of them is never met. -/
def serve (c : Counter) : List Demand → Part (List String × Counter)
  | [] => .some ([], c)
  | .reserve idents :: rest => (c.reserve idents).serve rest
  | .next :: rest => do
    let (ident, c) ← c.next
    let (others, c) ← c.serve rest
    pure (ident :: others, c)

/-- The supply that a counter stands for. -/
def supply (c : Counter) : IdSupply := ⟨c.seed, c.count.toNat, c.reserved⟩

theorem supply_injective : Function.Injective supply := by
  intro c d h
  cases c
  cases d
  simp only [supply, IdSupply.mk.injEq, UInt32.toNat_inj] at h
  simp only [mk.injEq]
  exact h

theorem toNat_count_tick (h : c.count.toNat + 1 < 2 ^ 32) :
    c.tick.count.toNat = c.count.toNat + 1 := by
  rw [tick, UInt32.toNat_add]
  exact Nat.mod_eq_of_lt h

theorem next_of_mem (h : c.tick.ident ∈ c.reserved) : c.next = c.tick.next := by
  have hturn : c.turn = .inr c.tick := if_pos h
  exact PFun.fix_fwd_eq (Part.mem_some_iff.2 hturn.symm)

theorem next_of_notMem (h : c.tick.ident ∉ c.reserved) :
    c.next = .some (c.tick.ident, c.tick) := by
  have hturn : c.turn = .inl (c.tick.ident, c.tick) := if_neg h
  exact Part.eq_some_iff.2 (PFun.fix_stop (Part.mem_some_iff.2 hturn.symm))

/-- The counting comes to an end at the first free number, if there is one among those of 32
bits. -/
theorem next_first_free (hlt : c.count.toNat < m) (hm : m < 2 ^ 32)
    (hfree : name c.seed m ∉ c.reserved)
    (htaken : ∀ k, c.count.toNat < k → k < m → name c.seed k ∈ c.reserved) :
    ∃ d, c.next = .some (name c.seed m, d) ∧ d.supply = { c.supply with count := m } := by
  -- The induction is on how far there is to go, so every step has to be known not to wrap around.
  obtain ⟨d, hd⟩ := Nat.exists_eq_add_of_lt hlt
  induction d generalizing c with
  | zero =>
    have hcount := toNat_count_tick (c := c) (by omega)
    have hident : c.tick.ident = name c.seed m := by
      rw [ident, hcount, hd]
      rfl
    refine ⟨c.tick, ?_, ?_⟩
    · rw [next_of_notMem (hident ▸ hfree), hident]
    · rw [supply, hcount, hd]
      rfl
  | succ d ih =>
    have hcount := toNat_count_tick (c := c) (by omega)
    have hident : c.tick.ident ∈ c.reserved := by
      rw [ident, hcount]
      exact htaken _ (by omega) (by omega)
    rw [next_of_mem hident]
    exact ih (c := c.tick) (by omega) hfree (fun k hk => htaken k (by omega)) (by omega)

theorem next_of_supply (h : c.supply.next.2.count < 2 ^ 32) :
    ∃ d, c.next = .some (c.supply.next.1, d) ∧ d.supply = c.supply.next.2 := by
  obtain ⟨hlt, hfree, hskipped⟩ := c.supply.next_spec
  exact next_first_free hlt h hfree hskipped

theorem serve_of_supply {demands : List Demand} (h : (c.supply.serve demands).2.count < 2 ^ 32) :
    ∃ last, c.serve demands = .some ((c.supply.serve demands).1, last) ∧
      last.supply = (c.supply.serve demands).2 := by
  induction demands generalizing c with
  | nil => exact ⟨c, rfl, rfl⟩
  | cons demand rest ih =>
    cases demand with
    | reserve idents => exact ih (c := c.reserve idents) h
    | next =>
      have hcount := c.supply.next.2.count_le_count_serve rest
      obtain ⟨d, hnext, hsupply⟩ := next_of_supply (c := c) (Nat.lt_of_le_of_lt hcount h)
      obtain ⟨last, hrest, hlast⟩ := ih (c := d) (by rw [hsupply]; exact h)
      refine ⟨last, ?_, ?_⟩
      · rw [serve, hnext, IdSupply.serve_next, ← hsupply]
        simp [hrest]
      · rw [hlast, hsupply]
        rfl

theorem serve_split {before after : List Demand}
    (h : (c.supply.serve (before ++ .next :: after)).2.count < 2 ^ 32) :
    ∃ earlier here ident there later last,
      c.serve before = .some (earlier, here) ∧ here.supply = (c.supply.serve before).2 ∧
      here.next = .some (ident, there) ∧ ident = here.supply.next.1 ∧
      there.supply = here.supply.next.2 ∧
      there.serve after = .some (later, last) ∧
      c.supply.serve (before ++ .next :: after) = (earlier ++ ident :: later, last.supply) := by
  have happend := c.supply.serve_append before (.next :: after)
  rw [happend] at h
  have hbefore := (c.supply.serve before).2.count_le_count_serve (.next :: after)
  obtain ⟨here, hhere, hsupply⟩ := serve_of_supply (Nat.lt_of_le_of_lt hbefore h)
  rw [← hsupply] at h
  have hnext := here.supply.next.2.count_le_count_serve after
  obtain ⟨there, hthere, hgone⟩ := next_of_supply (Nat.lt_of_le_of_lt hnext h)
  rw [IdSupply.serve_next, ← hgone] at h
  obtain ⟨last, hlast, hend⟩ := serve_of_supply h
  refine ⟨_, here, _, there, _, last, hhere, hsupply, hthere, rfl, hgone, hlast, ?_⟩
  rw [happend, hend, hgone, hsupply]
  rfl

/-- A counter that is told of taken ids and asked for new ones, in whatever order, comes to an end
each time, as long as fewer than 2 ^ 32 steps are counted in all, and gives the ids of a supply that
counts without bound. Each id has the least number behind the one where the counter stood whose id
has not been reserved so far, and no id is given twice. -/
theorem counting_exact {seed : String} {demands : List Demand}
    (hsteps : IdSupply.steps seed demands < 2 ^ 32) :
    ∃ idents last,
      (ofSeed seed).serve demands = .some (idents, last) ∧
      (IdSupply.ofSeed seed []).serve demands = (idents, last.supply) ∧
      idents.Nodup ∧
      ∀ before after, demands = before ++ .next :: after →
        ∃ earlier here ident there later,
          (ofSeed seed).serve before = .some (earlier, here) ∧
          here.next = .some (ident, there) ∧
          there.serve after = .some (later, last) ∧
          idents = earlier ++ ident :: later ∧
          ident = name seed there.count.toNat ∧
          IsLeast {n | here.count.toNat < n ∧ name seed n ∉ reservedBy before}
            there.count.toNat := by
  have hsupply : (ofSeed seed).supply = IdSupply.ofSeed seed [] := rfl
  obtain ⟨last, hserve, hlast⟩ := serve_of_supply (c := ofSeed seed) hsteps
  rw [hsupply] at hserve hlast
  refine ⟨_, last, hserve, by rw [hlast], IdSupply.nodup_serve _ _, ?_⟩
  rintro before after rfl
  obtain ⟨earlier, here, ident, there, later, last', hbefore, hhere, hnext, hident, hthere, hafter,
    hwhole⟩ := serve_split (c := ofSeed seed) hsteps
  rw [hsupply] at hhere hwhole
  obtain rfl : last' = last := supply_injective (by rw [hlast, hwhole])
  have hseed : here.supply.seed = seed := by rw [hhere, IdSupply.seed_serve]; rfl
  have hreserved : here.supply.reserved = reservedBy before := by
    rw [hhere, IdSupply.reserved_serve]
    rfl
  have hcount : there.count.toNat = here.supply.next.2.count := congrArg IdSupply.count hthere
  have hleast := here.supply.isLeast_next
  rw [hseed, hreserved, ← hcount] at hleast
  refine ⟨earlier, here, ident, there, later, hbefore, hnext, hafter, by rw [hwhole], ?_, hleast⟩
  rw [hident, IdSupply.next_eq_name, hseed, hcount]

/-- Ids are taken out before and behind the counter while it gives others, and it stands before a
row of them when it is asked for the second one. -/
theorem counting_exact_interleaved :
    let before : List Demand :=
      [.reserve ["d-1", "d-3", "x"], .next, .reserve ["d-5", "d-2", "d-4"]]
    IdSupply.steps "d" (before ++ [.next, .next]) < 2 ^ 32 ∧
    ∃ last, (ofSeed "d").serve (before ++ [.next, .next]) = .some (["d-2", "d-6", "d-7"], last) ∧
      ∃ here there, (ofSeed "d").serve before = .some (["d-2"], here) ∧
        here.next = .some ("d-6", there) ∧
        IsLeast {n | here.count.toNat < n ∧ name "d" n ∉ reservedBy before}
          there.count.toNat := by
  intro before
  have hsteps (demands : List Demand) (h : demands.length + (reservedBy demands).length < 2 ^ 32) :
      IdSupply.steps "d" demands < 2 ^ 32 :=
    Nat.lt_of_le_of_lt (IdSupply.steps_le "d" demands)
      (Nat.lt_of_le_of_lt (Nat.add_le_add_right List.count_le_length _) h)
  have hwhole := hsteps (before ++ [.next, .next]) (by decide)
  have hidents : ((IdSupply.ofSeed "d" []).serve (before ++ [.next, .next])).1 =
      ["d-2", "d-6", "d-7"] := by decide +kernel
  have hfirst : ((IdSupply.ofSeed "d" []).serve before).1 = ["d-2"] := by decide +kernel
  obtain ⟨idents, last, hserve, hgiven, -, hsearch⟩ := counting_exact hwhole
  obtain ⟨earlier, here, ident, there, later, hbefore, hnext, -, hsplit, -, hleast⟩ :=
    hsearch before [.next] rfl
  obtain ⟨first, stand, hstand, hfirsts, -, -⟩ := counting_exact (hsteps before (by decide))
  obtain ⟨rfl, rfl⟩ := Prod.mk.inj (Part.some_injective (hbefore.symm.trans hstand))
  obtain rfl : earlier = ["d-2"] := by rw [← hfirst, hfirsts]
  obtain rfl : idents = ["d-2", "d-6", "d-7"] := by rw [← hidents, hgiven]
  obtain ⟨rfl, -⟩ := List.cons.inj (List.cons.inj hsplit).2
  exact ⟨hwhole, last, hserve, here, there, hbefore, hnext, hleast⟩

end Session.Counter

end LiveDoc
