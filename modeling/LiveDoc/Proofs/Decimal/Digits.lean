import LiveDoc.Decimal.Shortest
import Mathlib.Algebra.Order.Field.Power
import Mathlib.Data.Rat.Cast.Order
import Mathlib.Tactic.GCongr
import Mathlib.Tactic.NormNum
import Mathlib.Tactic.Positivity
import Mathlib.Tactic.Ring

/-!
# Digits

The size of a number by its decimal digits, and the number that digits at a place stand for.
-/

set_option autoImplicit false
set_option relaxedAutoImplicit false

namespace LiveDoc.Decimal

open Nat (toDigits ofDigitChars)

structure Digits.Proper (d : Digits) : Prop where
  digits : ∀ c ∈ d.digits, c.isDigit = true
  lead : ∃ first rest, d.digits = first :: rest ∧ first ≠ '0'

def Digits.value (d : Digits) : ℚ :=
  ofDigitChars 10 d.digits 0 * (10 : ℚ) ^ (d.point - d.digits.length)

theorem toDigits_eq_cons {n : Nat} (hn : 0 < n) :
    ∃ first rest, toDigits 10 n = first :: rest ∧ first ≠ '0' := by
  induction n using Nat.strongRecOn with
  | _ n ih =>
    rw [Nat.toDigits_eq_if (by omega)]
    split
    · rename_i hlt
      refine ⟨n.digitChar, [], rfl, fun hzero => ?_⟩
      have hdigit := Nat.toNat_digitChar_of_lt_ten hlt
      rw [hzero] at hdigit
      have hcode : '0'.toNat = 48 := rfl
      omega
    · obtain ⟨first, rest, hcons, hne⟩ := ih (n / 10) (by omega) (by omega)
      exact ⟨first, rest ++ [(n % 10).digitChar], by rw [hcons]; rfl, hne⟩

theorem digit_le {c : Char} (hc : c.isDigit = true) : c.toNat - '0'.toNat ≤ 9 := by
  simp only [Char.isDigit, ge_iff_le, Bool.and_eq_true, decide_eq_true_eq,
    UInt32.le_iff_toNat_le] at hc
  have hnat : c.toNat = c.val.toNat := rfl
  have hcodes : '0'.toNat = 48 ∧ '9'.val.toNat = 57 := ⟨rfl, rfl⟩
  omega

theorem one_le_digit {c : Char} (hc : c.isDigit = true) (hne : c ≠ '0') :
    1 ≤ c.toNat - '0'.toNat := by
  have hcode : '0'.toNat = 48 := rfl
  have hne : c.toNat ≠ 48 := fun h => hne (Char.toNat_inj.1 h)
  simp only [Char.isDigit, ge_iff_le, Bool.and_eq_true, decide_eq_true_eq,
    UInt32.le_iff_toNat_le] at hc
  have hnat : c.toNat = c.val.toNat ∧ '0'.val.toNat = 48 := ⟨rfl, rfl⟩
  omega

theorem ofDigitChars_lt {cs : List Char} (hcs : ∀ c ∈ cs, c.isDigit = true) (n : Nat) :
    ofDigitChars 10 cs n < (n + 1) * 10 ^ cs.length := by
  induction cs generalizing n with
  | nil => simp
  | cons c cs ih =>
    rw [List.forall_mem_cons] at hcs
    have hdigit := digit_le hcs.1
    rw [Nat.ofDigitChars_cons, List.length_cons]
    calc ofDigitChars 10 cs (10 * n + (c.toNat - '0'.toNat))
        < (10 * n + (c.toNat - '0'.toNat) + 1) * 10 ^ cs.length := ih hcs.2 _
      _ ≤ ((n + 1) * 10) * 10 ^ cs.length := Nat.mul_le_mul_right _ (by omega)
      _ = (n + 1) * 10 ^ (cs.length + 1) := by ring

theorem le_ofDigitChars (cs : List Char) (n : Nat) :
    n * 10 ^ cs.length ≤ ofDigitChars 10 cs n := by
  rw [Nat.ofDigitChars_eq_ofDigitChars_zero, mul_comm]
  exact Nat.le_add_right _ _

theorem Digits.Proper.pow_le_value {d : Digits} (h : d.Proper) :
    (10 : ℚ) ^ (d.point - 1) ≤ d.value := by
  obtain ⟨first, rest, hd, hfirst⟩ := h.lead
  have hone := one_le_digit (h.digits first (hd ▸ List.mem_cons_self)) hfirst
  have hle : 10 ^ rest.length ≤ ofDigitChars 10 d.digits 0 := by
    rw [hd, Nat.ofDigitChars_cons, mul_zero, zero_add]
    calc 10 ^ rest.length ≤ (first.toNat - '0'.toNat) * 10 ^ rest.length :=
          Nat.le_mul_of_pos_left _ hone
      _ ≤ _ := le_ofDigitChars _ _
  have hcast : (10 : ℚ) ^ (rest.length : Int) ≤ ofDigitChars 10 d.digits 0 := by
    rw [zpow_natCast]
    exact_mod_cast hle
  have hlength : (d.digits.length : Int) = rest.length + 1 := by simp [hd]
  calc (10 : ℚ) ^ (d.point - 1) =
        (10 : ℚ) ^ (rest.length : Int) * (10 : ℚ) ^ (d.point - d.digits.length) := by
        rw [← zpow_add₀ (by norm_num), hlength]
        congr 1
        ring
    _ ≤ d.value := by
        rw [Digits.value]
        gcongr

private theorem exists_stripZeros (ds : List Char) :
    ∃ count, ds = Shortest.stripZeros ds ++ List.replicate count '0' := by
  have hsplit := List.takeWhile_append_dropWhile (p := (· == '0')) (l := ds.reverse)
  have hzeros : ds.reverse.takeWhile (· == '0') =
      List.replicate (ds.reverse.takeWhile (· == '0')).length '0' :=
    List.eq_replicate_of_mem fun c hc => by
      simpa using List.all_eq_true.1 List.all_takeWhile c hc
  refine ⟨(ds.reverse.takeWhile (· == '0')).length, ?_⟩
  calc ds = (ds.reverse.takeWhile (· == '0') ++ ds.reverse.dropWhile (· == '0')).reverse := by
        rw [hsplit, List.reverse_reverse]
    _ = Shortest.stripZeros ds ++ (ds.reverse.takeWhile (· == '0')).reverse := by
        rw [List.reverse_append, Shortest.stripZeros]
    _ = _ := by rw [hzeros, List.reverse_replicate, List.length_replicate]

theorem Digits.stripped {n : Nat} (hn : 0 < n) (point : Int) :
    (Digits.mk (Shortest.stripZeros (toDigits 10 n)) point).Proper ∧
      (Digits.mk (Shortest.stripZeros (toDigits 10 n)) point).value =
        n * (10 : ℚ) ^ (point - (toDigits 10 n).length) := by
  obtain ⟨zeros, hzeros⟩ := exists_stripZeros (toDigits 10 n)
  obtain ⟨first, rest, hcons, hfirst⟩ := toDigits_eq_cons hn
  generalize hstripped : Shortest.stripZeros (toDigits 10 n) = ds at hzeros
  have hdigits : ∀ c ∈ ds, c.isDigit = true := fun c hc =>
    Nat.isDigit_of_mem_toDigits (by omega) (by omega) (hzeros ▸ List.mem_append_left _ hc)
  have hvalue : n = 10 ^ zeros * ofDigitChars 10 ds 0 := by
    calc n = ofDigitChars 10 (toDigits 10 n) 0 := Nat.ofDigitChars_ten_toDigits.symm
      _ = 10 ^ zeros * ofDigitChars 10 ds 0 := by
        rw [hzeros, Nat.ofDigitChars_append, Nat.ofDigitChars_replicate_zero]
  refine ⟨⟨hdigits, ?_⟩, ?_⟩
  · cases ds with
    | nil =>
      -- Zeros alone would be the digits of no number but zero.
      exact absurd hvalue (by simp [hn.ne'])
    | cons c ds =>
      rw [hzeros, List.cons_append] at hcons
      exact ⟨c, ds, rfl, (List.cons.inj hcons).1 ▸ hfirst⟩
  · have hlength : ((toDigits 10 n).length : Int) = ds.length + zeros := by
      rw [hzeros]
      simp
    have hcast : (n : ℚ) = (10 : ℚ) ^ (zeros : Int) * ofDigitChars 10 ds 0 := by
      rw [zpow_natCast]
      exact_mod_cast hvalue
    have hplace : point - ds.length = zeros + (point - (toDigits 10 n).length) := by omega
    rw [Digits.value, hplace, zpow_add₀ (by norm_num), hcast]
    ring

end LiveDoc.Decimal
