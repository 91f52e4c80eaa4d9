import LiveDoc.Decimal.Binary64
import Mathlib.Algebra.Order.Field.Power
import Mathlib.Data.Rat.Cast.Order
import Mathlib.Tactic.FieldSimp
import Mathlib.Tactic.GCongr
import Mathlib.Tactic.Linarith
import Mathlib.Tactic.NormNum
import Mathlib.Tactic.Positivity
import Mathlib.Tactic.Ring

/-!
# Rounding to double precision

Rounding as exact arithmetic of rationals: by how much it enlarges a quotient, and that it only
fails for what lies beyond the finite numbers.
-/

set_option autoImplicit false
set_option relaxedAutoImplicit false

namespace LiveDoc.Decimal

namespace Quotient

variable {x y : Quotient} {n : Nat} {e : Int}

def value (x : Quotient) : ℚ := x.numerator / x.denominator

theorem value_nonneg (x : Quotient) : 0 ≤ x.value := by
  unfold value
  positivity

theorem value_ofScaled (n : Nat) (e : Int) : (ofScaled n e).value = n * (2 : ℚ) ^ e := by
  unfold ofScaled value
  have hpow (k : Nat) : ((Nat.pow 2 k : Nat) : ℚ) = (2 : ℚ) ^ (k : Int) := by
    rw [Nat.pow_eq, Nat.cast_pow, zpow_natCast]
    norm_num
  split
  · have he : e = -(e.natAbs : Int) := by omega
    simp only [hpow]
    rw [div_eq_mul_inv, ← zpow_neg, ← he]
  · have he : (e.natAbs : Int) = e := by omega
    simp only [Nat.cast_mul, hpow, he, Nat.cast_one, div_one]

theorem denominator_ofScaled_pos (n : Nat) (e : Int) : 0 < (ofScaled n e).denominator := by
  unfold ofScaled
  split
  · exact Nat.pow_pos (by decide)
  · exact Nat.one_pos

theorem numerator_ofScaled_pos (hn : 0 < n) (e : Int) : 0 < (ofScaled n e).numerator := by
  unfold ofScaled
  split
  · exact hn
  · exact Nat.mul_pos hn (Nat.pow_pos (by decide))

theorem value_mul (x y : Quotient) : (x.mul y).value = x.value * y.value := by
  simp only [value, mul, Nat.cast_mul]
  rw [div_mul_div_comm]

theorem value_div (x y : Quotient) : (x.div y).value = x.value / y.value := by
  simp only [value, div, Nat.cast_mul]
  rw [div_div_div_eq]

theorem nearest_bounds (hd : 0 < x.denominator) :
    x.value - 1 / 2 ≤ x.nearest ∧ (x.nearest : ℚ) ≤ x.value + 1 / 2 := by
  have hnat : 2 * x.numerator ≤ 2 * (x.denominator * x.nearest) + x.denominator ∧
      2 * (x.denominator * x.nearest) ≤ 2 * x.numerator + x.denominator := by
    have hsplit := Nat.div_add_mod x.numerator x.denominator
    have hrest := Nat.mod_lt x.numerator hd
    have hodd : x.denominator * (x.numerator / x.denominator % 2) ≤ x.denominator * 1 :=
      Nat.mul_le_mul_left _ (by omega)
    unfold nearest
    simp only []
    split
    · omega
    split
    · rw [Nat.mul_add]
      omega
    · rw [Nat.mul_add]
      omega
  have hpos : (0 : ℚ) < x.denominator := by exact_mod_cast hd
  have hlow : 2 * (x.numerator : ℚ) ≤ 2 * (x.denominator * x.nearest) + x.denominator := by
    exact_mod_cast hnat.1
  have hhigh : 2 * ((x.denominator : ℚ) * x.nearest) ≤ 2 * x.numerator + x.denominator := by
    exact_mod_cast hnat.2
  rw [value, div_add' _ _ _ hpos.ne', le_div_iff₀ hpos, div_sub' hpos.ne', div_le_iff₀ hpos]
  constructor <;> linarith

private theorem pow_guess_bounds (hn : 0 < x.numerator) (hd : 0 < x.denominator) :
    (2 : ℚ) ^ ((x.numerator.log2 : Int) - x.denominator.log2 - 1) ≤ x.value ∧
      x.value < (2 : ℚ) ^ ((x.numerator.log2 : Int) - x.denominator.log2 + 1) := by
  have hpow (k : Nat) (e : Int) (he : (k : Int) = e) : ((2 ^ k : Nat) : ℚ) = (2 : ℚ) ^ e := by
    rw [← he, zpow_natCast]
    norm_num
  have hlow {n : Nat} (hn : 0 < n) : (2 : ℚ) ^ (n.log2 : Int) ≤ n := by
    rw [← hpow n.log2 _ rfl]
    exact_mod_cast Nat.log2_self_le hn.ne'
  have hhigh (n : Nat) : (n : ℚ) < (2 : ℚ) ^ ((n.log2 : Int) + 1) := by
    rw [← hpow (n.log2 + 1) _ (by push_cast; rfl)]
    exact_mod_cast Nat.lt_log2_self
  have hpos : (0 : ℚ) < x.denominator := by exact_mod_cast hd
  rw [value]
  constructor
  · rw [le_div_iff₀ hpos]
    calc (2 : ℚ) ^ ((x.numerator.log2 : Int) - x.denominator.log2 - 1) * x.denominator
        ≤ (2 : ℚ) ^ ((x.numerator.log2 : Int) - x.denominator.log2 - 1) *
            (2 : ℚ) ^ ((x.denominator.log2 : Int) + 1) := by
          gcongr
          exact (hhigh _).le
      _ = (2 : ℚ) ^ (x.numerator.log2 : Int) := by
          rw [← zpow_add₀ (by norm_num)]
          congr 1
          ring
      _ ≤ x.numerator := hlow hn
  · rw [div_lt_iff₀ hpos]
    calc (x.numerator : ℚ) < (2 : ℚ) ^ ((x.numerator.log2 : Int) + 1) := hhigh _
      _ = (2 : ℚ) ^ ((x.numerator.log2 : Int) - x.denominator.log2 + 1) *
            (2 : ℚ) ^ (x.denominator.log2 : Int) := by
          rw [← zpow_add₀ (by norm_num)]
          congr 1
          ring
      _ ≤ (2 : ℚ) ^ ((x.numerator.log2 : Int) - x.denominator.log2 + 1) * x.denominator := by
          gcongr
          exact hlow hd

theorem log2_bounds (hn : 0 < x.numerator) (hd : 0 < x.denominator) :
    (2 : ℚ) ^ x.log2 ≤ x.value ∧ x.value < (2 : ℚ) ^ (x.log2 + 1) := by
  obtain ⟨hlow, hhigh⟩ := pow_guess_bounds hn hd
  have hpos : (0 : ℚ) < x.denominator := by exact_mod_cast hd
  unfold log2
  simp only []
  generalize (x.numerator.log2 : Int) - x.denominator.log2 = guess at hlow hhigh ⊢
  have hscaled := value_ofScaled 1 guess
  have hpower := denominator_ofScaled_pos 1 guess
  rw [Nat.cast_one, one_mul] at hscaled
  generalize ofScaled 1 guess = power at hscaled hpower ⊢
  have hpower : (0 : ℚ) < power.denominator := by exact_mod_cast hpower
  have hcompare : x.numerator * power.denominator < power.numerator * x.denominator ↔
      x.value < (2 : ℚ) ^ guess := by
    rw [← hscaled, value, value, div_lt_div_iff₀ hpos hpower]
    norm_cast
  split
  · rename_i hless
    rw [hcompare] at hless
    refine ⟨hlow, ?_⟩
    rwa [sub_add_cancel]
  · rename_i hless
    rw [hcompare, not_lt] at hless
    exact ⟨hless, hhigh⟩

end Quotient

namespace Binary64

variable {x : Quotient} {y : Binary64}

def value (y : Binary64) : ℚ := y.significand * (2 : ℚ) ^ y.exponent

theorem value_magnitude (y : Binary64) : y.magnitude.value = y.value :=
  Quotient.value_ofScaled _ _

def greatest : ℚ := (2 ^ 53 - 1) * (2 : ℚ) ^ (971 : Int)

/-- A number that is not beyond the finite ones. -/
structure IsFinite (y : Binary64) : Prop where
  significand : y.significand < 2 ^ 53
  exponent : y.exponent ≤ 971

/-- The exponent that a quotient is rounded at. -/
private def gridOf (x : Quotient) : Int := max (x.log2 - 52) (-1074)

/-- The significand that a quotient is rounded to. -/
private def significandOf (x : Quotient) : Nat := (x.div (.ofScaled 1 (gridOf x))).nearest

private theorem significandOf_bounds (hn : 0 < x.numerator) (hd : 0 < x.denominator) :
    x.value / (2 : ℚ) ^ gridOf x - 1 / 2 ≤ significandOf x ∧
      (significandOf x : ℚ) ≤ x.value / (2 : ℚ) ^ gridOf x + 1 / 2 ∧ significandOf x ≤ 2 ^ 53 := by
  have hpos : 0 < (x.div (.ofScaled 1 (gridOf x))).denominator :=
    Nat.mul_pos hd (Quotient.numerator_ofScaled_pos Nat.one_pos _)
  have hnearest := Quotient.nearest_bounds hpos
  rw [Quotient.value_div, Quotient.value_ofScaled, Nat.cast_one, one_mul] at hnearest
  refine ⟨hnearest.1, hnearest.2, ?_⟩
  have hhigh : x.value < (2 : ℚ) ^ (53 : Int) * (2 : ℚ) ^ gridOf x := by
    refine (Quotient.log2_bounds hn hd).2.trans_le ?_
    rw [← zpow_add₀ (by norm_num)]
    refine zpow_le_zpow_right₀ (by norm_num) ?_
    have hgrid : x.log2 - 52 ≤ gridOf x := le_max_left _ _
    omega
  have hsmall : x.value / (2 : ℚ) ^ gridOf x < 2 ^ 53 := by
    rw [div_lt_iff₀ (by positivity)]
    exact_mod_cast hhigh
  have hlt : (significandOf x : ℚ) < 2 ^ 53 + 1 := by
    unfold significandOf
    linarith
  have hnat : significandOf x < 2 ^ 53 + 1 := by exact_mod_cast hlt
  omega

private theorem half_place_le (hn : 0 < x.numerator) (hd : 0 < x.denominator) :
    (2 : ℚ) ^ gridOf x / 2 ≤ x.value / 2 ^ 53 + (2 : ℚ) ^ (-1075 : Int) := by
  have hnonneg := x.value_nonneg
  rcases max_choice (x.log2 - 52) (-1074) with hgrid | hgrid
  · have hlow := (Quotient.log2_bounds hn hd).1
    have hpow : (2 : ℚ) ^ gridOf x / 2 = (2 : ℚ) ^ x.log2 / 2 ^ 53 := by
      rw [gridOf, hgrid, zpow_sub₀ (by norm_num)]
      norm_num
      ring
    rw [hpow]
    have hdivided : (2 : ℚ) ^ x.log2 / 2 ^ 53 ≤ x.value / 2 ^ 53 := by gcongr
    have hpos : 0 ≤ (2 : ℚ) ^ (-1075 : Int) := by positivity
    linarith
  · have hpow : (2 : ℚ) ^ gridOf x / 2 = (2 : ℚ) ^ (-1075 : Int) := by
      rw [gridOf, hgrid, show (-1074 : Int) = -1075 + 1 by norm_num, zpow_add₀ (by norm_num)]
      norm_num
    rw [hpow]
    have hpos : 0 ≤ x.value / 2 ^ 53 := by positivity
    linarith

/-- A number of at most 54 bits at an exponent, carried over if it is too long. -/
private def carried (significand : Nat) (e : Int) : Binary64 :=
  if significand = 2 ^ 53 then ⟨false, 2 ^ 52, e + 1⟩ else ⟨false, significand, e⟩

private theorem carried_of_le {significand : Nat} (h : significand ≤ 2 ^ 53) (e : Int) :
    (carried significand e).value = significand * (2 : ℚ) ^ e ∧
      (carried significand e).significand < 2 ^ 53 ∧ (carried significand e).exponent ≤ e + 1 ∧
        (significand ≠ 2 ^ 53 → (carried significand e).exponent = e) := by
  unfold carried
  split
  · rename_i hcarry
    refine ⟨?_, by norm_num, le_rfl, absurd hcarry⟩
    rw [value, hcarry, zpow_add₀ (by norm_num)]
    push_cast
    ring
  · rename_i hshort
    exact ⟨rfl, lt_of_le_of_ne h hshort, by simp, fun _ => rfl⟩

private theorem round_eq (hn : 0 < x.numerator) :
    round x = if (carried (significandOf x) (gridOf x)).exponent > 971 then none
      else some (carried (significandOf x) (gridOf x)) := by
  rw [round, if_neg hn.ne', carried]
  by_cases hcarry : significandOf x = 2 ^ 53
  · have hpow : (x.div (.ofScaled 1 (max (x.log2 - 52) (-1074)))).nearest = Nat.pow 2 53 := hcarry
    simp only [hpow, hcarry, if_true]
    rfl
  · have hpow : (x.div (.ofScaled 1 (max (x.log2 - 52) (-1074)))).nearest ≠ Nat.pow 2 53 := hcarry
    simp only [hpow, hcarry, if_false]
    rfl

/-- What a quotient is rounded to is finite, and not further from it than half the last place. -/
theorem round_bounds (hd : 0 < x.denominator) (h : round x = some y) :
    y.IsFinite ∧ x.value ≤ y.value + (x.value / 2 ^ 53 + (2 : ℚ) ^ (-1075 : Int)) ∧
      y.value ≤ x.value + (x.value / 2 ^ 53 + (2 : ℚ) ^ (-1075 : Int)) := by
  rcases Nat.eq_zero_or_pos x.numerator with hzero | hn
  · rw [round, if_pos hzero, Option.some_inj] at h
    subst h
    refine ⟨⟨by norm_num [zero], by norm_num [zero]⟩, ?_⟩
    have hvalue : (zero false).value = 0 := by simp [zero, value]
    have hx : x.value = 0 := by simp [Quotient.value, hzero]
    have hpos : 0 ≤ (2 : ℚ) ^ (-1075 : Int) := by positivity
    rw [hvalue, hx]
    constructor <;> linarith
  · obtain ⟨hlow, hhigh, hle⟩ := significandOf_bounds hn hd
    obtain ⟨hvalue, hshort, -, -⟩ := carried_of_le hle (gridOf x)
    rw [round_eq hn] at h
    split at h
    · simp at h
    · rename_i hfinite
      obtain rfl := Option.some_inj.1 h
      have hhalf := half_place_le hn hd
      have hgrid : (0 : ℚ) < (2 : ℚ) ^ gridOf x := by positivity
      rw [div_sub' hgrid.ne', div_le_iff₀ hgrid] at hlow
      rw [div_add' _ _ _ hgrid.ne', le_div_iff₀ hgrid] at hhigh
      refine ⟨⟨hshort, not_lt.1 hfinite⟩, ?_, ?_⟩
      · rw [hvalue]
        linarith
      · rw [hvalue]
        linarith

theorem exists_round (hd : 0 < x.denominator) (h : x.value ≤ greatest) :
    ∃ y, round x = some y := by
  rcases Nat.eq_zero_or_pos x.numerator with hzero | hn
  · exact ⟨_, if_pos hzero⟩
  · obtain ⟨-, hnearest, hle⟩ := significandOf_bounds hn hd
    obtain ⟨-, -, hcarry, hkept⟩ := carried_of_le hle (gridOf x)
    suffices hfinite : (carried (significandOf x) (gridOf x)).exponent ≤ 971 from
      ⟨_, (round_eq hn).trans (if_neg (by omega))⟩
    have hlog : x.log2 < 1024 := by
      have hpow : (2 : ℚ) ^ x.log2 < (2 : ℚ) ^ (1024 : Int) := by
        calc (2 : ℚ) ^ x.log2 ≤ greatest :=
            (Quotient.log2_bounds hn hd).1.trans h
          _ < 2 ^ 53 * (2 : ℚ) ^ (971 : Int) := by
            rw [greatest]
            gcongr
            norm_num
          _ = (2 : ℚ) ^ (1024 : Int) := by
            rw [show (1024 : Int) = 53 + 971 by norm_num, zpow_add₀ (by norm_num)]
            norm_num
      exact (zpow_lt_zpow_iff_right₀ (by norm_num)).1 hpow
    have hgrid : gridOf x ≤ 971 := by
      unfold gridOf
      omega
    -- Only at the last exponent could the significand be carried beyond the finite numbers.
    rcases lt_or_eq_of_le hgrid with hgrid | hgrid
    · omega
    · have hsmall : (significandOf x : ℚ) < 2 ^ 53 := by
        have hdivided : x.value / (2 : ℚ) ^ gridOf x ≤ 2 ^ 53 - 1 := by
          rw [div_le_iff₀ (by positivity), hgrid]
          exact h
        linarith
      have hnat : significandOf x < 2 ^ 53 := by exact_mod_cast hsmall
      rw [hkept hnat.ne]
      exact hgrid.le

theorem exists_round_nat {n : Nat} (hn : 1 ≤ n) (h : (n : ℚ) ≤ greatest) :
    ∃ y, round ⟨n, 1⟩ = some y ∧ (n : ℚ) / 2 ≤ y.value ∧ y.value ≤ n * (1 + 1 / 2 ^ 52) := by
  have hvalue : (⟨n, 1⟩ : Quotient).value = n := by simp [Quotient.value]
  obtain ⟨y, hy⟩ := exists_round (x := ⟨n, 1⟩) Nat.one_pos (by rwa [hvalue])
  obtain ⟨-, hlow, hhigh⟩ := round_bounds Nat.one_pos hy
  rw [hvalue] at hlow hhigh
  have hone : (1 : ℚ) ≤ n := by exact_mod_cast hn
  have htiny : (2 : ℚ) ^ (-1075 : Int) ≤ 1 / 2 ^ 53 := by
    calc (2 : ℚ) ^ (-1075 : Int) ≤ (2 : ℚ) ^ (-53 : Int) :=
          zpow_le_zpow_right₀ (by norm_num) (by norm_num)
      _ = 1 / 2 ^ 53 := by norm_num
  refine ⟨y, hy, ?_, ?_⟩
  all_goals
    generalize (2 : ℚ) ^ (-1075 : Int) = tiny at hlow hhigh htiny
    linarith

private theorem pow_ten_le {k : Nat} (hk : k ≤ 308) : (10 : ℚ) ^ k ≤ greatest := by
  -- In four parts, each of which is small enough to be worked out.
  have hpart : (10 : ℚ) ^ 77 ≤ 14170 * 2 ^ 242 := by norm_num
  calc (10 : ℚ) ^ k ≤ 10 ^ (77 * 4) := pow_le_pow_right₀ (by norm_num) hk
    _ = (10 ^ 77) ^ 4 := pow_mul _ _ _
    _ ≤ (14170 * 2 ^ 242) ^ 4 := by gcongr
    _ = 14170 ^ 4 * (2 ^ 242) ^ 4 := mul_pow _ _ _
    _ ≤ ((2 ^ 53 - 1) * 2 ^ 3) * (2 ^ 242) ^ 4 := by
      gcongr
      norm_num
    _ = greatest := by
      rw [greatest, ← pow_mul, mul_assoc, ← pow_add, ← zpow_natCast]
      rfl

private theorem pow_two_le {k : Nat} (hk : k ≤ 1023) : (2 : ℚ) ^ k ≤ greatest := by
  calc (2 : ℚ) ^ k ≤ 2 ^ (52 + 971) := pow_le_pow_right₀ (by norm_num) hk
    _ = 2 ^ 52 * 2 ^ 971 := pow_add _ _ _
    _ ≤ (2 ^ 53 - 1) * 2 ^ 971 := by
      gcongr
      norm_num
    _ = greatest := by
      rw [greatest, ← zpow_natCast]
      rfl

private theorem exists_round_pow {k : Nat} (hk : k ≤ 308) :
    ∃ y, round ⟨Nat.pow 10 k, 1⟩ = some y ∧ 1 / 2 ≤ y.value ∧ (10 : ℚ) ^ k / 2 ≤ y.value ∧
      y.value ≤ 10 ^ k * (1 + 1 / 2 ^ 52) := by
  have hcast : ((Nat.pow 10 k : Nat) : ℚ) = 10 ^ k := by simp
  obtain ⟨y, hy, hlow, hhigh⟩ := exists_round_nat (n := Nat.pow 10 k) (Nat.pow_pos (by decide))
    (hcast.trans_le (pow_ten_le hk))
  rw [hcast] at hlow hhigh
  have hone : (1 : ℚ) ≤ 10 ^ k := one_le_pow₀ (by norm_num)
  exact ⟨y, hy, by linarith, hlow, hhigh⟩

private theorem le_value_of_round_pow {k : Nat} (hk : 1 ≤ k) (h : k ≤ 308) :
    ∃ y, round ⟨Nat.pow 10 k, 1⟩ = some y ∧ 4 ≤ y.value := by
  obtain ⟨y, hy, -, hlow, -⟩ := exists_round_pow h
  have hten : (10 : ℚ) ^ 1 ≤ 10 ^ k := pow_le_pow_right₀ (by norm_num) hk
  exact ⟨y, hy, by linarith⟩

private theorem half_le_of_round_pow {k : Nat} (hk : k ≤ 308) {y : Binary64}
    (h : round ⟨Nat.pow 10 k, 1⟩ = some y) : 1 / 2 ≤ y.value := by
  obtain ⟨p, hp, hhalf, -, -⟩ := exists_round_pow hk
  rwa [Option.some_inj.1 (h.symm.trans hp)]

private theorem magnitude_denominator_pos (y : Binary64) : 0 < y.magnitude.denominator :=
  Quotient.denominator_ofScaled_pos _ _

private theorem div_denominator_pos (x : Binary64) {p : Binary64} (hp : (1 : ℚ) / 2 ≤ p.value) :
    0 < (x.magnitude.div p.magnitude).denominator := by
  refine Nat.mul_pos (magnitude_denominator_pos x) (Nat.pos_iff_ne_zero.2 fun hzero => ?_)
  have hvalue : p.value = 0 := by
    rw [← value_magnitude, Quotient.value, hzero]
    simp
  norm_num [hvalue] at hp

private theorem exists_div {x p : Binary64} (hp : (1 : ℚ) / 2 ≤ p.value)
    (h : x.value ≤ 2 ^ 65) :
    ∃ y, x.div? p = some y ∧ y.value ≤ x.value / p.value * 2 + 1 := by
  have hd := div_denominator_pos x hp
  have hvalue : (x.magnitude.div p.magnitude).value = x.value / p.value := by
    rw [Quotient.value_div, value_magnitude, value_magnitude]
  have hhalf : x.value / p.value ≤ 2 ^ 66 := by
    rw [div_le_iff₀ (by linarith)]
    linarith
  obtain ⟨y, hy⟩ := exists_round hd (by
    rw [hvalue]
    exact hhalf.trans (pow_two_le (by norm_num)))
  obtain ⟨-, -, hhigh⟩ := round_bounds hd hy
  rw [hvalue] at hhigh
  have hnonneg : 0 ≤ x.value / p.value := by
    rw [← hvalue]
    exact Quotient.value_nonneg _
  have htiny : (2 : ℚ) ^ (-1075 : Int) ≤ 1 := zpow_le_one_of_nonpos₀ (by norm_num) (by norm_num)
  refine ⟨y, hy, ?_⟩
  generalize (2 : ℚ) ^ (-1075 : Int) = tiny at hhigh htiny
  linarith

private theorem exists_mul {x p : Binary64}
    (h : x.value * p.value ≤ greatest) : ∃ y, x.mul? p = some y := by
  refine exists_round ?_ ?_
  · exact Nat.mul_pos (magnitude_denominator_pos x) (magnitude_denominator_pos p)
  · rwa [Quotient.value_mul, value_magnitude, value_magnitude]

private theorem scaleTen?_far {x : Binary64} {e : Int} {k : Nat} (hk : k = 308) (he : e < -308)
    (hx : x.significand ≠ 0) :
    x.scaleTen? e = (round ⟨Nat.pow 10 k, 1⟩).bind fun least =>
      (x.div? least).bind fun smaller => smaller.scaleTen? (e + 308) := by
  rw [scaleTen?, if_neg (by omega), if_neg (by omega), if_pos he, ← hk]
  rfl

theorem exists_scaleTen_neg {x : Binary64} {e : Int} (he : e ≤ 0) (h : x.value ≤ 2 ^ 65) :
    ∃ y, x.scaleTen? e = some y := by
  induction hsize : e.natAbs using Nat.strongRecOn generalizing x e with
  | _ size ih =>
    by_cases hfar : e < -308
    · by_cases hx : x.significand = 0
      · exact ⟨x, by rw [scaleTen?, if_pos ⟨hx, hfar⟩]⟩
      · obtain ⟨k, hk⟩ : ∃ k : Nat, k = 308 := ⟨_, rfl⟩
        obtain ⟨least, hleast, hfour⟩ := le_value_of_round_pow (k := k) (by omega) (by omega)
        obtain ⟨smaller, hsmaller, hbound⟩ := exists_div (p := least) (by linarith) h
        have hquarter : x.value / least.value ≤ 2 ^ 63 := by
          rw [div_le_iff₀ (by linarith)]
          linarith
        rw [scaleTen?_far hk hfar hx, hleast, Option.bind_some, hsmaller, Option.bind_some]
        exact ih (e + 308).natAbs (by omega) (by omega) (by linarith) rfl
    · obtain ⟨p, hp, hhalf, -, hhigh⟩ := exists_round_pow (k := e.natAbs) (by omega)
      rw [scaleTen?, if_neg (by omega), if_neg (by omega), if_neg hfar]
      simp only [hp, Option.bind_eq_bind, Option.bind_some]
      split
      · obtain ⟨y, hy, -⟩ := exists_div hhalf h
        exact ⟨y, hy⟩
      · have hzero : e.natAbs = 0 := by omega
        rw [hzero, pow_zero] at hhigh
        refine exists_mul (le_trans ?_ (pow_two_le (k := 66) (by norm_num)))
        calc x.value * p.value ≤ 2 ^ 65 * 2 := by
              gcongr
              linarith
          _ = 2 ^ 66 := by norm_num

theorem exists_scaleTen_pos {x : Binary64} {k : Nat} (hk : 0 < k ∧ k ≤ 308)
    (h : x.value * (10 ^ k * (1 + 1 / 2 ^ 52)) ≤ greatest) :
    ∃ y, x.scaleTen? k = some y := by
  obtain ⟨p, hp, -, -, hhigh⟩ := exists_round_pow hk.2
  have hx : 0 ≤ x.value := by
    unfold value
    positivity
  obtain ⟨y, hy⟩ := exists_mul ((mul_le_mul_of_nonneg_left hhigh hx).trans h)
  refine ⟨y, ?_⟩
  rw [scaleTen?, if_neg (by omega), if_neg (by omega), if_neg (by omega)]
  simp only [Int.natAbs_natCast, hp, Option.bind_eq_bind, Option.bind_some]
  rw [if_neg (by omega)]
  exact hy

theorem IsFinite.scaleTen {x y : Binary64} {e : Int} (hx : x.IsFinite)
    (h : x.scaleTen? e = some y) : y.IsFinite := by
  induction hsize : e.natAbs using Nat.strongRecOn generalizing x e with
  | _ size ih =>
    by_cases hfar : e < -308 ∧ x.significand ≠ 0
    · obtain ⟨k, hk⟩ : ∃ k : Nat, k = 308 := ⟨_, rfl⟩
      rw [scaleTen?_far hk hfar.1 hfar.2] at h
      obtain ⟨least, hleast, hsteps⟩ := Option.bind_eq_some_iff.1 h
      obtain ⟨smaller, hsmaller, hrest⟩ := Option.bind_eq_some_iff.1 hsteps
      have hhalf := half_le_of_round_pow (by omega) hleast
      have hfinite := (round_bounds (div_denominator_pos x hhalf) hsmaller).1
      exact ih (e + 308).natAbs (by omega) hfinite hrest rfl
    rw [scaleTen?] at h
    split at h
    · exact Option.some_inj.1 h ▸ hx
    split at h
    · split at h
      · exact Option.some_inj.1 h ▸ hx
      · simp at h
    split at h
    · omega
    · obtain ⟨power, hpower, hlast⟩ := Option.bind_eq_some_iff.1 h
      have hhalf := half_le_of_round_pow (by omega) hpower
      split at hlast
      · exact (round_bounds (div_denominator_pos x hhalf) hlast).1
      · have hd : 0 < (x.magnitude.mul power.magnitude).denominator :=
          Nat.mul_pos (magnitude_denominator_pos x) (magnitude_denominator_pos power)
        exact (round_bounds hd hlast).1

end Binary64

end LiveDoc.Decimal
