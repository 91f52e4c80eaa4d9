import LiveDoc.Proofs.Decimal.Digits
import LiveDoc.Proofs.Decimal.Rounding

/-!
# How large shortest decimals are

The shortest decimal of a number is at most half a unit of its last place larger.
-/

set_option autoImplicit false
set_option relaxedAutoImplicit false

namespace LiveDoc.Decimal

open Nat (toDigits)

namespace Shortest

variable {x : Binary64} {n count : Nat}

/-- One step of a grid of so many digits, in quarters of a unit of the last place. -/
private def ratio (x : Binary64) (count : Nat) : Quotient :=
  let scale := scaleOf x.magnitude
  let step : Quotient :=
    if scale < count then ⟨1, Nat.pow 10 (count - scale).natAbs⟩
    else ⟨Nat.pow 10 (scale - count).natAbs, 1⟩
  step.div (.ofScaled 1 (x.exponent - 2))

private theorem ratio_denominator_pos (x : Binary64) (count : Nat) :
    0 < (ratio x count).denominator := by
  refine Nat.mul_pos ?_ (Quotient.numerator_ofScaled_pos Nat.one_pos _)
  split
  · exact Nat.pow_pos (by decide)
  · exact Nat.one_pos

private theorem value_ratio (x : Binary64) (count : Nat) :
    (ratio x count).value =
      (10 : ℚ) ^ (scaleOf x.magnitude - count) / (2 : ℚ) ^ (x.exponent - 2) := by
  rw [ratio, Quotient.value_div, Quotient.value_ofScaled, Nat.cast_one, one_mul]
  congr 1
  have hpow (k : Nat) : ((Nat.pow 10 k : Nat) : ℚ) = (10 : ℚ) ^ (k : Int) := by
    rw [Nat.pow_eq, Nat.cast_pow, zpow_natCast]
    norm_num
  split
  · have hneg : scaleOf x.magnitude - count = -((count - scaleOf x.magnitude).natAbs : Int) := by
      omega
    rw [Quotient.value, hpow, Nat.cast_one, one_div, ← zpow_neg, ← hneg]
  · have hpos : ((scaleOf x.magnitude - count).natAbs : Int) = scaleOf x.magnitude - count := by
      omega
    rw [Quotient.value, hpow, Nat.cast_one, div_one, hpos]

private theorem holds_bounds {i : Interval} {d : Nat} (h : i.holds n d = true) :
    i.low * d ≤ n ∧ n ≤ i.high * d := by
  unfold Interval.holds at h
  split at h
  · simpa using h
  · simp only [Bool.and_eq_true, decide_eq_true_eq] at h
    exact ⟨h.1.le, h.2.le⟩

private theorem holds_of_chosen {i : Interval} {r : Quotient} {value : Nat}
    (h : (match i.holds (value / r.numerator * r.numerator) r.denominator,
        i.holds ((value / r.numerator + 1) * r.numerator) r.denominator with
      | true, true => some (Quotient.nearest ⟨value, r.numerator⟩)
      | true, false => some (value / r.numerator)
      | false, true => some (value / r.numerator + 1)
      | false, false => none) = some n) : i.holds (n * r.numerator) r.denominator = true := by
  have hnearest : Quotient.nearest ⟨value, r.numerator⟩ = value / r.numerator ∨
      Quotient.nearest ⟨value, r.numerator⟩ = value / r.numerator + 1 := by
    unfold Quotient.nearest
    simp only []
    split
    · exact .inl rfl
    split
    · omega
    · exact .inr rfl
  split at h
  · obtain rfl := Option.some_inj.1 h
    rcases hnearest with heq | heq
    · rwa [heq]
    · rwa [heq]
  · exact Option.some_inj.1 h ▸ ‹_›
  · exact Option.some_inj.1 h ▸ ‹_›
  · simp at h

private theorem holds_of_withDigits (h : withDigits? x count = some n) :
    (intervalOf x).holds (n * (ratio x count).numerator) (ratio x count).denominator = true :=
  holds_of_chosen (r := ratio x count) h

private theorem of_withDigits (hx : 0 < x.significand) (h : withDigits? x count = some n) :
    0 < n ∧ n * (10 : ℚ) ^ (scaleOf x.magnitude - count) ≤
      (x.significand + 1 / 2) * (2 : ℚ) ^ x.exponent := by
  have hd := ratio_denominator_pos x count
  have hvalue := value_ratio x count
  obtain ⟨hlow, hhigh⟩ := holds_bounds (holds_of_withDigits h)
  generalize ratio x count = r at hd hvalue hlow hhigh
  constructor
  · refine Nat.pos_iff_ne_zero.2 fun hzero => ?_
    have hbelow : 0 < (intervalOf x).low := by
      simp only [intervalOf]
      split <;> omega
    have hpos := Nat.mul_pos hbelow hd
    rw [hzero] at hlow
    omega
  · have hden : (0 : ℚ) < r.denominator := by exact_mod_cast hd
    have hquarters : (n : ℚ) * r.value ≤ 4 * x.significand + 2 := by
      rw [Quotient.value, mul_div_assoc', div_le_iff₀ hden]
      exact_mod_cast hhigh
    have hunit : (2 : ℚ) ^ x.exponent = 4 * (2 : ℚ) ^ (x.exponent - 2) := by
      rw [zpow_sub₀ (by norm_num)]
      ring
    rw [hvalue, mul_div_assoc', div_le_iff₀ (by positivity)] at hquarters
    rw [hunit]
    linarith

private theorem of_search {fuel first : Nat} (h : search x fuel first = some (n, count)) :
    withDigits? x count = some n := by
  induction fuel generalizing first with
  | zero => simp [search] at h
  | succ fuel ih =>
    rw [search] at h
    split at h
    · rename_i hfound
      obtain ⟨rfl, rfl⟩ := Prod.mk.inj (Option.some_inj.1 h)
      exact hfound
    · exact ih h

end Shortest

/-- The shortest digits of a number begin with one that is not zero, and they are at most half a
unit of its last place larger. The digits of the significand would be taken if there were none. -/
theorem Binary64.shortest_bounds {x : Binary64} (hx : 0 < x.significand) :
    x.shortest.Proper ∧
      x.shortest.value ≤ max ((x.significand + 1 / 2) * (2 : ℚ) ^ x.exponent) x.significand := by
  rw [shortest, if_neg hx.ne']
  split
  · rename_i n count hfound
    obtain ⟨hn, hle⟩ := Shortest.of_withDigits hx (Shortest.of_search hfound)
    obtain ⟨hproper, hvalue⟩ :=
      Digits.stripped hn (Shortest.scaleOf x.magnitude + ((toDigits 10 n).length - count))
    refine ⟨hproper, ?_⟩
    rw [hvalue, add_sub_assoc, sub_sub_cancel_left, ← sub_eq_add_neg]
    exact hle.trans (le_max_left _ _)
  · refine ⟨⟨fun c hc => Nat.isDigit_of_mem_toDigits (by omega) (by omega) hc,
      toDigits_eq_cons hx⟩, ?_⟩
    rw [Digits.value, sub_self, zpow_zero, mul_one, Nat.ofDigitChars_ten_toDigits]
    exact le_max_right _ _

end LiveDoc.Decimal
